import Custody.Error
import Custody.Market.Average
import Custody.Text.Blank
import Custody.Text.Case
import Custody.Text.Integer
import Custody.Text.Split

/-!
# Kinds of indicators

An `IndicatorKind` is a method of averaging and a period.  `IndicatorKind.compute` takes the
averages of a series, in the arithmetic of a build.  `IndicatorKind.text` writes it as in
`SMA(20)`, `IndicatorKind.read` reads it in any case and with blanks at the usual places, and
`IndicatorKind.readList` reads kinds between commas and skips blank parts.
-/

namespace Custody

/-- How values are averaged. -/
inductive Method where
  | sma
  | ema
  | wma
  deriving DecidableEq, Repr

namespace Method

def text : Method → String
  | sma => "SMA"
  | ema => "EMA"
  | wma => "WMA"

def ofName? (cs : List Char) : Option Method :=
  [sma, ema, wma].find? (·.text.toList = cs)

end Method

/-- A method of averaging and its period. -/
structure IndicatorKind where
  method : Method
  period : Nat
  deriving DecidableEq, Repr

namespace IndicatorKind

section Averages

variable {R : Type} [Add R] [Sub R] [Mul R] [Div R] [NatCast R]

/-- The averages of a series; nothing while the window is not full. -/
def calculate (k : IndicatorKind) (values : List R) : List (Option R) :=
  match k.method with
  | .sma => Average.sma k.period values
  | .ema => Average.ema k.period values
  | .wma => Average.wma k.period values

/-- What is computed in machine words before the first average. -/
def prepare (mode : Arithmetic) (k : IndicatorKind) : Except Overflow Unit :=
  match k.method with
  | .wma => (Average.weightProduct mode k.period).map fun _ => ()
  | .sma | .ema => .ok ()

/-- The averages of a series as a build computes them.  One that checks its arithmetic may stop
before the first of them. -/
def compute (mode : Arithmetic) (k : IndicatorKind) (values : List R) :
    Except Overflow (List (Option R)) :=
  if values.isEmpty then .ok []
  else (k.prepare mode).map fun _ => k.calculate values

end Averages

def text (k : IndicatorKind) : String := k.method.text ++ "(" ++ k.period.repr ++ ")"

/-- Reads a kind from a text in upper case without blanks at its ends. -/
def ofUpper? (cs : List Char) : Option IndicatorKind := do
  let (name, rest) ← Text.cut (· = '(') cs
  let body ← Text.dropTail? [')'] rest
  let period ← (Text.readNatural (Text.trim body)).toOption
  if period = 0 then none
  let method ← Method.ofName? (Text.trim name)
  some ⟨method, period⟩

def read (cs : List Char) : Except Error IndicatorKind :=
  match ofUpper? (Text.upper (Text.trim cs)) with
  | some k => .ok k
  | none => .error (.unknownIndicator (String.ofList (Text.trim cs)))

/-- Reads the kinds between commas; blank parts count for nothing. -/
def readList (cs : List Char) : Except Error (List IndicatorKind) :=
  ((Text.fields ',' cs).filter fun part => !Text.isBlankText part).mapM read

end IndicatorKind

end Custody
