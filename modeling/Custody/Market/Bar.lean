import Custody.Calendar.Date
import Custody.Text.Blank
import Custody.Text.Case

/-!
# Bars

A `Bar` is what is known of one symbol on one day: the four prices and the volume.  An
`AppliedPrice` chooses one price of a bar, or an average of some of them; `AppliedPrice.text` is its
name and `AppliedPrice.read` finds it by its name, in any case and between blanks.
-/

namespace Custody

/-- The prices and the volume of one day. -/
structure Bar where
  code : String
  exchange : String
  date : Date
  opening : Float
  high : Float
  low : Float
  closing : Float
  volume : Int

namespace Bar

def median (b : Bar) : Float := (b.high + b.low) / 2

/-- The mean of the highest, the lowest and the last price. -/
def typical (b : Bar) : Float := (b.high + b.low + b.closing) / 3

/-- The mean of the highest and the lowest price and twice the last one. -/
def weighted (b : Bar) : Float := (b.high + b.low + 2 * b.closing) / 4

end Bar

/-- Which price of a bar is meant. -/
inductive AppliedPrice where
  | opening
  | high
  | low
  | closing
  | median
  | typical
  | weighted
  deriving DecidableEq, Repr

namespace AppliedPrice

def all : List AppliedPrice := [opening, high, low, closing, median, typical, weighted]

def of : AppliedPrice → Bar → Float
  | opening, b => b.opening
  | high, b => b.high
  | low, b => b.low
  | closing, b => b.closing
  | median, b => b.median
  | typical, b => b.typical
  | weighted, b => b.weighted

def text : AppliedPrice → String
  | opening => "open"
  | high => "high"
  | low => "low"
  | closing => "close"
  | median => "median"
  | typical => "typical"
  | weighted => "weighted"

/-- The applied price of a name; the error is the wording of the refusal. -/
def read (s : String) : Except String AppliedPrice :=
  let wanted := Text.lowerString (Text.trimString s)
  match all.find? (·.text = wanted) with
  | some p => .ok p
  | none => .error ("unknown applied price '" ++ wanted ++ "'")

end AppliedPrice

end Custody
