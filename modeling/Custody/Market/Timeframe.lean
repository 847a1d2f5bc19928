import Custody.Text.Blank
import Custody.Text.Case

/-!
# Timeframes

A `Timeframe` is the span that one value of a series stands for, from a minute to a month.
`Timeframe.text` is its name and `Timeframe.read` finds it by its name, in any case and between
blanks.
-/

namespace Custody

/-- The span of one value of a series. -/
inductive Timeframe where
  | m1
  | m5
  | m15
  | m30
  | h1
  | h4
  | d1
  | w1
  | mn1
  deriving DecidableEq, Repr

namespace Timeframe

/-- All timeframes, from the shortest to the longest. -/
def all : List Timeframe := [m1, m5, m15, m30, h1, h4, d1, w1, mn1]

def rank : Timeframe → Nat
  | m1 => 0
  | m5 => 1
  | m15 => 2
  | m30 => 3
  | h1 => 4
  | h4 => 5
  | d1 => 6
  | w1 => 7
  | mn1 => 8

instance : Ord Timeframe := ⟨fun a b => compare a.rank b.rank⟩

def text : Timeframe → String
  | m1 => "M1"
  | m5 => "M5"
  | m15 => "M15"
  | m30 => "M30"
  | h1 => "H1"
  | h4 => "H4"
  | d1 => "D1"
  | w1 => "W1"
  | mn1 => "MN1"

/-- The timeframe of a name; the error is the wording of the refusal. -/
def read (s : String) : Except String Timeframe :=
  let wanted := Text.upperString (Text.trimString s)
  match all.find? (·.text = wanted) with
  | some t => .ok t
  | none => .error ("unknown timeframe '" ++ Text.trimString s ++ "'")

end Timeframe

end Custody
