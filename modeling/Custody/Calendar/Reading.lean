import Custody.Calendar.Date
import Custody.Text.Blank
import Custody.Text.Integer

/-!
# Reading dates

A date is read as year, `-`, month, `-` and day, with nothing behind.  Blanks before a number are
skipped.  A year with a sign may have any number of digits; without one it has up to four, and month
and day have up to two.  `Date.read` gives the date or the first thing that is wrong.
-/

namespace Custody

/-- Why a text is not a date. -/
inductive DateError where
  | tooShort
  | tooLong
  | invalid
  | outOfRange
  deriving DecidableEq, Repr

def DateError.message : DateError → String
  | tooShort => "premature end of input"
  | tooLong => "trailing input"
  | invalid => "input contains invalid characters"
  | outOfRange => "input is out of range"

namespace Date

/-- Reads the digits at the start of a text, at most `width` of them, behind the number `n`. -/
def readDigits (n : Nat) : Nat → List Char → Except DateError (Nat × List Char)
  | 0, cs => .ok (n, cs)
  | _ + 1, [] => .ok (n, [])
  | width + 1, c :: cs =>
    if !c.isDigit then .ok (n, c :: cs)
    else if Text.maxInteger < 10 * n + Text.digitValue c then .error .outOfRange
    else readDigits (10 * n + Text.digitValue c) width cs

def readNumber (width : Nat) (cs : List Char) : Except DateError (Nat × List Char) :=
  match cs with
  | [] => .error .tooShort
  | c :: _ => if c.isDigit then readDigits 0 width cs else .error .invalid

def readYear (cs : List Char) : Except DateError (Int × List Char) := do
  let (y, cs) ← match Text.trimLeft cs with
    | '-' :: cs => do
      let (n, r) ← readNumber cs.length cs
      pure (-(n : Int), r)
    | '+' :: cs => do
      let (n, r) ← readNumber cs.length cs
      pure ((n : Int), r)
    | cs => do
      let (n, r) ← readNumber 4 cs
      pure ((n : Int), r)
  if y < Int32.minValue.toInt ∨ Int32.maxValue.toInt < y then .error .outOfRange else .ok (y, cs)

/-- Reads a number of up to two digits between 1 and `limit`. -/
def readPart (limit : Nat) (cs : List Char) : Except DateError (Nat × List Char) := do
  let (n, cs) ← readNumber 2 (Text.trimLeft cs)
  if n < 1 ∨ limit < n then .error .outOfRange else .ok (n, cs)

def readHyphen : List Char → Except DateError (List Char)
  | [] => .error .tooShort
  | c :: cs => if c = '-' then .ok cs else .error .invalid

def read (cs : List Char) : Except DateError Date := do
  let (y, cs) ← readYear cs
  let cs ← readHyphen cs
  let (m, cs) ← readPart 12 cs
  let cs ← readHyphen cs
  let (d, cs) ← readPart 31 cs
  if !cs.isEmpty then .error .tooLong
  else (ofParts? y m d).elim (.error .outOfRange) .ok

end Date

end Custody
