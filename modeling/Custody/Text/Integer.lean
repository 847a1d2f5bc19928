/-!
# Reading integers

An integer is an optional sign and one or more of the digits 0 to 9, and nothing else.  Digits are
read from the left, and the first thing that is wrong decides the error.
-/

namespace Custody.Text

/-- Why a text is not an integer of the wanted range. -/
inductive IntegerError where
  | empty
  | invalidDigit
  | tooLarge
  | tooSmall
  deriving DecidableEq, Repr

def IntegerError.message : IntegerError → String
  | empty => "cannot parse integer from empty string"
  | invalidDigit => "invalid digit found in string"
  | tooLarge => "number too large to fit in target type"
  | tooSmall => "number too small to fit in target type"

def digitValue (c : Char) : Nat := c.toNat - '0'.toNat

/-- Reads digits behind a number that stands for those already read; `excess` is the error for a
number above `limit`. -/
def readDigits (limit : Nat) (excess : IntegerError) (n : Nat) :
    List Char → Except IntegerError Nat
  | [] => .ok n
  | c :: cs =>
    if !c.isDigit then .error .invalidDigit
    else if limit < 10 * n + digitValue c then .error excess
    else readDigits limit excess (10 * n + digitValue c) cs

def readSigned (limit : Nat) (excess : IntegerError) (cs : List Char) : Except IntegerError Nat :=
  if cs.isEmpty then .error .invalidDigit else readDigits limit excess 0 cs

def maxNatural : Nat := UInt64.size - 1

def maxInteger : Nat := UInt64.size / 2 - 1

/-- Reads a natural number of 64 bits; the sign may be `+`. -/
def readNatural : List Char → Except IntegerError Nat
  | [] => .error .empty
  | '+' :: cs => readSigned maxNatural .tooLarge cs
  | cs => readDigits maxNatural .tooLarge 0 cs

/-- Reads an integer of 64 bits; the sign may be `+` or `-`. -/
def readInteger : List Char → Except IntegerError Int
  | [] => .error .empty
  | '+' :: cs => (readSigned maxInteger .tooLarge cs).map Int.ofNat
  | '-' :: cs => (readSigned (maxInteger + 1) .tooSmall cs).map fun n => -(n : Int)
  | cs => (readDigits maxInteger .tooLarge 0 cs).map Int.ofNat

end Custody.Text
