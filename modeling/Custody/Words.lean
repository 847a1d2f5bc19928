/-!
# Machine words

A count is a machine word of 64 bits.  Where the result of an operation is no machine word, a build
that checks its arithmetic stops with an `Overflow`, and one that does not goes on with the lower 64
bits of the result.  Which of the two a build does, is its `Arithmetic`.
-/

namespace Custody

/-- An operation whose result is no machine word. -/
inductive Overflow where
  | add
  | multiply
  deriving DecidableEq, Repr

def Overflow.message : Overflow → String
  | add => "attempt to add with overflow"
  | multiply => "attempt to multiply with overflow"

/-- What a build does where the result of an operation is no machine word. -/
inductive Arithmetic where
  | checked
  | wrapping
  deriving DecidableEq, Repr

namespace Arithmetic

/-- The machine word for `n`, which is the result of the operation `o`. -/
def word (mode : Arithmetic) (o : Overflow) (n : Nat) : Except Overflow Nat :=
  if n < UInt64.size then .ok n
  else match mode with
    | checked => .error o
    | wrapping => .ok (n % UInt64.size)

def add (mode : Arithmetic) (m n : Nat) : Except Overflow Nat := mode.word .add (m + n)

def mul (mode : Arithmetic) (m n : Nat) : Except Overflow Nat := mode.word .multiply (m * n)

end Arithmetic

end Custody
