/-!
# Doubles as exact numbers

A finite double is `significand * 2 ^ exponent`.  `Binary64.decode` takes the bits apart and
`Binary64.nearest` goes from a quotient of natural numbers to the bits of the nearest double, a tie
going to the even neighbour.  Both work on the bits alone, in exact arithmetic.
-/

namespace Custody

/-- A quotient rounded to the nearest natural number, a tie to the even one. -/
def roundHalfEven (num den : Nat) : Nat :=
  let q := num / den
  let r := num % den
  if 2 * r < den then q else if den < 2 * r then q + 1 else q + q % 2

namespace Binary64

def minExponent : Int := -1074

def infinityBits : Nat := 2047 * Nat.pow 2 52

/-- What the bits of a double say. -/
inductive Shape where
  | nan
  | infinite (negative : Bool)
  | finite (negative : Bool) (significand : Nat) (exponent : Int)
  deriving Repr, DecidableEq

def decode (bits : Nat) : Shape :=
  let negative := decide (Nat.pow 2 63 ≤ bits)
  let rest := bits % Nat.pow 2 63
  let biased := rest / Nat.pow 2 52
  let fraction := rest % Nat.pow 2 52
  if biased = 2047 then if fraction = 0 then .infinite negative else .nan
  else if biased = 0 then .finite negative fraction minExponent
  else .finite negative (Nat.pow 2 52 + fraction) (minExponent + (biased - 1 : Nat))

/-- `num * 2 ^ -exponent / den` as a quotient of natural numbers. -/
def scaled (num den : Nat) (exponent : Int) : Nat × Nat :=
  if exponent < 0 then (num * Nat.pow 2 exponent.natAbs, den)
  else (num, den * Nat.pow 2 exponent.natAbs)

/-- The exponent of the least power of two that is not above `num / den`. -/
def magnitude (num den : Nat) : Int :=
  let e : Int := (num.log2 : Int) - den.log2
  let (n, d) := scaled num den e
  if n < d then e - 1 else e

def nearest (num den : Nat) : Nat :=
  if num = 0 then 0
  else
    let exponent := max (magnitude num den - 52) minExponent
    let (n, d) := scaled num den exponent
    min infinityBits ((exponent - minExponent).toNat * Nat.pow 2 52 + roundHalfEven n d)

end Binary64

end Custody
