import Custody.Number.Binary64

/-!
# Writing numbers

`fixed places x` writes a double with a fixed number of decimals: the exact binary value is rounded,
a tie to the even digit, and the sign is that of the double, also of a zero.  `padLeft` and
`padRight` fill a text up to a width in characters and never cut it.
-/

namespace Custody.Text

def padLeft (width : Nat) (s : String) : String :=
  String.ofList (List.replicate (width - s.length) ' ') ++ s

def padRight (width : Nat) (s : String) : String :=
  s ++ String.ofList (List.replicate (width - s.length) ' ')

/-- The digits of `n`, with zeros in front of them up to a width. -/
def zeroPadded (width n : Nat) : String :=
  String.ofList (List.replicate (width - n.repr.length) '0') ++ n.repr

/-- `significand * 2 ^ exponent * 10 ^ places`, rounded. -/
def scaledDecimal (places significand : Nat) (exponent : Int) : Nat :=
  if exponent < 0 then roundHalfEven (significand * Nat.pow 10 places) (Nat.pow 2 exponent.natAbs)
  else significand * Nat.pow 10 places * Nat.pow 2 exponent.natAbs

/-- The texts of the doubles that have the given shape. -/
def fixedShape (places : Nat) : Binary64.Shape → String
  | .nan => "NaN"
  | .infinite negative => if negative then "-inf" else "inf"
  | .finite negative significand exponent =>
    let n := scaledDecimal places significand exponent
    (if negative then "-" else "") ++ (n / Nat.pow 10 places).repr ++ "." ++
      zeroPadded places (n % Nat.pow 10 places)

def fixed (places : Nat) (x : Float) : String := fixedShape places (Binary64.decode x.toBits.toNat)

end Custody.Text
