import Custody.Number.Binary64
import Custody.Text.Integer

/-!
# Reading numbers with a fraction

A number is an optional sign and either one of the words `inf`, `infinity` and `nan` in any case, or
digits with an optional point among them, at least one digit in all, and an optional exponent.  Its
value is the double nearest to it (`Numeral.bits`).
-/

namespace Custody.Text

/-- Why a text is not a number. -/
inductive RealError where
  | empty
  | invalid
  deriving DecidableEq, Repr

def RealError.message : RealError → String
  | empty => "cannot parse float from empty string"
  | invalid => "invalid float literal"

/-- A number without its sign. -/
inductive Numeral where
  | nan
  | infinity
  /-- `digits * 10 ^ exponent`. -/
  | decimal (digits : Nat) (exponent : Int)
  deriving DecidableEq, Repr

def digitsValue (ds : List Char) : Nat := ds.foldl (fun n c => 10 * n + digitValue c) 0

/-- Reads the exponent, from its mark on; a text without a mark has exponent 0. -/
def readExponent : List Char → Option Int
  | [] => some 0
  | e :: cs =>
    if e ≠ 'e' ∧ e ≠ 'E' then none
    else
      let (negative, ds) := match cs with
        | '+' :: ds => (false, ds)
        | '-' :: ds => (true, ds)
        | ds => (false, ds)
      if ds.isEmpty || !ds.all Char.isDigit then none
      else some (if negative then -(digitsValue ds : Int) else digitsValue ds)

/-- Reads digits with an optional point and an optional exponent. -/
def readDecimal (cs : List Char) : Option Numeral := do
  let whole := cs.takeWhile Char.isDigit
  let rest := cs.dropWhile Char.isDigit
  let (part, rest) := match rest with
    | '.' :: r => (r.takeWhile Char.isDigit, r.dropWhile Char.isDigit)
    | r => ([], r)
  if whole.isEmpty && part.isEmpty then none
  let exponent ← readExponent rest
  some (.decimal (digitsValue (whole ++ part)) (exponent - part.length))

def readNumeral (cs : List Char) : Option Numeral :=
  let word := String.ofList (cs.map Char.toLower)
  if word = "inf" ∨ word = "infinity" then some .infinity
  else if word = "nan" then some .nan
  else readDecimal cs

/-- The bits of the double nearest to a number without sign.  Beyond `10 ^ 400` and below
`10 ^ -400` the nearest double is infinity or zero, whatever the digits are. -/
def Numeral.bits : Numeral → Nat
  | nan => Binary64.infinityBits + Nat.pow 2 51
  | infinity => Binary64.infinityBits
  | decimal digits exponent =>
    let top : Int := exponent + (digits.log2 : Int) / 3 + 1
    let bottom : Int := exponent + (digits.log2 : Int) / 4
    if digits = 0 ∨ top < -400 then 0
    else if 400 < bottom then Binary64.infinityBits
    else if exponent < 0 then Binary64.nearest digits (Nat.pow 10 exponent.natAbs)
    else Binary64.nearest (digits * Nat.pow 10 exponent.natAbs) 1

def signBit : Nat := Nat.pow 2 63

def readReal (cs : List Char) : Except RealError Float :=
  let (sign, body) := match cs with
    | '+' :: r => (0, r)
    | '-' :: r => (signBit, r)
    | r => (0, r)
  match cs, readNumeral body with
  | [], _ => .error .empty
  | _, none => .error .invalid
  | _, some n => .ok (Float.ofBits (UInt64.ofNat (sign + n.bits)))

end Custody.Text
