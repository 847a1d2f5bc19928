import Mathlib.Algebra.BigOperators.Group.List.Basic
import Mathlib.Algebra.Order.Field.Rat

/-!
# Exact numbers with infinities

The rationals with two infinities and a value that is no number, under the rules of floating point
for them and without rounding.  There is one zero, which is not negative.  Addition is that of a
commutative monoid, but an infinity has no opposite: what comes back when a number is added and
taken away again (`add_sub_self`) is the other summand for a finite number, and no number for any
other.
-/

namespace Custody

inductive Extended
  | finite (q : ℚ)
  | infinite (negative : Bool)
  | nan
  deriving DecidableEq

namespace Extended

/-! ### Operations -/

protected def neg : Extended → Extended
  | finite p => finite (-p)
  | infinite s => infinite (!s)
  | nan => nan

protected def add : Extended → Extended → Extended
  | finite p, finite q => finite (p + q)
  | finite _, infinite s => infinite s
  | infinite s, finite _ => infinite s
  | infinite s, infinite t => if s = t then infinite s else nan
  | nan, _ => nan
  | _, nan => nan

/-- The infinity with the sign of a product. -/
def signed (q : ℚ) (s : Bool) : Extended := infinite (xor (decide (q < 0)) s)

protected def mul : Extended → Extended → Extended
  | finite p, finite q => finite (p * q)
  | finite p, infinite s => if p = 0 then nan else signed p s
  | infinite s, finite p => if p = 0 then nan else signed p s
  | infinite s, infinite t => infinite (xor s t)
  | nan, _ => nan
  | _, nan => nan

protected def div : Extended → Extended → Extended
  | finite p, finite q =>
    if q = 0 then (if p = 0 then nan else signed p false) else finite (p / q)
  | finite _, infinite _ => finite 0
  | infinite s, finite q => signed q s
  | infinite _, infinite _ => nan
  | nan, _ => nan
  | _, nan => nan

instance : Neg Extended := ⟨Extended.neg⟩

instance : Add Extended := ⟨Extended.add⟩

instance : Sub Extended := ⟨fun x y => x + -y⟩

instance : Mul Extended := ⟨Extended.mul⟩

instance : Div Extended := ⟨Extended.div⟩

instance : NatCast Extended := ⟨fun k => finite k⟩

instance : Zero Extended := ⟨finite 0⟩

def isFinite : Extended → Bool
  | finite _ => true
  | _ => false

/-! ### Sums -/

section Sums

theorem sub_eq (x y : Extended) : x - y = x + -y := rfl

theorem zero_eq : (0 : Extended) = finite 0 := rfl

theorem natCast_eq (k : Nat) : (k : Extended) = finite k := rfl

@[simp, grind =] theorem neg_finite (p : ℚ) : -finite p = finite (-p) := rfl

@[simp, grind =] theorem neg_infinite (s : Bool) : -infinite s = infinite (!s) := rfl

@[simp, grind =] theorem neg_nan : -nan = nan := rfl

@[simp, grind =] theorem finite_add_finite (p q : ℚ) : finite p + finite q = finite (p + q) := rfl

@[simp, grind =] theorem finite_add_infinite (p : ℚ) (s : Bool) :
    finite p + infinite s = infinite s := rfl

@[simp, grind =] theorem infinite_add_finite (s : Bool) (p : ℚ) :
    infinite s + finite p = infinite s := rfl

@[simp, grind =] theorem infinite_add_infinite (s t : Bool) :
    infinite s + infinite t = if s = t then infinite s else nan := rfl

@[simp, grind =] theorem nan_add (x : Extended) : nan + x = nan := by
  cases x <;> rfl

@[simp, grind =] theorem add_nan (x : Extended) : x + nan = nan := by
  cases x <;> rfl

protected theorem add_comm (x y : Extended) : x + y = y + x := by
  cases x <;> cases y <;> grind

protected theorem zero_add (x : Extended) : 0 + x = x := by
  cases x <;> simp [zero_eq]

protected theorem add_assoc (x y z : Extended) : x + y + z = x + (y + z) := by
  cases x <;> cases y <;> cases z <;> grind

instance : AddCommMonoid Extended where
  add_assoc := Extended.add_assoc
  zero_add := Extended.zero_add
  add_zero x := by rw [Extended.add_comm, Extended.zero_add]
  add_comm := Extended.add_comm
  nsmul := nsmulRec

@[simp] theorem isFinite_add (x y : Extended) :
    (x + y).isFinite = (x.isFinite && y.isFinite) := by
  cases x <;> cases y <;> grind [isFinite]

end Sums

/-! ### Loss -/

section Loss

variable {c d : Bool} {x y : Extended}

/-- A value that is lost unless all that was taken away from it was finite. -/
def kept (c : Bool) (x : Extended) : Extended := if c then x else nan

@[simp] theorem kept_true (x : Extended) : kept true x = x := rfl

@[simp] theorem kept_false (x : Extended) : kept false x = nan := rfl

theorem kept_kept (c d : Bool) (x : Extended) : kept c (kept d x) = kept (c && d) x := by
  cases c <;> rfl

theorem kept_add (c : Bool) (x y : Extended) : kept c x + y = kept c (x + y) := by
  cases c
  · exact nan_add y
  · rfl

theorem add_kept (c : Bool) (x y : Extended) : x + kept c y = kept c (x + y) := by
  rw [add_comm, kept_add, add_comm]

theorem neg_kept (c : Bool) (x : Extended) : -kept c x = kept c (-x) := by
  cases c <;> rfl

theorem kept_div (c : Bool) (x y : Extended) : kept c x / y = kept c (x / y) := by
  cases c
  · cases y <;> rfl
  · rfl

theorem kept_eq_kept_iff : kept c x = kept d x ↔ c = d ∨ x = nan := by
  cases c <;> cases d <;> simp [eq_comm]

theorem kept_eq_self_iff : kept c x = x ↔ c = true ∨ x = nan :=
  kept_eq_kept_iff (d := true)

/-- What is added and taken away again is gone only if it was finite. -/
theorem add_sub_self (x y : Extended) : x + y - x = kept x.isFinite y := by
  cases x <;> cases y <;> grind [sub_eq, isFinite, kept]

end Loss

/-! ### Weights -/

section Weights

variable {k : Nat} {q : ℚ} {x : Extended}

theorem signed_of_pos (hq : 0 < q) (s : Bool) : signed q s = infinite s := by
  rw [signed, decide_eq_false hq.asymm, Bool.false_xor]

theorem natCast_mul_infinite (hk : 0 < k) (s : Bool) :
    (k : Extended) * infinite s = infinite s := by
  show (if (k : ℚ) = 0 then nan else signed k s) = infinite s
  rw [if_neg (Nat.cast_ne_zero.2 hk.ne'), signed_of_pos (Nat.cast_pos.2 hk)]

protected theorem one_mul (x : Extended) : ((1 : Nat) : Extended) * x = x := by
  cases x with
  | finite q => exact congrArg finite (by rw [Nat.cast_one, one_mul])
  | infinite s => exact natCast_mul_infinite Nat.one_pos s
  | nan => rfl

theorem succ_mul (hk : 0 < k) (x : Extended) :
    ((k + 1 : Nat) : Extended) * x = (k : Extended) * x + x := by
  cases x with
  | finite q => exact congrArg finite (by rw [Nat.cast_succ, add_one_mul])
  | infinite s =>
    rw [natCast_mul_infinite hk, natCast_mul_infinite k.succ_pos, infinite_add_infinite,
      if_pos rfl]
  | nan => rfl

theorem finite_div_finite (hq : q ≠ 0) (p : ℚ) : finite p / finite q = finite (p / q) :=
  if_neg hq

theorem div_eq_nan_iff (hq : q ≠ 0) : x / finite q = nan ↔ x = nan := by
  cases x with
  | finite p => simp [finite_div_finite hq]
  | infinite s => exact iff_of_false Extended.noConfusion Extended.noConfusion
  | nan => exact iff_of_true rfl rfl

protected theorem div_one (x : Extended) : x / ((1 : Nat) : Extended) = x := by
  cases x with
  | finite p =>
    rw [natCast_eq, finite_div_finite (by simp), Nat.cast_one, div_one]
  | infinite s => exact signed_of_pos (Nat.cast_pos.2 Nat.one_pos) s
  | nan => rfl

end Weights

end Extended

end Custody
