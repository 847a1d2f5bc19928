import Mathlib.Algebra.GroupWithZero.Nat
import Custody.Market.Kind

/-!
# Periods that are too large

The product behind the sum of the weights is a machine word exactly for periods below `2 ^ 32`
(`mul_succ_lt_size_iff`).  There the sum is what it should be, in every build.  A kind that `Fits` an
arithmetic is one that a build with it always computes, and then it gives the plain averages; on any
other kind it stops at the first series with a value in it (`compute_eq_error_iff`).
-/

namespace Custody

theorem mul_succ_lt_size_iff {n : Nat} : n * (n + 1) < UInt64.size ↔ n < 2 ^ 32 := by
  have hsize : UInt64.size = 2 ^ 32 * 2 ^ 32 := rfl
  rw [hsize]
  constructor
  · intro h
    refine Nat.lt_of_not_le fun hn => ?_
    have hle : 2 ^ 32 * 2 ^ 32 ≤ n * (n + 1) := Nat.mul_le_mul hn (by omega)
    omega
  · intro h
    calc n * (n + 1) < 2 ^ 32 * (n + 1) := Nat.mul_lt_mul_of_pos_right h (Nat.succ_pos n)
      _ ≤ 2 ^ 32 * 2 ^ 32 := Nat.mul_le_mul_left _ h

namespace Average

variable {n : Nat}

/-- The operation that stops a build with checked arithmetic when a period is too large. -/
def overflowAt (n : Nat) : Overflow := if n + 1 < UInt64.size then .multiply else .add

theorem weightProduct_of_lt (mode : Arithmetic) (hn : n < 2 ^ 32) :
    weightProduct mode n = .ok (n * (n + 1)) := by
  have hsucc : n + 1 < UInt64.size := by
    have : UInt64.size = 2 ^ 64 := rfl
    omega
  simp only [weightProduct, Arithmetic.add, Arithmetic.mul, Arithmetic.word, if_pos hsucc, bind,
    Except.bind, if_pos (mul_succ_lt_size_iff.2 hn)]

theorem weightProduct_checked (hn : ¬n < 2 ^ 32) :
    weightProduct .checked n = .error (overflowAt n) := by
  by_cases hsucc : n + 1 < UInt64.size
  · simp only [weightProduct, Arithmetic.add, Arithmetic.mul, Arithmetic.word, if_pos hsucc, bind,
      Except.bind, if_neg (mt mul_succ_lt_size_iff.1 hn), overflowAt]
  · simp only [weightProduct, Arithmetic.add, Arithmetic.word, if_neg hsucc, bind, Except.bind,
      overflowAt]

theorem word_wrapping (o : Overflow) (n : Nat) :
    Arithmetic.wrapping.word o n = .ok (n % UInt64.size) := by
  unfold Arithmetic.word
  split
  · next h => rw [Nat.mod_eq_of_lt h]
  · rfl

/-- A build that does not check computes the product that `weightTotal` halves. -/
theorem weightProduct_wrapping (n : Nat) :
    weightProduct .wrapping n = .ok (n * (n + 1) % UInt64.size) := by
  simp only [weightProduct, Arithmetic.add, Arithmetic.mul, word_wrapping, bind, Except.bind,
    Nat.mul_mod_mod]

theorem weightTotal_of_lt {R : Type} [Div R] [NatCast R] (hn : n < 2 ^ 32) :
    (weightTotal n : R) = ((n * (n + 1) : Nat) : R) / ((2 : Nat) : R) := by
  rw [weightTotal, Nat.mod_eq_of_lt (mul_succ_lt_size_iff.2 hn)]

end Average

namespace IndicatorKind

open Average

/-- Whether a build with some arithmetic computes the averages of a kind, whatever the series. -/
def Fits (mode : Arithmetic) (k : IndicatorKind) : Prop :=
  mode = .checked → k.method = .wma → k.period < 2 ^ 32

instance (mode : Arithmetic) (k : IndicatorKind) : Decidable (k.Fits mode) :=
  inferInstanceAs (Decidable (_ → _ → _))

variable {R : Type} [Add R] [Sub R] [Mul R] [Div R] [NatCast R] {mode : Arithmetic}
  {k : IndicatorKind} {v : List R} {o : Overflow}

theorem prepare_of_fits (hk : k.Fits mode) : k.prepare mode = .ok () := by
  obtain ⟨_ | _ | _, n⟩ := k
  · rfl
  · rfl
  · cases mode with
    | checked =>
      have hn : n < 2 ^ 32 := hk rfl rfl
      simp only [prepare, weightProduct_of_lt _ hn, Except.map]
    | wrapping => simp only [prepare, weightProduct_wrapping, Except.map]

theorem prepare_of_not_fits (hk : ¬k.Fits mode) :
    k.prepare mode = .error (overflowAt k.period) := by
  obtain ⟨rfl, hwma, hn⟩ : mode = .checked ∧ k.method = .wma ∧ ¬k.period < 2 ^ 32 := by
    simpa only [Fits, Classical.not_imp] using hk
  simp only [prepare, hwma, weightProduct_checked hn, Except.map]

theorem calculate_nil (k : IndicatorKind) : k.calculate ([] : List R) = [] := by
  obtain ⟨_ | _ | _, n⟩ := k <;> exact ite_id []

theorem compute_of_fits (hk : k.Fits mode) (v : List R) :
    k.compute mode v = .ok (k.calculate v) := by
  cases v with
  | nil => rw [calculate_nil]; rfl
  | cons x v => simp only [compute, prepare_of_fits hk, Except.map, List.isEmpty_cons,
      Bool.false_eq_true, if_false]

/-- A build stops at a kind that it does not always compute, and only there. -/
theorem compute_eq_error_iff :
    k.compute mode v = .error o ↔ ¬k.Fits mode ∧ v ≠ [] ∧ o = overflowAt k.period := by
  by_cases hk : k.Fits mode
  · simp [compute_of_fits hk, hk]
  · cases v with
    | nil => simp [compute]
    | cons x v => simp [compute, prepare_of_not_fits hk, Except.map, hk, eq_comm]

end IndicatorKind

end Custody
