import Mathlib.Data.List.GetD
import Mathlib.Tactic.Linarith
import Custody.Proofs.Market.Windows

/-!
# The exponential average in closed form

The exponential average starts with the plain mean of the first `period` values and then takes, at
every step, a share `2 / (period + 1)` of the new value and leaves the rest to what it was.  So each
value has a weight that shrinks by one factor with every later value, and the first ones share the
weight of the start (`smoothed`, `smoothed_eq_sum`).  The weights make a mean, and all that is true
of means is true of the average (`ema_eq_smoothed`): it lies between the bounds of the values so
far, and follows any change of scale.
-/

namespace Custody

namespace Average

open Finset

section Smoothing

variable {n i : Nat} {f : Nat → ℚ} {v : List ℚ} {e : Entry ℚ}

/-! ### Closed form -/

/-- The share of a new value. -/
def share (n : Nat) : ℚ := 2 / (n + 1)

theorem smoothing_eq_share (n : Nat) : (smoothing n : ℚ) = share n := by
  simp [smoothing, share]

theorem share_nonneg (n : Nat) : 0 ≤ share n := by
  unfold share
  positivity

theorem share_le_one (hn : 0 < n) : share n ≤ 1 := by
  have hone : (1 : ℚ) ≤ n := Nat.one_le_cast.2 hn
  rw [share, div_le_one (by positivity)]
  linarith

theorem share_one : share 1 = 1 := by
  norm_num [share]

/-- The average after position `i` of the values `f`. -/
def smoothed (n : Nat) (f : Nat → ℚ) (i : Nat) : ℚ :=
  (1 - share n) ^ (i + 1 - n) * ((∑ j ∈ range n, f j) / n) +
    ∑ j ∈ Ico n (i + 1), share n * (1 - share n) ^ (i - j) * f j

theorem smoothed_start (hi : i + 1 = n) : smoothed n f i = (∑ j ∈ range n, f j) / n := by
  rw [smoothed, hi, Nat.sub_self, pow_zero, one_mul, Ico_self, sum_empty, add_zero]

theorem smoothed_succ (hi : n ≤ i + 1) :
    smoothed n f (i + 1) = f (i + 1) * share n + smoothed n f i * (1 - share n) := by
  have hpow (j : Nat) (hj : j ∈ Ico n (i + 1)) : share n * (1 - share n) ^ (i + 1 - j) * f j =
      share n * (1 - share n) ^ (i - j) * f j * (1 - share n) := by
    rw [Nat.sub_add_comm (Nat.lt_succ_iff.1 (mem_Ico.1 hj).2), pow_succ]
    ring
  rw [smoothed, smoothed, sum_Ico_succ_top hi, Nat.sub_self, pow_zero, sum_congr rfl hpow,
    ← sum_mul, Nat.sub_add_comm hi, pow_succ]
  ring

/-! ### Weights -/

/-- The weight of the value at `j` in the average after position `i`. -/
def emaWeight (n i j : Nat) : ℚ :=
  if j < n then (1 - share n) ^ (i + 1 - n) / n else share n * (1 - share n) ^ (i - j)

theorem smoothed_eq_sum (hi : n ≤ i + 1) :
    smoothed n f i = ∑ j ∈ range (i + 1), emaWeight n i j * f j := by
  rw [smoothed, ← sum_range_add_sum_Ico _ hi]
  congr 1
  · rw [mul_div_assoc', mul_div_right_comm, mul_sum]
    refine sum_congr rfl fun j hj => ?_
    rw [emaWeight, if_pos (mem_range.1 hj)]
  · refine sum_congr rfl fun j hj => ?_
    rw [emaWeight, if_neg (Nat.not_lt.2 (mem_Ico.1 hj).1)]

theorem emaWeight_nonneg (hn : 0 < n) (i j : Nat) : 0 ≤ emaWeight n i j := by
  have hrest : 0 ≤ 1 - share n := sub_nonneg.2 (share_le_one hn)
  have hshare := share_nonneg n
  unfold emaWeight
  split <;> positivity

/-- One value all along is its own average. -/
theorem smoothed_const (hn : 0 < n) (hi : n ≤ i + 1) : smoothed n (fun _ => 1) i = 1 := by
  have start {i : Nat} (hi : i + 1 = n) : smoothed n (fun _ => 1) i = 1 := by
    rw [smoothed_start hi, sum_const, card_range, nsmul_one, div_self (Nat.cast_ne_zero.2 hn.ne')]
  induction i with
  | zero => exact start (by omega)
  | succ i ih =>
    obtain hlast | hlater := hi.eq_or_lt
    · exact start hlast.symm
    · rw [smoothed_succ (Nat.lt_succ_iff.1 hlater), ih (Nat.lt_succ_iff.1 hlater)]
      ring

theorem sum_emaWeight (hn : 0 < n) (hi : n ≤ i + 1) : ∑ j ∈ range (i + 1), emaWeight n i j = 1 := by
  have hconst := smoothed_const hn hi
  rw [smoothed_eq_sum hi] at hconst
  simpa only [mul_one] using hconst

theorem smoothed_mem_Icc (hn : 0 < n) (hi : n ≤ i + 1) {lo hi' : ℚ}
    (hf : ∀ j ≤ i, f j ∈ Set.Icc lo hi') : smoothed n f i ∈ Set.Icc lo hi' := by
  have htotal := sum_emaWeight hn hi
  rw [sum_range] at htotal
  have hmean := mean_mem_Icc (a := fun j : Fin (i + 1) => emaWeight n i j) (w := fun j => f j)
    (fun j => emaWeight_nonneg hn i j) (htotal ▸ one_pos) fun j => hf j (Nat.lt_succ_iff.1 j.2)
  rwa [htotal, div_one, ← sum_range fun j => emaWeight n i j * f j, ← smoothed_eq_sum hi] at hmean

theorem smoothed_affine (hn : 0 < n) (hi : n ≤ i + 1) (a b : ℚ) :
    smoothed n (fun j => a * f j + b) i = a * smoothed n f i + b := by
  have hterm (j : Nat) : emaWeight n i j * (a * f j + b) =
      a * (emaWeight n i j * f j) + emaWeight n i j * b := by
    ring
  rw [smoothed_eq_sum hi, smoothed_eq_sum hi, sum_congr rfl fun j _ => hterm j, sum_add_distrib,
    ← mul_sum, ← sum_mul, sum_emaWeight hn hi, one_mul]

theorem smoothed_one (f : Nat → ℚ) (i : Nat) : smoothed 1 f i = f i := by
  cases i with
  | zero => rw [smoothed_start rfl]; simp
  | succ i => rw [smoothed_succ (Nat.le_add_left 1 i), share_one]; simp

/-! ### The pass -/

/-- The state after `m` values: their sum before the window is full, and then the average. -/
structure Smooths (n : Nat) (v : List ℚ) (m : Nat) (s : SmoothedSums ℚ) : Prop where
  sum : m < n → s.sum = ∑ j ∈ range m, v.getD j 0
  average : n ≤ m → s.average = smoothed n (v.getD · 0) (m - 1)

theorem Smooths.emaStep {s : SmoothedSums ℚ} (hn : 0 < n) (h : Smooths n v i s)
    (he : (entries n v)[i]? = some e) :
    Smooths n v (i + 1) (emaStep n s e).1 ∧
      (emaStep n s e).2 = if n ≤ i + 1 then some (smoothed n (v.getD · 0) i) else none := by
  have hmean (hi : i + 1 = n) : (s.sum + v.getD i 0) / (n : ℚ) = smoothed n (v.getD · 0) i := by
    rw [smoothed_start hi, h.sum (by omega), ← hi, sum_range_succ]
  have hlater (hi : n ≤ i) :
      v.getD i 0 * smoothing n + s.average * (((1 : Nat) : ℚ) - smoothing n) =
        smoothed n (v.getD · 0) i := by
    obtain ⟨j, rfl⟩ := Nat.exists_eq_succ_of_ne_zero (hn.trans_le hi).ne'
    rw [smoothed_succ hi, h.average hi, smoothing_eq_share, Nat.cast_one]
    rfl
  rw [getElem?_entries, Option.map_eq_some_iff] at he
  obtain ⟨x, hx, rfl⟩ := he
  obtain rfl : v.getD i 0 = x := by rw [List.getD_eq_getElem?_getD, hx, Option.getD_some]
  unfold Average.emaStep
  obtain hfill | hstart | hfull := Nat.lt_trichotomy (i + 1) n
  · rw [if_pos hfill, if_neg (Nat.not_le.2 hfill)]
    refine ⟨⟨fun _ => ?_, fun h => absurd h (Nat.not_le.2 hfill)⟩, rfl⟩
    rw [sum_range_succ, h.sum (by omega)]
  · rw [if_neg hstart.not_lt, if_pos hstart, if_pos hstart.ge]
    exact ⟨⟨fun h => absurd h hstart.not_lt, fun _ => hmean hstart⟩, congrArg some (hmean hstart)⟩
  · have hi : n ≤ i := Nat.lt_succ_iff.1 hfull
    rw [if_neg hfull.not_gt, if_neg hfull.ne', if_pos hfull.le]
    exact ⟨⟨fun h => absurd h hfull.not_gt, fun _ => hlater hi⟩, congrArg some (hlater hi)⟩

theorem getElem?_ema (hn : 0 < n) (hi : i < v.length) : (ema n v)[i]? =
    some (if n ≤ i + 1 then some (smoothed n (v.getD · 0) i) else none) := by
  have he := getElem?_entries n v i
  rw [List.getElem?_eq_getElem hi] at he
  obtain ⟨s, hs, h⟩ := scan_induction (P := Smooths n v) (f := Average.emaStep n)
    (s := ⟨((0 : Nat) : ℚ), ((0 : Nat) : ℚ)⟩) ⟨fun _ => by simp, fun h => by omega⟩
    (fun j s e he hs => (hs.emaStep hn he).1) he
  rw [ema, if_neg hn.ne', h, (hs.emaStep hn he).2]

theorem length_ema (hn : 0 < n) (v : List ℚ) : (ema n v).length = v.length := by
  rw [ema, if_neg hn.ne', length_scan, length_entries]

/-! ### Changes of scale -/

theorem ema_map_affine (hn : 0 < n) (v : List ℚ) (a b : ℚ) :
    ema n (v.map fun x => a * x + b) = (ema n v).map (Option.map fun x => a * x + b) := by
  refine List.ext_getElem?' fun i hi => ?_
  rw [length_ema hn, List.length_map, List.length_map, length_ema hn, max_self] at hi
  rw [List.getElem?_map, getElem?_ema hn hi, getElem?_ema hn (by rwa [List.length_map])]
  split
  · next hfull =>
    have hvalue (j : Nat) (hj : j ∈ range (i + 1)) :
        (v.map fun x => a * x + b).getD j 0 = a * v.getD j 0 + b := by
      have hlt : j < v.length := (Nat.lt_succ_iff.1 (mem_range.1 hj)).trans_lt hi
      rw [List.getD_eq_getElem _ _ hlt, List.getD_eq_getElem _ _ (by rwa [List.length_map]),
        List.getElem_map]
    rw [smoothed_eq_sum hfull, sum_congr rfl fun j hj => by rw [hvalue j hj],
      ← smoothed_eq_sum hfull (f := fun j => a * v.getD j 0 + b), smoothed_affine hn hfull]
    rfl
  · rfl

theorem ema_one (v : List ℚ) : ema 1 v = v.map some := by
  refine List.ext_getElem?' fun i hi => ?_
  rw [length_ema Nat.one_pos, List.length_map, max_self] at hi
  rw [getElem?_ema Nat.one_pos hi, if_pos (Nat.le_add_left 1 i), smoothed_one,
    List.getD_eq_getElem _ _ hi, List.getElem?_map, List.getElem?_eq_getElem hi]
  rfl

/-- In exact arithmetic, for any period and at every position where the window is full.  The average
has the closed form, which is a mean of all values so far: the weights are not negative and make 1
together.  So it lies between the bounds of these values, a series of one value has that average,
and a change of scale goes through to all averages.  The average over one value is that value. -/
theorem ema_eq_smoothed (n : Nat) (hn : 0 < n) (v : List ℚ) (i : Nat) (hfull : n ≤ i + 1)
    (hi : i < v.length) : share n = 2 / (n + 1) ∧ ∃ y, (ema n v)[i]? = some (some y) ∧
      y = (1 - share n) ^ (i + 1 - n) * ((∑ j ∈ range n, v.getD j 0) / n) +
        ∑ j ∈ Ico n (i + 1), share n * (1 - share n) ^ (i - j) * v.getD j 0 ∧
      y = ∑ j ∈ range (i + 1), emaWeight n i j * v.getD j 0 ∧
      (∀ j, 0 ≤ emaWeight n i j) ∧ ∑ j ∈ range (i + 1), emaWeight n i j = 1 ∧
      (∀ lo hi, (∀ x ∈ v.take (i + 1), x ∈ Set.Icc lo hi) → y ∈ Set.Icc lo hi) ∧
      (∀ c, (∀ x ∈ v.take (i + 1), x = c) → y = c) ∧
      (∀ a b, ema n (v.map fun x => a * x + b) = (ema n v).map (Option.map fun x => a * x + b)) ∧
      (n = 1 → ema n v = v.map some) := by
  have hy := getElem?_ema hn hi
  rw [if_pos hfull] at hy
  have hbounds (lo hi' : ℚ) (h : ∀ x ∈ v.take (i + 1), x ∈ Set.Icc lo hi') :
      smoothed n (v.getD · 0) i ∈ Set.Icc lo hi' := by
    refine smoothed_mem_Icc hn hfull fun j hj => h _ ?_
    rw [List.getD_eq_getElem _ _ (by omega)]
    exact List.mem_take_iff_getElem.2 ⟨j, by omega, rfl⟩
  refine ⟨rfl, _, hy, rfl, smoothed_eq_sum hfull, emaWeight_nonneg hn i, sum_emaWeight hn hfull,
    hbounds, fun c h => ?_, ema_map_affine hn v, ?_⟩
  · exact Set.mem_singleton_iff.1 (Set.Icc_self c ▸ hbounds c c fun x hx => by simp [h x hx])
  · rintro rfl
    exact ema_one v

/-- Two steps after the start, with a share of one half. -/
theorem ema_eq_smoothed_three :
    let v : List ℚ := [10, 20, 30, 40, 60]
    (ema 3 v)[4]? = some (some 45) ∧ (45 : ℚ) ∈ Set.Icc 10 60 := by
  intro v
  obtain ⟨-, y, hy, hclosed, -, -, -, hbounds, -⟩ :=
    ema_eq_smoothed 3 (by decide) v 4 (by decide) (by decide)
  have hvalue : y = 45 := by
    rw [hclosed]
    norm_num [share, sum_range_succ, sum_Ico_succ_top, v]
  refine ⟨hvalue ▸ hy, hvalue ▸ hbounds 10 60 fun x hx => ?_⟩
  simp only [v, List.take_succ_cons, List.take_zero, List.mem_cons, List.not_mem_nil,
    or_false] at hx
  rcases hx with rfl | rfl | rfl | rfl | rfl <;> norm_num

end Smoothing

end Average

end Custody
