import Mathlib.Algebra.BigOperators.Fin
import Mathlib.Algebra.BigOperators.Intervals
import Mathlib.Algebra.Order.BigOperators.Group.Finset
import Mathlib.Algebra.Order.Field.Rat
import Mathlib.Tactic.NormNum
import Mathlib.Tactic.Positivity
import Mathlib.Tactic.Ring
import Custody.Proofs.Market.Overflow

/-!
# Windows of the simple and the weighted average

Neither average adds up its window.  The simple one keeps a sum, the weighted one two, and a step
corrects them by the value that enters and the one that leaves.  Here `window` is what has entered
and not left, and the steps keep the sums those of the window, while it fills and when it slides
(`sum_window_smaStep`, `sums_window_wmaStep`).  So both averages are what their definitions say
(`sma_wma_eq_mean`): in exact arithmetic each shows the mean of the last `period` values, with the
same weights or with rising ones, which no other value has a part in and which lies between the
bounds of the window.  The weighted one does so for periods of which the weights have a sum that is
right.
-/

namespace Custody

namespace Average

/-! ### Passes -/

/-- What holds at the start of a pass and is kept by every step holds before each step. -/
theorem scan_induction {σ β γ : Type} {f : σ → β → σ × γ} {s : σ} {bs : List β}
    {P : Nat → σ → Prop} (start : P 0 s)
    (next : ∀ i t b, bs[i]? = some b → P i t → P (i + 1) (f t b).1) {i : Nat} {b : β}
    (hb : bs[i]? = some b) : ∃ t, P i t ∧ (scan f s bs)[i]? = some (f t b).2 := by
  induction bs generalizing s i P with
  | nil => cases hb
  | cons c bs ih =>
    cases i with
    | zero =>
      obtain rfl := Option.some.inj hb
      exact ⟨s, start, rfl⟩
    | succ i =>
      refine ih (P := fun i => P (i + 1)) (next 0 s c rfl start) (fun j t d hd ht => ?_) hb
      exact next (j + 1) t d hd ht

theorem length_scan {σ β γ : Type} (f : σ → β → σ × γ) (s : σ) (bs : List β) :
    (scan f s bs).length = bs.length := by
  induction bs generalizing s with
  | nil => rfl
  | cons b bs ih => exact congrArg Nat.succ (ih _)

/-! ### Entries -/

section Entries

variable {R : Type} {n i : Nat} {v : List R} {e : Entry R}

theorem getElem?_entriesFrom (n j : Nat) (old v : List R) (i : Nat) :
    (entriesFrom n j old v)[i]? = v[i]?.map fun x =>
      ⟨j + i, x, if j + i < n then none else old[j + i - max j n]?⟩ := by
  induction v generalizing j old i with
  | nil => rfl
  | cons x v ih =>
    rw [entriesFrom]
    split
    · next hj =>
      cases i with
      | zero => simp [hj]
      | succ i =>
        rw [List.getElem?_cons_succ, List.getElem?_cons_succ, ih, max_eq_right (by omega),
          max_eq_right (by omega), Nat.add_right_comm, Nat.add_assoc j i 1]
    · next hj =>
      rw [max_eq_left (by omega)]
      cases i with
      | zero => simp [hj, List.head?_eq_getElem?]
      | succ i =>
        rw [List.getElem?_cons_succ, List.getElem?_cons_succ, ih, max_eq_left (by omega),
          List.getElem?_tail, show j + 1 + i - (j + 1) + 1 = j + (i + 1) - j by omega,
          show j + 1 + i = j + (i + 1) by omega]

theorem getElem?_entries (n : Nat) (v : List R) (i : Nat) :
    (entries n v)[i]? = v[i]?.map fun x => ⟨i, x, if i < n then none else v[i - n]?⟩ := by
  rw [entries, getElem?_entriesFrom, Nat.zero_add, Nat.zero_max]

theorem length_entries (n : Nat) (v : List R) : (entries n v).length = v.length := by
  have hnone (i : Nat) : (entries n v).length ≤ i ↔ v.length ≤ i := by
    rw [← List.getElem?_eq_none_iff, ← List.getElem?_eq_none_iff, getElem?_entries,
      Option.map_eq_none_iff]
  exact Nat.le_antisymm ((hnone _).2 (Nat.le_refl _)) ((hnone _).1 (Nat.le_refl _))

/-- A value enters a window that is not full, or another leaves it, `n` positions before. -/
theorem entry_cases (h : (entries n v)[i]? = some e) :
    ∃ x, v[i]? = some x ∧ (i < n ∧ e = ⟨i, x, none⟩ ∨
      n ≤ i ∧ ∃ y, v[i - n]? = some y ∧ e = ⟨i, x, some y⟩) := by
  rw [getElem?_entries, Option.map_eq_some_iff] at h
  obtain ⟨x, hx, rfl⟩ := h
  refine ⟨x, hx, ?_⟩
  by_cases hi : i < n
  · exact .inl ⟨hi, by rw [if_pos hi]⟩
  · have hlt : i < v.length := (List.getElem?_eq_some_iff.1 hx).1
    have hin : i - n < v.length := by omega
    refine .inr ⟨by omega, v[i - n], List.getElem?_eq_getElem hin, ?_⟩
    rw [if_neg hi, List.getElem?_eq_getElem hin]

end Entries

/-! ### Windows -/

section Windows

variable {R : Type} {n i : Nat} {v : List R} {x y : R}

/-- What the first `m` values leave in a window of `n`. -/
def window (n : Nat) (v : List R) (m : Nat) : List R := (v.take m).drop (m - n)

theorem window_fill (hi : i < n) (hx : v[i]? = some x) :
    window n v (i + 1) = window n v i ++ [x] := by
  rw [window, window, Nat.sub_eq_zero_of_le hi, Nat.sub_eq_zero_of_le hi.le, List.drop_zero,
    List.drop_zero, List.take_add_one, hx]
  rfl

theorem window_slide (hn : 0 < n) (hi : n ≤ i) (hx : v[i]? = some x) (hy : v[i - n]? = some y) :
    ∃ w, w.length + 1 = n ∧ window n v i = y :: w ∧ window n v (i + 1) = w ++ [x] := by
  have hlt : i < v.length := (List.getElem?_eq_some_iff.1 hx).1
  refine ⟨(v.take i).drop (i + 1 - n), ?_, ?_, ?_⟩
  · rw [List.length_drop, List.length_take]
    omega
  · have hmem : (v.take i)[i - n]? = some y := by
      rwa [List.getElem?_take_of_lt (by omega)]
    rw [window, List.drop_eq_getElem?_toList_append, hmem, Nat.sub_add_comm hi]
    rfl
  · rw [window, List.take_add_one, hx, List.drop_append_of_le_length]
    · rfl
    · rw [List.length_take]
      omega

theorem length_window (hi : i ≤ v.length) : (window n v i).length = min n i := by
  rw [window, List.length_drop, List.length_take]
  omega

theorem getElem?_window {k : Nat} (hn : n ≤ i) (hk : k < n) :
    (window n v i)[k]? = v[i - n + k]? := by
  rw [window, List.getElem?_drop, List.getElem?_take_of_lt (by omega)]

theorem window_eq_ofFn (hi : n ≤ i + 1) {w : Fin n → R}
    (hw : ∀ k : Fin n, v[i + 1 - n + k]? = some (w k)) : window n v (i + 1) = List.ofFn w := by
  apply List.ext_getElem?
  intro k
  by_cases hk : k < n
  · rw [getElem?_window hi hk, hw ⟨k, hk⟩, List.getElem?_ofFn, dif_pos hk]
  · rw [List.getElem?_eq_none, List.getElem?_eq_none]
    · rw [List.length_ofFn]
      omega
    · rw [window, List.length_drop, List.length_take]
      omega

end Windows

/-! ### Sums of a window -/

section Sums

variable {R : Type} [Field R] {n i : Nat} {v : List R} {e : Entry R}

/-- The sum of a list with the weights from `k` on. -/
def weightedFrom (k : Nat) (w : List R) : R := ((w.zipIdx k).map fun p => (p.2 : R) * p.1).sum

theorem weightedFrom_succ (k : Nat) (w : List R) :
    weightedFrom (k + 1) w = weightedFrom k w + w.sum := by
  unfold weightedFrom
  induction w generalizing k with
  | nil => simp
  | cons x w ih =>
    simp only [List.zipIdx_cons, List.map_cons, List.sum_cons, ih, Nat.cast_add, Nat.cast_one]
    ring

theorem weightedFrom_cons (k : Nat) (x : R) (w : List R) :
    weightedFrom k (x :: w) = (k : R) * x + weightedFrom (k + 1) w := by
  unfold weightedFrom
  rw [List.zipIdx_cons, List.map_cons, List.sum_cons]

theorem weightedFrom_concat (k : Nat) (w : List R) (x : R) :
    weightedFrom k (w ++ [x]) = weightedFrom k w + ((k + w.length : Nat) : R) * x := by
  unfold weightedFrom
  rw [List.zipIdx_append, List.map_append, List.sum_append]
  simp

theorem sum_window_smaStep (hn : 0 < n) (he : (entries n v)[i]? = some e) :
    (smaStep n (window n v i).sum e).1 = (window n v (i + 1)).sum := by
  obtain ⟨x, hx, ⟨hi, rfl⟩ | ⟨hi, y, hy, rfl⟩⟩ := entry_cases he
  · rw [window_fill hi hx, List.sum_append, List.sum_singleton]
    rfl
  · obtain ⟨w, -, hwin, hwin'⟩ := window_slide hn hi hx hy
    rw [hwin, hwin', List.sum_cons, List.sum_append, List.sum_singleton]
    show y + w.sum + x - y = w.sum + x
    ring

/-- Both sums of a window: that with the weights from 1 on, and the plain one. -/
def sumsOf (w : List R) : WeightedSums R := ⟨weightedFrom 1 w, w.sum⟩

theorem sums_window_wmaStep (hn : 0 < n) (he : (entries n v)[i]? = some e) :
    (wmaStep n (sumsOf (window n v i)) e).1 = sumsOf (window n v (i + 1)) := by
  obtain ⟨x, hx, ⟨hi, rfl⟩ | ⟨hi, y, hy, rfl⟩⟩ := entry_cases he
  · -- the window has `i` values so far, and the weight of the new one is the next
    have hlen : (window n v i).length = i := by
      rw [length_window (List.getElem?_eq_some_iff.1 hx).1.le]
      omega
    rw [window_fill hi hx]
    simp only [wmaStep, sumsOf, weightedFrom_concat, hlen, List.sum_append, List.sum_singleton,
      Nat.add_comm 1 i]
  · -- a full window: the oldest value has the weight 1, and all others lose 1
    obtain ⟨w, hlen, hwin, hwin'⟩ := window_slide hn hi hx hy
    rw [hwin, hwin', ← hlen]
    simp only [wmaStep, sumsOf, weightedFrom_cons, weightedFrom_succ, weightedFrom_concat,
      List.sum_append, List.sum_cons, List.sum_nil, Nat.cast_add, Nat.cast_one,
      WeightedSums.mk.injEq]
    constructor
    · ring
    · ring

/-! ### Averages of a window -/

theorem getElem?_sma (hn : 0 < n) (hi : i < v.length) : (sma n v)[i]? =
    some (if n ≤ i + 1 then some ((window n v (i + 1)).sum / (n : R)) else none) := by
  have he := getElem?_entries n v i
  rw [List.getElem?_eq_getElem hi] at he
  obtain ⟨_, rfl, h⟩ := scan_induction (P := fun m s => s = (window n v m).sum)
    (f := smaStep n) (s := ((0 : Nat) : R)) (by simp [window])
    (fun j s e he hs => by rw [hs, sum_window_smaStep hn he]) he
  rw [sma, if_neg hn.ne', h, ← sum_window_smaStep hn he]
  rfl

theorem getElem?_wma (hn : 0 < n) (hi : i < v.length) : (wma n v)[i]? =
    some (if n ≤ i + 1 then some (weightedFrom 1 (window n v (i + 1)) / weightTotal n)
      else none) := by
  have he := getElem?_entries n v i
  rw [List.getElem?_eq_getElem hi] at he
  obtain ⟨_, rfl, h⟩ := scan_induction (P := fun m s => s = sumsOf (window n v m))
    (f := wmaStep n) (s := ⟨((0 : Nat) : R), ((0 : Nat) : R)⟩)
    (by simp [window, sumsOf, weightedFrom])
    (fun j s e he hs => by rw [hs, sums_window_wmaStep hn he]) he
  have hsum := congrArg WeightedSums.weighted (sums_window_wmaStep hn he)
  rw [wma, if_neg hn.ne', h]
  show _ = some (if n ≤ i + 1 then some ((sumsOf (window n v (i + 1))).weighted / weightTotal n)
    else none)
  rw [← hsum]
  rfl

theorem weightedFrom_ofFn (j : Nat) (w : Fin n → R) :
    weightedFrom j (List.ofFn w) = ∑ k : Fin n, ((j : R) + (k : Nat)) * w k := by
  induction n generalizing j with
  | zero => simp [weightedFrom]
  | succ n ih =>
    rw [List.ofFn_succ, weightedFrom_cons, ih, Fin.sum_univ_succ]
    simp [add_assoc, add_comm (1 : R)]

end Sums

/-! ### Means -/

section Means

variable {n i : Nat} {v : List ℚ} {w : Fin n → ℚ} {lo hi : ℚ}

def plainMean (w : Fin n → ℚ) : ℚ := (∑ k, w k) / n

/-- The mean with the weights 1 to `n`, of which the sum is `n * (n + 1) / 2`. -/
def weightedMean (w : Fin n → ℚ) : ℚ := (∑ k : Fin n, ((k : ℚ) + 1) * w k) / (n * (n + 1) / 2)

theorem sum_weights (n : Nat) : ∑ k : Fin n, ((k : ℚ) + 1) = n * (n + 1) / 2 := by
  induction n with
  | zero => simp
  | succ n ih =>
    rw [Fin.sum_univ_castSucc]
    simp only [Fin.val_castSucc, Fin.val_last, ih, Nat.cast_add, Nat.cast_one]
    ring

/-- A mean lies between the bounds of its values, whatever their weights. -/
theorem mean_mem_Icc {a : Fin n → ℚ} (ha : ∀ k, 0 ≤ a k) (htotal : 0 < ∑ k, a k)
    (hw : ∀ k, w k ∈ Set.Icc lo hi) : (∑ k, a k * w k) / ∑ k, a k ∈ Set.Icc lo hi := by
  rw [Set.mem_Icc, le_div_iff₀ htotal, div_le_iff₀ htotal, Finset.mul_sum, Finset.mul_sum]
  constructor
  · apply Finset.sum_le_sum
    intro k _
    rw [mul_comm]
    exact mul_le_mul_of_nonneg_left (hw k).1 (ha k)
  · apply Finset.sum_le_sum
    intro k _
    rw [mul_comm hi]
    exact mul_le_mul_of_nonneg_left (hw k).2 (ha k)

theorem plainMean_mem_Icc (hn : 0 < n) (hw : ∀ k, w k ∈ Set.Icc lo hi) :
    plainMean w ∈ Set.Icc lo hi := by
  have htotal : ∑ _k : Fin n, (1 : ℚ) = n := by simp
  have h := mean_mem_Icc (a := fun _ => 1) (fun _ => zero_le_one) (by simpa using hn) hw
  rw [htotal] at h
  simpa [plainMean] using h

theorem weightedMean_mem_Icc (hn : 0 < n) (hw : ∀ k, w k ∈ Set.Icc lo hi) :
    weightedMean w ∈ Set.Icc lo hi := by
  have hpos : (0 : ℚ) < n := Nat.cast_pos.2 hn
  rw [weightedMean, ← sum_weights]
  apply mean_mem_Icc _ _ hw
  · exact fun k => add_nonneg (Nat.cast_nonneg _) zero_le_one
  · rw [sum_weights]
    positivity

/-- The averages show the means of the window, whatever stands before it. -/
theorem averages_of_window (hn : 0 < n) (hi : n ≤ i + 1)
    (hw : ∀ k : Fin n, v[i + 1 - n + k]? = some (w k)) :
    (sma n v)[i]? = some (some (plainMean w)) ∧
      (wma n v)[i]? = some (some (weightedFrom 1 (List.ofFn w) / weightTotal n)) := by
  have hlt : i < v.length := by
    have hlast := (List.getElem?_eq_some_iff.1 (hw ⟨n - 1, by omega⟩)).1
    dsimp only at hlast
    omega
  rw [getElem?_sma hn hlt, getElem?_wma hn hlt, if_pos hi, if_pos hi, window_eq_ofFn hi hw,
    List.sum_ofFn, plainMean]
  exact ⟨rfl, rfl⟩

theorem weightedFrom_div_weightTotal (hn : n < 2 ^ 32) (w : Fin n → ℚ) :
    weightedFrom 1 (List.ofFn w) / weightTotal n = weightedMean w := by
  rw [weightedFrom_ofFn, weightTotal_of_lt hn, weightedMean]
  simp [add_comm (1 : ℚ)]

/-- In exact arithmetic, for any period and at every position of a series.  The value that leaves
the window is always there.  Both averages are absent until the window is full, and from then on the
means of the last values, with equal weights and, for periods below `2 ^ 32`, with rising ones;
where the window is the same, in this series or another, so are they, and the means lie between its
bounds. -/
theorem sma_wma_eq_mean (n : Nat) (hn : 0 < n) (v : List ℚ) (i : Nat) (hi : i < v.length) :
    (entries n v)[i]? = some ⟨i, v[i], if i < n then none else some v[i - n]⟩ ∧
    ((sma n v)[i]? = some none ↔ i + 1 < n) ∧ ((wma n v)[i]? = some none ↔ i + 1 < n) ∧
    (n ≤ i + 1 → ∃ w : Fin n → ℚ, (∀ k : Fin n, v[i + 1 - n + k]? = some (w k)) ∧
      (sma n v)[i]? = some (some (plainMean w)) ∧
      (n < 2 ^ 32 → (wma n v)[i]? = some (some (weightedMean w))) ∧
      (∀ v' i', n ≤ i' + 1 → (∀ k : Fin n, v'[i' + 1 - n + k]? = some (w k)) →
        (sma n v')[i']? = (sma n v)[i]? ∧ (wma n v')[i']? = (wma n v)[i]?) ∧
      ∀ lo hi, (∀ k, w k ∈ Set.Icc lo hi) →
        plainMean w ∈ Set.Icc lo hi ∧ weightedMean w ∈ Set.Icc lo hi) := by
  refine ⟨?_, ?_, ?_, fun hfull => ?_⟩
  · rw [getElem?_entries, List.getElem?_eq_getElem hi, List.getElem?_eq_getElem (by omega)]
    rfl
  · rw [getElem?_sma hn hi, ← Nat.not_le]
    split <;> simp [*]
  · rw [getElem?_wma hn hi, ← Nat.not_le]
    split <;> simp [*]
  · have hw (k : Fin n) : v[i + 1 - n + k]? = some v[i + 1 - n + k] :=
      List.getElem?_eq_getElem (by omega)
    obtain ⟨hsma, hwma⟩ := averages_of_window hn hfull hw
    refine ⟨_, hw, hsma, fun hlt => ?_, fun v' i' hfull' hw' => ?_, fun lo hi hbounds => ?_⟩
    · rw [hwma, weightedFrom_div_weightTotal hlt]
    · rw [hsma, hwma]
      exact averages_of_window hn hfull' hw'
    · exact ⟨plainMean_mem_Icc hn hbounds, weightedMean_mem_Icc hn hbounds⟩

/-- The first window of three that has slid. -/
theorem sma_wma_eq_mean_three :
    let v : List ℚ := [10, 20, 30, 40, 50]
    (sma 3 v)[3]? = some (some 30) ∧ (wma 3 v)[3]? = some (some (100 / 3)) ∧
      (100 / 3 : ℚ) ∈ Set.Icc 20 40 := by
  intro v
  obtain ⟨w, hw, hsma, hwma, -, hbounds⟩ :=
    (sma_wma_eq_mean 3 (by decide) v 3 (by decide)).2.2.2 (by decide)
  have hw0 : w 0 = 20 := (Option.some.inj (hw 0)).symm
  have hw1 : w 1 = 30 := (Option.some.inj (hw 1)).symm
  have hw2 : w 2 = 40 := (Option.some.inj (hw 2)).symm
  have hplain : plainMean w = 30 := by
    norm_num [plainMean, Fin.sum_univ_three, hw0, hw1, hw2]
  have hweighted : weightedMean w = 100 / 3 := by
    norm_num [weightedMean, Fin.sum_univ_three, hw0, hw1, hw2]
  refine ⟨hplain ▸ hsma, hweighted ▸ hwma (by decide), hweighted ▸ (hbounds 20 40 fun k => ?_).2⟩
  match k with
  | 0 => norm_num [hw0]
  | 1 => norm_num [hw1]
  | 2 => norm_num [hw2]

end Means

end Average

end Custody
