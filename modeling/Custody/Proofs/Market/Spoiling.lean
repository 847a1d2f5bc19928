import Mathlib.Tactic.Abel
import Custody.Proofs.Market.Windows
import Custody.Proofs.Number.Extended

/-!
# Values that spoil an average

A price file may hold an infinite price, or one that is no number.  The sums of the simple and the
weighted average are corrected by what leaves the window, and what is not finite cannot be taken
away again: the sums are no number from then on.  So a value that is not finite spoils more than
the windows it is in.  The simple average shows the mean of its window as long as all values before
the window are finite; the weighted one takes a whole window away at every step, and needs all
values before the newest to be finite (`getElem?_sma_extended`, `getElem?_wma_extended`).  Two
series that agree on a window agree on the averages exactly when those values are finite in both or
in neither, or the window itself has no mean (`averages_of_equal_windows`).
-/

namespace Custody

namespace Average

open Extended

variable {n i m : Nat} {v : List Extended} {e : Entry Extended} {x : Extended}

/-! ### Finite prefixes -/

def allFinite (v : List Extended) : Bool := v.all Extended.isFinite

theorem allFinite_append (v w : List Extended) :
    allFinite (v ++ w) = (allFinite v && allFinite w) := List.all_append

theorem isFinite_sum (w : List Extended) : w.sum.isFinite = allFinite w := by
  induction w with
  | nil => rfl
  | cons x w ih =>
    rw [List.sum_cons, isFinite_add, ih]
    rfl

/-- The values before a full window, and those in it. -/
theorem allFinite_take (n : Nat) (v : List Extended) (m : Nat) :
    allFinite (v.take m) = (allFinite (v.take (m - n)) && allFinite (window n v m)) := by
  conv_lhs => rw [← List.take_append_drop (m - n) (v.take m), List.take_take,
    Nat.min_eq_left (Nat.sub_le m n)]
  exact allFinite_append _ _

theorem allFinite_take_of_le (h : allFinite (v.take i) = true) (hm : m ≤ i) :
    allFinite (v.take m) = true := by
  have hsplit := allFinite_take (i - m) v i
  rw [h, Nat.sub_sub_self hm] at hsplit
  exact (Bool.and_eq_true_iff.1 hsplit.symm).1

/-! ### The plain sum -/

theorem sum_window_smaStep_extended (hn : 0 < n) (he : (entries n v)[i]? = some e) :
    (smaStep n (kept (allFinite (v.take (i - n))) (window n v i).sum) e).1 =
      kept (allFinite (v.take (i + 1 - n))) (window n v (i + 1)).sum := by
  obtain ⟨x, hx, ⟨hi, rfl⟩ | ⟨hi, y, hy, rfl⟩⟩ := entry_cases he
  · rw [window_fill hi hx, Nat.sub_eq_zero_of_le hi, Nat.sub_eq_zero_of_le hi.le,
      List.sum_append, List.sum_singleton]
    rfl
  · obtain ⟨w, -, hwin, hwin'⟩ := window_slide hn hi hx hy
    have hbefore : allFinite (v.take (i + 1 - n)) = (allFinite (v.take (i - n)) && y.isFinite) := by
      rw [Nat.sub_add_comm hi, List.take_add_one, hy, allFinite_append]
      simp [allFinite]
    rw [hwin, hwin', hbefore, List.sum_cons, List.sum_append, List.sum_singleton]
    show kept _ (y + w.sum) + x + -y = _
    rw [kept_add, kept_add, add_assoc y, ← sub_eq, add_sub_self, kept_kept]

theorem getElem?_sma_extended (hn : 0 < n) (hi : i < v.length) : (sma n v)[i]? =
    some (if n ≤ i + 1 then
      some (kept (allFinite (v.take (i + 1 - n))) ((window n v (i + 1)).sum / (n : Extended)))
      else none) := by
  have he := getElem?_entries n v i
  rw [List.getElem?_eq_getElem hi] at he
  obtain ⟨_, rfl, h⟩ := scan_induction
    (P := fun m s => s = kept (allFinite (v.take (m - n))) (window n v m).sum)
    (f := smaStep n) (s := ((0 : Nat) : Extended))
    (by simp [window, allFinite, natCast_eq, zero_eq])
    (fun j s e he hs => by rw [hs, sum_window_smaStep_extended hn he]) he
  rw [sma, if_neg hn.ne', h, ← kept_div, ← sum_window_smaStep_extended hn he]
  rfl

/-! ### The weighted sum -/

/-- The sum of a list with the weights from `k` on. -/
def weigh : Nat → List Extended → Extended
  | _, [] => 0
  | k, x :: w => (k : Extended) * x + weigh (k + 1) w

theorem weigh_concat (k : Nat) (w : List Extended) (x : Extended) :
    weigh k (w ++ [x]) = weigh k w + ((k + w.length : Nat) : Extended) * x := by
  induction w generalizing k with
  | nil => exact add_comm _ _
  | cons y w ih =>
    rw [List.cons_append, weigh, weigh, ih, List.length_cons, Nat.add_assoc k 1, Nat.add_comm 1]
    exact (add_assoc _ _ _).symm

theorem weigh_succ {k : Nat} (hk : 0 < k) (w : List Extended) :
    weigh (k + 1) w = weigh k w + w.sum := by
  induction w generalizing k with
  | nil => exact (add_zero 0).symm
  | cons x w ih =>
    rw [weigh, weigh, ih k.succ_pos, succ_mul hk, List.sum_cons]
    abel

/-- When a full window moves on, all of it is taken away from its weighted sum once. -/
theorem weigh_slide (y : Extended) (w : List Extended) (x : Extended) :
    weigh 1 (y :: w) + (((w.length + 1 : Nat) : Extended) * x - (y :: w).sum) =
      kept (allFinite (y :: w)) (weigh 1 (w ++ [x])) := by
  rw [weigh, Extended.one_mul, weigh_succ Nat.one_pos, ← isFinite_sum, ← add_sub_self,
    weigh_concat, sub_eq, sub_eq, Nat.add_comm 1, List.sum_cons]
  ac_rfl

/-- The sums after `m` values.  The plain one has lost what left the window, the weighted one every
full window there was before. -/
def sumsAfter (n : Nat) (v : List Extended) (m : Nat) : WeightedSums Extended where
  weighted := kept (decide (m ≤ n) || allFinite (v.take (m - 1))) (weigh 1 (window n v m))
  plain := kept (allFinite (v.take (m - n))) (window n v m).sum

theorem plain_wmaStep (s : WeightedSums Extended) (e : Entry Extended) :
    (wmaStep n s e).1.plain = (smaStep n s.plain e).1 := by
  obtain ⟨_, x, _ | y⟩ := e
  · rfl
  · exact (add_assoc s.plain x (-y)).symm

theorem weighted_wmaStep (hn : 0 < n) (he : (entries n v)[i]? = some e) :
    (wmaStep n (sumsAfter n v i) e).1.weighted = (sumsAfter n v (i + 1)).weighted := by
  obtain ⟨x, hx, ⟨hi, rfl⟩ | ⟨hi, y, hy, rfl⟩⟩ := entry_cases he
  · have hlen : (window n v i).length = i := by
      rw [length_window (List.getElem?_eq_some_iff.1 hx).1.le]
      omega
    simp only [sumsAfter, decide_eq_true hi.le, decide_eq_true (Nat.succ_le_of_lt hi),
      Bool.true_or, kept_true]
    rw [window_fill hi hx, weigh_concat, hlen, Nat.add_comm 1]
    rfl
  · obtain ⟨w, hlen, hwin, hwin'⟩ := window_slide hn hi hx hy
    have hearlier : allFinite (v.take i) = true →
        (decide (i ≤ n) || allFinite (v.take (i - 1))) = true := fun h => by
      rw [allFinite_take_of_le h (Nat.sub_le i 1), Bool.or_true]
    simp only [sumsAfter, decide_eq_false (Nat.not_le.2 (Nat.lt_succ_of_le hi)), Bool.false_or,
      Nat.add_sub_cancel]
    show kept _ _ + ((n : Extended) * x + -kept _ _) = _
    rw [neg_kept, add_kept, kept_add, add_kept, kept_kept, ← sub_eq, hwin, hwin', ← hlen,
      weigh_slide, kept_kept, ← hwin, Bool.and_assoc, hlen, ← allFinite_take]
    generalize hd : (decide (i ≤ n) || allFinite (v.take (i - 1))) = d at hearlier ⊢
    cases h : allFinite (v.take i)
    · rw [Bool.and_false]
    · rw [hearlier h, Bool.and_true]

theorem sumsAfter_wmaStep (hn : 0 < n) (he : (entries n v)[i]? = some e) :
    (wmaStep n (sumsAfter n v i) e).1 = sumsAfter n v (i + 1) := by
  have hplain : (wmaStep n (sumsAfter n v i) e).1.plain = (sumsAfter n v (i + 1)).plain := by
    rw [plain_wmaStep]
    exact sum_window_smaStep_extended hn he
  exact congrArg₂ WeightedSums.mk (weighted_wmaStep hn he) hplain

theorem getElem?_wma_extended (hn : 0 < n) (hi : i < v.length) : (wma n v)[i]? =
    some (if n ≤ i + 1 then
      some (kept (decide (i + 1 ≤ n) || allFinite (v.take i))
        (weigh 1 (window n v (i + 1)) / weightTotal n)) else none) := by
  have he := getElem?_entries n v i
  rw [List.getElem?_eq_getElem hi] at he
  obtain ⟨_, rfl, h⟩ := scan_induction (P := fun m s => s = sumsAfter n v m)
    (f := wmaStep n) (s := ⟨((0 : Nat) : Extended), ((0 : Nat) : Extended)⟩)
    (by simp [sumsAfter, window, allFinite, weigh, natCast_eq, zero_eq])
    (fun j s e he hs => by rw [hs, sumsAfter_wmaStep hn he]) he
  have hsum := congrArg WeightedSums.weighted (sumsAfter_wmaStep hn he)
  rw [wma, if_neg hn.ne', h, ← kept_div]
  show _ = some (if n ≤ i + 1 then some ((sumsAfter n v (i + 1)).weighted / weightTotal n)
    else none)
  rw [← hsum]
  rfl

/-! ### Two series -/

theorem natCast_div_eq_nan_iff (hn : 0 < n) : x / (n : Extended) = nan ↔ x = nan :=
  div_eq_nan_iff (Nat.cast_ne_zero.2 hn.ne')

theorem weightTotal_div_eq_nan_iff (hn : 0 < n) (hlt : n < 2 ^ 32) :
    x / weightTotal n = nan ↔ x = nan := by
  have htotal :
      (weightTotal n : Extended) = finite (((n * (n + 1) : Nat) : ℚ) / ((2 : Nat) : ℚ)) := by
    rw [weightTotal_of_lt hlt]
    exact finite_div_finite (by simp) _
  rw [htotal]
  exact div_eq_nan_iff (by positivity)

/-- A price that is not finite spoils all averages of windows after it. -/
theorem averages_spoiled (hn : 0 < n) (hi : i < v.length) (hfull : n ≤ i + 1)
    (hbefore : allFinite (v.take (i + 1 - n)) = false) :
    (sma n v)[i]? = some (some nan) ∧ (wma n v)[i]? = some (some nan) := by
  have hslid : ¬i + 1 ≤ n := by
    intro h
    rw [Nat.sub_eq_zero_of_le h] at hbefore
    cases hbefore
  have hprefix : allFinite (v.take i) = false := by
    by_contra h
    rw [allFinite_take_of_le (Bool.not_eq_false _ ▸ h) (by omega)] at hbefore
    cases hbefore
  rw [getElem?_sma_extended hn hi, getElem?_wma_extended hn hi, if_pos hfull, if_pos hfull,
    hbefore, hprefix, decide_eq_false hslid]
  exact ⟨rfl, rfl⟩

theorem getElem?_sma_one (hi : i < v.length) :
    (sma 1 v)[i]? = some (some (kept (allFinite (v.take i)) v[i])) := by
  have hwin : window 1 v (i + 1) = [v[i]] := by
    rw [window, Nat.add_sub_cancel, List.take_add_one, List.getElem?_eq_getElem hi,
      List.drop_append_of_le_length (by rw [List.length_take]; omega), List.drop_take_self]
    rfl
  rw [getElem?_sma_extended Nat.one_pos hi, if_pos (Nat.le_add_left 1 i), hwin,
    List.sum_singleton, Extended.div_one, Nat.add_sub_cancel]

/-- For any period, which is below `2 ^ 32` for the weighted average, and at every position of a
series with any values, and another series with the same window there.  The averages agree exactly when the values that were taken away, before the
window or, for the weighted one, before the newest, are all finite in both series or in neither, or
what the window has itself is no number.  What is not finite spoils all later windows.  The average
over one value is that value exactly when it is no number, or all before it are finite. -/
theorem averages_of_equal_windows (n : Nat) (hn : 0 < n) (v w : List Extended)
    (hlen : v.length = w.length) (i : Nat) (hi : i < v.length)
    (hwin : n ≤ i + 1 → window n v (i + 1) = window n w (i + 1)) :
    ((sma n v)[i]? = (sma n w)[i]? ↔ i + 1 < n ∨
      allFinite (v.take (i + 1 - n)) = allFinite (w.take (i + 1 - n)) ∨
      (window n v (i + 1)).sum = nan) ∧
    (n < 2 ^ 32 → ((wma n v)[i]? = (wma n w)[i]? ↔ i + 1 ≤ n ∨
      allFinite (v.take i) = allFinite (w.take i) ∨ weigh 1 (window n v (i + 1)) = nan)) ∧
    (n ≤ i + 1 → allFinite (v.take (i + 1 - n)) = false →
      (sma n v)[i]? = some (some nan) ∧ (wma n v)[i]? = some (some nan)) ∧
    ((sma 1 v)[i]? = some (some v[i]) ↔ allFinite (v.take i) = true ∨ v[i] = nan) := by
  refine ⟨?_, fun hlt => ?_, averages_spoiled hn hi, ?_⟩
  · rw [getElem?_sma_extended hn hi, getElem?_sma_extended hn (hlen ▸ hi)]
    by_cases hfull : n ≤ i + 1
    · rw [← hwin hfull, if_pos hfull, if_pos hfull, Option.some_inj, Option.some_inj,
        kept_eq_kept_iff, natCast_div_eq_nan_iff hn, or_iff_right (Nat.not_lt.2 hfull)]
    · rw [if_neg hfull, if_neg hfull]
      exact iff_of_true rfl (.inl (Nat.not_le.1 hfull))
  · rw [getElem?_wma_extended hn hi, getElem?_wma_extended hn (hlen ▸ hi)]
    by_cases hfull : n ≤ i + 1
    · rw [← hwin hfull, if_pos hfull, if_pos hfull, Option.some_inj, Option.some_inj,
        kept_eq_kept_iff, weightTotal_div_eq_nan_iff hn hlt, ← or_assoc]
      refine or_congr_left ?_
      by_cases hslid : i + 1 ≤ n
      · simp [hslid]
      · simp [hslid]
    · rw [if_neg hfull, if_neg hfull]
      exact iff_of_true rfl (.inl (Nat.not_le.1 hfull).le)
  · rw [getElem?_sma_one hi, Option.some_inj, Option.some_inj, kept_eq_self_iff]

/-- An infinite price at the start, two windows before. -/
theorem averages_of_equal_windows_infinite :
    let v := [infinite false, finite 1, finite 2, finite 4]
    let w := [finite 9, finite 1, finite 2, finite 4]
    window 2 v 4 = window 2 w 4 ∧ (sma 2 v)[3]? = some (some nan) ∧
      (sma 2 v)[3]? ≠ (sma 2 w)[3]? ∧ (wma 2 v)[3]? ≠ (wma 2 w)[3]? := by
  intro v w
  have hwin : window 2 v 4 = window 2 w 4 := by decide +kernel
  obtain ⟨hsma, hwma, hspoiled, -⟩ :=
    averages_of_equal_windows 2 (by decide) v w rfl 3 (by decide) fun _ => hwin
  refine ⟨hwin, (hspoiled (by decide) rfl).1, fun h => ?_, fun h => ?_⟩
  · revert h
    rw [hsma]
    decide +kernel
  · revert h
    rw [hwma (by decide)]
    decide +kernel

/-- The average over one value is not that value after an infinite one, and other series with that
value have it. -/
theorem not_average_of_window_only :
    ¬∀ (n : Nat) (v w : List Extended) (i : Nat), 0 < n → v.length = w.length → i < v.length →
      window n v (i + 1) = window n w (i + 1) →
      (sma n v)[i]? = (sma n w)[i]? ∧ (n < 2 ^ 32 → (wma n v)[i]? = (wma n w)[i]?) ∧
        sma 1 v = v.map some := by
  intro h
  have hall := h 1 [infinite false, finite 7] [finite 7, finite 7] 1 (by decide) rfl (by decide)
    (by decide +kernel)
  revert hall
  decide +kernel

end Average

end Custody
