import Custody.Proofs.Market.Batches
import Custody.Proofs.Market.Holdings
import Custody.Proofs.Market.Windows

/-!
# Averages that are settled

What an average shows at a position depends on nothing that comes later, whatever the arithmetic:
each kind is a pass over entries (`calculate_eq_scan`), the entries of the first values are the same
in every longer series, and a step shows an average exactly when its window is full.  A series in a
market only grows at its end while it is there (`lasting_grown`).  So an indicator never changes a
value that it showed before, and it has a last value exactly when its source stores as many values
as the period says (`indicators_settled`).
-/

namespace Custody

/-! ### Passes -/

namespace Average

theorem scan_append {σ β γ : Type} (f : σ → β → σ × γ) (s : σ) (bs cs : List β) :
    scan f s bs <+: scan f s (bs ++ cs) := by
  induction bs generalizing s with
  | nil => exact List.nil_prefix
  | cons b bs ih => exact List.cons_prefix_cons.2 ⟨rfl, ih _⟩

/-- What stands before a position and at it is the same in every longer series. -/
theorem entries_append {R : Type} (n : Nat) (v u : List R) :
    entries n v <+: entries n (v ++ u) := by
  rw [List.prefix_iff_getElem?]
  intro i hi
  rw [length_entries] at hi
  rw [← List.getElem?_eq_getElem, getElem?_entries, getElem?_entries,
    List.getElem?_append_left hi, List.getElem?_append_left (by omega)]

section Steps

variable {R : Type} [Add R] [Sub R] [Div R] [NatCast R] {n : Nat}

theorem smaStep_eq_none_iff (s : R) (e : Entry R) :
    (smaStep n s e).2 = none ↔ e.index + 1 < n := by
  unfold smaStep
  split <;> simp

variable [Mul R]

theorem wmaStep_eq_none_iff (s : WeightedSums R) (e : Entry R) :
    (wmaStep n s e).2 = none ↔ e.index + 1 < n := by
  unfold wmaStep
  split <;> simp

theorem emaStep_eq_none_iff (s : SmoothedSums R) (e : Entry R) :
    (emaStep n s e).2 = none ↔ e.index + 1 < n := by
  unfold emaStep
  split
  · simp [*]
  · split <;> simp [*]

end Steps

end Average

namespace IndicatorKind

open Average

variable {R : Type} [Add R] [Sub R] [Mul R] [Div R] [NatCast R] {k : IndicatorKind} {v : List R}
  {i : Nat}

theorem calculate_of_period_eq_zero (hk : k.period = 0) (v : List R) : k.calculate v = [] := by
  obtain ⟨_ | _ | _, n⟩ := k <;> exact if_pos hk

/-- Every kind of average is one pass, of which a step shows something exactly when the window is
full. -/
theorem calculate_eq_scan (hk : 0 < k.period) :
    ∃ (σ : Type) (step : σ → Entry R → σ × Option R) (s : σ),
      (∀ t e, (step t e).2 = none ↔ e.index + 1 < k.period) ∧
      ∀ v, k.calculate v = scan step s (entries k.period v) := by
  obtain ⟨_ | _ | _, n⟩ := k
  · exact ⟨_, smaStep n, _, smaStep_eq_none_iff, fun v => if_neg hk.ne'⟩
  · exact ⟨_, emaStep n, _, emaStep_eq_none_iff, fun v => if_neg hk.ne'⟩
  · exact ⟨_, wmaStep n, _, wmaStep_eq_none_iff, fun v => if_neg hk.ne'⟩

theorem length_calculate (hk : 0 < k.period) (v : List R) :
    (k.calculate v).length = v.length := by
  obtain ⟨σ, step, s, -, hpass⟩ := calculate_eq_scan (R := R) hk
  rw [hpass, length_scan, length_entries]

theorem calculate_eq_none_iff (hk : 0 < k.period) (hi : i < v.length) :
    (k.calculate v)[i]? = some none ↔ i + 1 < k.period := by
  obtain ⟨σ, step, s, hnone, hpass⟩ := calculate_eq_scan (R := R) hk
  have he := getElem?_entries k.period v i
  rw [List.getElem?_eq_getElem hi] at he
  obtain ⟨t, -, h⟩ := scan_induction (P := fun _ _ => True) (f := step) (s := s) trivial
    (fun _ _ _ _ _ => trivial) he
  rw [hpass, h, Option.some_inj, hnone]

theorem calculate_append (k : IndicatorKind) (v u : List R) :
    k.calculate v <+: k.calculate (v ++ u) := by
  obtain hk | hk := Nat.eq_zero_or_pos k.period
  · rw [calculate_of_period_eq_zero hk]
    exact List.nil_prefix
  · obtain ⟨σ, step, s, -, hpass⟩ := calculate_eq_scan (R := R) hk
    obtain ⟨later, hlater⟩ := entries_append k.period v u
    rw [hpass, hpass, ← hlater]
    exact scan_append _ _ _ _

/-- There is a last average exactly when there are as many values as the period says. -/
theorem lastOf_calculate (hk : 0 < k.period) (v : List Float) :
    (Indicator.lastOf (k.calculate v)).isSome ↔ k.period ≤ v.length := by
  have hlen := length_calculate hk v
  rw [Indicator.lastOf, List.getLast?_eq_getElem?, hlen]
  obtain hv | hv := Nat.eq_zero_or_pos v.length
  · rw [List.getElem?_eq_none (by omega)]
    exact iff_of_false Bool.false_ne_true (by omega)
  · have hlast : v.length - 1 < (k.calculate v).length := by omega
    have hnone := calculate_eq_none_iff hk (v := v) (i := v.length - 1) (by omega)
    rw [List.getElem?_eq_getElem hlast, Option.some_inj] at hnone
    rw [List.getElem?_eq_getElem hlast, Option.join_some, Option.isSome_iff_ne_none, ne_eq, hnone]
    omega

end IndicatorKind

/-! ### Series that grow -/

/-- Every series that was there before has what it had, and new points stand behind it. -/
structure Grown (t t' : Slab (Object Series)) : Prop where
  next : t.next ≤ t'.next
  points : ∀ {o y'}, t'.get? o = some y' → o < t.next →
    ∃ y, t.get? o = some y ∧ y.value.points.toList <+: y'.value.points.toList

theorem Grown.refl (t : Slab (Object Series)) : Grown t t where
  next := Nat.le_refl _
  points {_ y'} hy _ := ⟨y', hy, List.prefix_refl _⟩

theorem Series.points_feed (s : Series) (bars : List Bar) :
    s.points.toList <+: (s.feed bars).1.points.toList := by
  obtain ⟨added, hs, -⟩ := s.exists_added bars
  rw [hs, Array.toList_append]
  exact List.prefix_append _ _

/-- A series that is fed grows, a new one has a new number, and one that is freed does not come
back. -/
theorem lasting_grown (t : Slab (Object Series)) : Lasting (Grown t) where
  insert i c hg :=
    { next := Nat.le_trans hg.next (by rw [Slab.next_insert]; omega)
      points := fun {o y'} hy hlt => by
        have hold : o ≠ _ := Nat.ne_of_lt (Nat.lt_of_lt_of_le hlt hg.next)
        rw [Slab.get?_insert, if_neg hold] at hy
        exact hg.points hy hlt }
  feed {t' o x} bars hx hg :=
    { next := by rw [Slab.next_modify]; exact hg.next
      points := fun {p y'} hy hlt => by
        rw [Slab.get?_modify] at hy
        split at hy
        · next e =>
          subst e
          obtain ⟨y, hy₀, hpre⟩ := hg.points hx hlt
          rw [hx] at hy
          cases hy
          exact ⟨y, hy₀, hpre.trans (x.value.points_feed bars)⟩
        · exact hg.points hy hlt }
  erase o hg :=
    { next := by rw [Slab.next_erase]; exact hg.next
      points := fun {p y'} hy hlt => by
        rw [Slab.get?_erase] at hy
        split at hy
        · cases hy
        · exact hg.points hy hlt }

/-! ### Indicators -/

namespace Indicator

variable {a : Indicator} {h h' : Heap Series} {v v' : List Float}

theorem values_eq_of_stored (e : a.stored h = .ok v) {mode : Arithmetic} (hk : a.kind.Fits mode) :
    a.values mode h = .ok (.ok (a.kind.calculate v)) := by
  rw [← IndicatorKind.compute_of_fits hk]
  exact bind_eq_ok_iff.2 ⟨v, e, rfl⟩

theorem stored_prefix (hg : Grown h.objects h'.objects) (e : a.stored h = .ok v)
    (e' : a.stored h' = .ok v') : v <+: v' := by
  obtain ⟨k, _ | o⟩ := a
  · cases e
    exact List.nil_prefix
  · obtain ⟨x, hx, e⟩ := bind_eq_ok_iff.1 e
    obtain ⟨y, hy, e'⟩ := bind_eq_ok_iff.1 e'
    cases e
    cases e'
    rw [Heap.object_eq_ok_iff] at hx hy
    obtain ⟨x', hx', hpre⟩ := hg.points hy (Slab.lt_next_of_get? hx)
    cases hx.symm.trans hx'
    exact hpre.map _

end Indicator

namespace MarketSession

variable {s : MarketSession} {a : Indicator}

/-- Whether an indicator is kept, by the market or outside it. -/
def Keeps (s : MarketSession) (a : Indicator) : Prop :=
  (∃ k, s.market.indicators.get? k = some a) ∨ ∃ name, s.kept.get? name = some a

theorem Sound.stored (hs : s.Sound) (ha : s.Keeps a) : ∃ v, a.stored s.heap = .ok v := by
  have hm : .strong a.source ∈ s.handles := by
    obtain ⟨k, hk⟩ | ⟨name, hk⟩ := ha
    · exact Market.Sound.source_mem hk
    · exact source_mem_handles hk
  obtain ⟨k, _ | o⟩ := a
  · exact ⟨[], rfl⟩
  · obtain ⟨x, hx⟩ := (balanced_handles hs).object_of_holding hm
    exact ⟨x.value.values, bind_eq_ok_iff.2 ⟨x, hx, rfl⟩⟩

/-- Whatever the arithmetic gives, the averages of a series are absent exactly before the first full
window, and those of a longer series begin with them; every build computes them of which the
arithmetic fits the kind.  Whatever the user of a market does between two moments at which an
indicator is kept, its source then begins with the values that it stored before, and what it shows
with what it showed before; it has a last value exactly when as many values are stored as its period
says. -/
theorem indicators_settled :
    (∀ (R : Type) [Add R] [Sub R] [Mul R] [Div R] [NatCast R] (k : IndicatorKind),
      0 < k.period → ∀ v u : List R, (k.calculate v).length = v.length ∧
        (∀ i < v.length, (k.calculate v)[i]? = some none ↔ i + 1 < k.period) ∧
        (k.calculate (v ++ u)).take v.length = k.calculate v ∧
        ∀ mode, k.Fits mode → k.compute mode v = .ok (k.calculate v)) ∧
    ∀ (us us' : List UserMove) (a : Indicator),
      (moves {} us).Keeps a → (moves {} (us ++ us')).Keeps a →
      ∃ v v', a.stored (moves {} us).heap = .ok v ∧
        a.stored (moves {} (us ++ us')).heap = .ok v' ∧ v <+: v' ∧
        (∀ mode, a.kind.Fits mode →
          a.values mode (moves {} us).heap = .ok (.ok (a.kind.calculate v)) ∧
          a.values mode (moves {} (us ++ us')).heap = .ok (.ok (a.kind.calculate v'))) ∧
        a.kind.calculate v <+: a.kind.calculate v' ∧
        (0 < a.kind.period →
          ((Indicator.lastOf (a.kind.calculate v)).isSome ↔ a.kind.period ≤ v.length)) := by
  refine ⟨fun R _ _ _ _ _ k hk v u => ⟨IndicatorKind.length_calculate hk v,
    fun i hi => IndicatorKind.calculate_eq_none_iff hk hi, ?_,
    fun mode hfit => IndicatorKind.compute_of_fits hfit v⟩, fun us us' a ha ha' => ?_⟩
  · rw [← IndicatorKind.length_calculate hk v]
    exact (List.prefix_iff_eq_take.1 (k.calculate_append v u)).symm
  · obtain ⟨v, hv⟩ := (moves_sound sound_empty us).stored ha
    obtain ⟨v', hv'⟩ := (moves_sound sound_empty (us ++ us')).stored ha'
    have hgrown : Grown (moves {} us).heap.objects (moves {} (us ++ us')).heap.objects := by
      rw [moves, moves, List.foldl_append]
      exact (lasting_grown _).moves us' (Grown.refl _)
    obtain ⟨u, rfl⟩ := Indicator.stored_prefix hgrown hv hv'
    exact ⟨v, v ++ u, hv, hv', List.prefix_append v u,
      fun mode hfit => ⟨Indicator.values_eq_of_stored hv hfit,
        Indicator.values_eq_of_stored hv' hfit⟩, a.kind.calculate_append v u,
      fun hp => IndicatorKind.lastOf_calculate hp v⟩

/-- An average over three values of a series that is carried on, and an indicator on an empty
series that is then fed. -/
theorem indicators_settled_loaded :
    let wma : IndicatorKind := ⟨.wma, 3⟩
    let i : SeriesId := ⟨"A", .d1, .closing⟩
    let us : List UserMove := [.command (.indicator i ⟨.sma, 2⟩)]
    let us' : List UserMove := [.command (.load none i [Series.levelBar 15 (by decide) 10])]
    (wma.calculate ([1, 2, 3, 4] ++ [5] : List ℚ)).take 4 = wma.calculate [1, 2, 3, 4] ∧
    ∃ (a : Indicator) (v v' : List Float), a.stored (moves {} us).heap = .ok v ∧
      a.stored (moves {} (us ++ us')).heap = .ok v' ∧
      a.kind.calculate v <+: a.kind.calculate v' ∧
      ((Indicator.lastOf (a.kind.calculate v)).isSome ↔ 2 ≤ v.length) := by
  intro wma i us us'
  obtain ⟨m, h, a, _, -, e, -, -, hk, hkind, -⟩ := exec_indicator sound_empty i ⟨.sma, 2⟩
  have hmove : moves {} us = { heap := h, market := m } := by
    show move {} _ = _
    rw [move, act, e]
  have hkept : (moves {} us).market.indicators.get? (Indicator.keyOf i.key ⟨.sma, 2⟩) = some a :=
    hmove ▸ hk
  have hkept' : (moves {} (us ++ us')).market.indicators.get? (Indicator.keyOf i.key ⟨.sma, 2⟩) =
      some a := by
    show ((moves {} us).move (.command (.load none i _))).market.indicators.get? _ = some a
    rw [move_command]
    exact (step_grows (moves_sound sound_empty us) rfl).2.extends.indicators hkept
  obtain ⟨v, v', hv, hv', -, -, hpre, hlast⟩ :=
    indicators_settled.2 us us' a (.inl ⟨_, hkept⟩) (.inl ⟨_, hkept'⟩)
  rw [hkind] at hpre hlast
  exact ⟨(indicators_settled.1 ℚ wma (by decide) [1, 2, 3, 4] [5]).2.2.1,
    a, v, v', hv, hv', hkind ▸ hpre, hkind ▸ hlast (by decide)⟩

end MarketSession

end Custody
