import Custody.Proofs.Market.Entries
import Custody.Proofs.Market.Feeding
import Custody.Proofs.Ownership.Growth
import Custody.Proofs.Roster

/-!
# Markets built on a heap

`Market.Built b m h others` says that the market `m` was built from nothing on the heap `b`, which
has become `h`: all that `b` had is as it was, what is new are the series of the market, and there
are as many more counters as there are series.  Nothing is asked of the objects in `b`.

For the operations that build a market there is one lemma each, which says what becomes of the
values under the keys (`Market.valueAt`) and of the kinds of the indicators (`Market.kindAt`).
-/

namespace Custody.Market

variable {b h h' : Heap Series} {m m' : Market} {others others' : List Handle} {o : ObjectId}
  {x : Object Series} {i : SeriesId} {s : Strong} {k : String} {t : Handle} {v : Series}
  {kind : IndicatorKind} {bars : List Bar}

/-! ### What stands under a key -/

/-- What the series kept under a key holds. -/
def valueAt (m : Market) (h : Heap Series) (k : String) : Option Series :=
  (m.series.get? k).bind fun s => s.target.bind fun o => (h.objects.get? o).map Object.value

def kindAt (m : Market) (k : String) : Option IndicatorKind :=
  (m.indicators.get? k).map Indicator.kind

theorem valueAt_of_objects (m : Market) (ho : h'.objects = h.objects) :
    m.valueAt h' = m.valueAt h := by
  funext k
  rw [valueAt, ho, valueAt]

theorem valueAt_eq (hk : m.series.get? k = some ⟨some o⟩) :
    m.valueAt h k = (h.objects.get? o).map Object.value := by
  rw [valueAt, hk]
  rfl

theorem valueAt_eq_none (hk : m.series.get? k = none) : m.valueAt h k = none := by
  rw [valueAt, hk]
  rfl

theorem Filed.valueAt_eq_some_iff (hf : m.Filed h) : m.valueAt h k = some v ↔
    ∃ o x, m.series.get? k = some ⟨some o⟩ ∧ h.objects.get? o = some x ∧ x.value = v := by
  constructor
  · intro hv
    cases hk : m.series.get? k with
    | none =>
      rw [valueAt_eq_none hk] at hv
      cases hv
    | some s =>
      obtain ⟨o, x, rfl, hx, -⟩ := hf.series hk
      rw [valueAt_eq hk, hx] at hv
      exact ⟨o, x, rfl, hx, Option.some.inj hv⟩
  · rintro ⟨o, x, hk, hx, rfl⟩
    rw [valueAt_eq hk, hx, Option.map_some]

/-- There is a value where a series is kept. -/
theorem Filed.exists_value_iff (hf : m.Filed h) :
    (∃ v, m.valueAt h k = some v) ↔ ∃ s, m.series.get? k = some s := by
  constructor
  · rintro ⟨v, hv⟩
    obtain ⟨o, -, hk, -⟩ := hf.valueAt_eq_some_iff.1 hv
    exact ⟨_, hk⟩
  · rintro ⟨s, hk⟩
    obtain ⟨o, x, rfl, hx, -⟩ := hf.series hk
    exact ⟨x.value, hf.valueAt_eq_some_iff.2 ⟨o, x, hk, hx, rfl⟩⟩

theorem Filed.of_objects (hf : m.Filed h) (ho : h'.objects = h.objects) : m.Filed h' where
  series := by
    rw [ho]
    exact hf.series
  indicators := hf.indicators

/-! ### The handles that a market keeps -/

theorem strong_of_mem_series (ht : t ∈ m.series.handles) : ∃ s, t = .strong s := by
  obtain ⟨s, -, hs⟩ := List.mem_flatMap.1 ht
  exact ⟨s, List.mem_singleton.1 hs⟩

theorem strong_of_mem_indicators (ht : t ∈ m.indicators.handles) : ∃ s, t = .strong s := by
  obtain ⟨a, -, ha⟩ := List.mem_flatMap.1 ht
  exact ⟨a.source, List.mem_singleton.1 ha⟩

theorem watching_not_mem_series (m : Market) (c : CounterId) : .watching c ∉ m.series.handles := by
  intro hm
  obtain ⟨s, e⟩ := strong_of_mem_series hm
  cases e

/-! ### Markets built on a heap -/

/-- The market `m` was built on the heap `b`, which is `h` now; `others` are the handles that it
does not keep. -/
structure Built (b : Heap Series) (m : Market) (h : Heap Series) (others : List Handle) : Prop
    extends m.Filed h where
  heap : h.Sound (m.series.handles ++ (m.indicators.handles ++ others))
  growth : b.Over h
  live : h.live = b.live + m.series.size
  new : ∀ {k o}, m.series.get? k = some ⟨some o⟩ → b.objects.next ≤ o

namespace Built

theorem start (hb : b.Sound others) : ({} : Market).Built b b others where
  series hk := by cases hk
  indicators hk := by cases hk
  heap := hb
  growth := .refl b
  live := rfl
  new hk := by cases hk

theorem perm (hm : m.Built b h others) (hp : others.Perm others') : m.Built b h others' :=
  { hm with heap := hm.heap.perm ((hp.append_left _).append_left _) }

/-- A handle is taken that the market does not keep. -/
theorem takes (hm : m.Built b h others)
    (ht : h.Takes (m.series.handles ++ (m.indicators.handles ++ others) ++ h.stored) t h') :
    m.Built b h' (t :: others) where
  toFiled := hm.toFiled.of_objects ht.objects
  heap := ht.sound.perm (List.perm_middle.symm.trans (List.perm_middle.symm.append_left _))
  growth := hm.growth.of_objects ht.objects ht.next
  live := ht.live_eq.trans hm.live
  new := hm.new

/-- A handle is given back of which the market has another. -/
theorem release (hm : m.Built b h (.strong s :: others)) (hk : m.series.get? k = some s) :
    ∃ h', h.release [.strong s] = .ok (h', []) ∧ m.Built b h' others ∧ h'.objects = h.objects := by
  have hs : h.Sound (.strong s :: (m.series.handles ++ (m.indicators.handles ++ others))) :=
    hm.heap.perm ((List.perm_middle.append_left _).trans List.perm_middle)
  have hmem : .strong s ∈ m.series.handles ++ (m.indicators.handles ++ others) :=
    Sound.mem_of_series hk
  obtain ⟨h', e, hs', ho, hn, hl⟩ := hs.release_spare hmem
  exact ⟨h', e, ⟨hm.toFiled.of_objects ho, hs', hm.growth.of_objects ho hn, hl.trans hm.live,
    hm.new⟩, ho⟩

/-! ### Opening a series -/

theorem openSeries_of_get? (hm : m.Built b h others) (hk : m.series.get? i.key = some ⟨some o⟩) :
    ∃ h', m.openSeries h i = .ok (m, h', ⟨some o⟩) ∧ m.Built b h' (.holding o :: others) ∧
      h'.objects = h.objects := by
  obtain ⟨h', e, ht⟩ := Roster.lendOrMake_of_get? (x := i.fresh) hk hm.heap
  exact ⟨h', by simp [Market.openSeries, e, bind, Except.bind], hm.takes ht, ht.objects⟩

theorem openSeries_of_get?_eq_none (hm : m.Built b h others) (hk : m.series.get? i.key = none) :
    ∃ h', m.openSeries h i = .ok (m.withSeries i h.objects.next, h', ⟨some h.objects.next⟩) ∧
      (m.withSeries i h.objects.next).Built b h' (.holding h.objects.next :: others) ∧
      h'.objects = (h.adopt i.fresh).objects := by
  obtain ⟨h', e, hs', hl, hobj⟩ :=
    Roster.lendOrMake_of_get?_eq_none (x := i.fresh) hk rfl rfl hm.heap
  have hs₁ : h'.Sound ((m.withSeries i h.objects.next).series.handles ++
      (m.indicators.handles ++ (.holding h.objects.next :: others))) :=
    hs'.perm (List.perm_middle.symm.trans (List.perm_middle.symm.append_left _))
  refine ⟨h', ?_, ⟨⟨fun {k s} hk' => ?_, fun {k a} hka => ?_⟩, hs₁, ?_, ?_, fun {k o} hk' => ?_⟩,
    hobj⟩
  · simp only [Market.openSeries, e, Market.withSeries, bind, Except.bind]
  · rw [get?_withSeries] at hk'
    rw [hobj, Heap.adopt]
    split at hk'
    · next hki =>
      cases hk'
      refine ⟨_, { i.fresh with slot := some h.counters.next }, rfl, ?_, hki⟩
      rw [Slab.get?_insert, if_pos rfl]
    · obtain ⟨o, x, rfl, hx, hid⟩ := hm.series hk'
      refine ⟨o, x, rfl, ?_, hid⟩
      rw [Slab.get?_insert, if_neg (Nat.ne_of_lt (Slab.lt_next_of_get? hx)), hx]
  · obtain ⟨key, hkey, e⟩ := hm.indicators hka
    exact ⟨key, (grows_withSeries hk _).series hkey, e⟩
  · exact (hm.growth.adopt rfl).of_objects hobj hl.steady
  · -- the handles on the series are counted, but the new counter is the only one more
    have hsize : (m.withSeries i h.objects.next).series.size = m.series.size + 1 :=
      Roster.size_insert hk _
    have hlive : h'.live = (h.adopt i.fresh).live := by
      refine Heap.Balanced.live_eq_of_objects (hm.heap.adopt rfl) hs' hobj fun c => ?_
      have hnew := (m.withSeries i h.objects.next).watching_not_mem_series c
      rw [Market.withSeries] at hnew
      simp [Heap.stored_eq_of_objects hobj, hnew, m.watching_not_mem_series c]
    rw [hlive, Heap.live_adopt, hm.live, hsize, Nat.add_assoc]
  · rw [get?_withSeries] at hk'
    split at hk'
    · cases hk'
      exact hm.growth.next
    · exact hm.new hk'

/-- A series is opened: the one that is kept under its key, or a new one. -/
theorem openSeries (hm : m.Built b h others) (i : SeriesId) :
    ∃ m' h' o x, m.openSeries h i = .ok (m', h', ⟨some o⟩) ∧ m'.Built b h' (.holding o :: others) ∧
      m.Grows m' ∧ m'.indicators = m.indicators ∧ m'.series.get? i.key = some ⟨some o⟩ ∧
      h'.objects.get? o = some x ∧ x.value = (m.valueAt h i.key).getD i.fresh.value ∧
      ∀ k, k ≠ i.key → m'.valueAt h' k = m.valueAt h k := by
  cases hk : m.series.get? i.key with
  | some s =>
    obtain ⟨o, x, rfl, hx, -⟩ := hm.series hk
    obtain ⟨h', e, hm', ho⟩ := hm.openSeries_of_get? hk
    refine ⟨m, h', o, x, e, hm', .refl m, rfl, hk, by rw [ho, hx], ?_, fun k _ => ?_⟩
    · rw [valueAt_eq hk, hx]
      rfl
    · rw [m.valueAt_of_objects ho]
  | none =>
    obtain ⟨h', e, hm', ho⟩ := hm.openSeries_of_get?_eq_none hk
    refine ⟨_, h', _, { i.fresh with slot := some h.counters.next }, e, hm', grows_withSeries hk _,
      rfl, by rw [get?_withSeries, if_pos rfl],
      by rw [ho, Heap.adopt, Slab.get?_insert, if_pos rfl], by rw [valueAt_eq_none hk]; rfl,
      fun k hne => ?_⟩
    have hget : (m.withSeries i h.objects.next).series.get? k = m.series.get? k := by
      rw [get?_withSeries, if_neg (Ne.symm hne)]
    cases hk' : m.series.get? k with
    | none => rw [valueAt_eq_none (hget.trans hk'), valueAt_eq_none hk']
    | some s =>
      obtain ⟨o, x, rfl, hx, -⟩ := hm.series hk'
      rw [valueAt_eq (hget.trans hk'), valueAt_eq hk', ho, Heap.adopt, Slab.get?_insert,
        if_neg (Nat.ne_of_lt (Slab.lt_next_of_get? hx))]

/-! ### Feeding a series -/

theorem feed (hm : m.Built b h others) (hk : m.series.get? i.key = some ⟨some o⟩)
    (hx : h.objects.get? o = some x) (bars : List Bar) :
    ∃ h', feedSeries h ⟨some o⟩ bars = .ok (h', some (x.value.feed bars).2) ∧
      m.Built b h' others ∧
      ∀ k, m.valueAt h' k = if k = i.key then some (x.value.feed bars).1 else m.valueAt h k := by
  have hself := Heap.get?_setObject_self hx fun y => { y with value := (x.value.feed bars).1 }
  have hget : ∀ p, p ≠ o →
      (h.setObject o fun y => { y with value := (x.value.feed bars).1 }).objects.get? p =
        h.objects.get? p := fun p hne => by
    rw [Heap.setObject, Slab.get?_modify, if_neg (Ne.symm hne)]
  refine ⟨_, feedSeries_eq hx bars, ?_, ?_⟩
  · refine ⟨⟨fun {k s} hk' => ?_, hm.indicators⟩, hm.heap.setObject hx (fun _ => rfl) (.refl _),
      hm.growth.setObject (hm.new hk) (fun _ => rfl) (fun _ => rfl), hm.live, hm.new⟩
    obtain ⟨p, y, rfl, hy, hid⟩ := hm.series hk'
    by_cases e : p = o
    · subst e
      cases hx.symm.trans hy
      exact ⟨p, _, rfl, hself, by rw [← hid, ← x.value.id_feed bars]⟩
    · exact ⟨p, y, rfl, (hget p e).trans hy, hid⟩
  · intro k
    by_cases e : k = i.key
    · subst e
      rw [if_pos rfl, valueAt_eq hk, hself, Option.map_some]
    · rw [if_neg e]
      cases hk' : m.series.get? k with
      | none => rw [valueAt_eq_none hk', valueAt_eq_none hk']
      | some s =>
        obtain ⟨p, y, rfl, hy, -⟩ := hm.series hk'
        have hne : p ≠ o := by
          rintro rfl
          exact e (hm.toFiled.series_inj hk' hk)
        rw [valueAt_eq hk', valueAt_eq hk', hget p hne]

/-- Bars are loaded into the series of `i`, which is made if it is not there. -/
theorem load (hm : m.Built b h others) (i : SeriesId) (bars : List Bar) :
    ∃ m' h' o, m.load h i bars =
        .ok (m', h', ⟨some o⟩, (((m.valueAt h i.key).getD i.fresh.value).feed bars).2) ∧
      m'.Built b h' (.holding o :: others) ∧ m.Grows m' ∧ m'.indicators = m.indicators ∧
      m'.series.get? i.key = some ⟨some o⟩ ∧
      ∀ k, m'.valueAt h' k =
        if k = i.key then some (((m.valueAt h i.key).getD i.fresh.value).feed bars).1
        else m.valueAt h k := by
  obtain ⟨m', h₁, o, x, e, hm₁, hg, hind, hk, hx, hv, hrest⟩ := hm.openSeries i
  obtain ⟨h', e', hm', hval⟩ := hm₁.feed hk hx bars
  refine ⟨m', h', o, by simp [Market.load, e, e', hv, bind, Except.bind], hm', hg, hind, hk,
    fun k => ?_⟩
  rw [hval, hv]
  split
  · rfl
  · next hne => rw [hrest k hne]

/-! ### Making an indicator -/

/-- An indicator over a series that the market keeps is made if it is not there. -/
theorem indicator (hm : m.Built b h others) (hk : m.series.get? i.key = some ⟨some o⟩)
    (kind : IndicatorKind) :
    ∃ m' h' a, m.indicator h i kind = .ok (m', h', a) ∧ m'.Built b h' others ∧ m.Grows m' ∧
      m'.series = m.series ∧ h'.objects = h.objects ∧
      ∀ k kind', m'.kindAt k = some kind' ↔
        m.kindAt k = some kind' ∨ kind' = kind ∧ k = Indicator.keyOf i.key kind' := by
  cases hka : m.indicators.get? (Indicator.keyOf i.key kind) with
  | some a =>
    obtain ⟨hkind, -⟩ := hm.toFiled.indicator_eq hka
    refine ⟨m, h, a, by simp [Market.indicator, hka], hm, .refl m, rfl, rfl, fun k kind' => ?_⟩
    rw [iff_self_or]
    rintro ⟨rfl, rfl⟩
    rw [kindAt, hka, Option.map_some, hkind]
  | none =>
    obtain ⟨h', e, hm', ho⟩ := hm.openSeries_of_get? hk
    have hfree : m.indicators.handlesAt (Indicator.keyOf i.key kind) = [] := by
      rw [Roster.handlesAt, hka]
      rfl
    have est : m.indicators.store h' (Indicator.keyOf i.key kind) ⟨kind, ⟨some o⟩⟩ =
        .ok (m.indicators.insert (Indicator.keyOf i.key kind) ⟨kind, ⟨some o⟩⟩, h', []) :=
      Roster.store_eq (by rw [hfree, Heap.release_nil])
    have hp := m.indicators.perm_handles_insert (Indicator.keyOf i.key kind) ⟨kind, ⟨some o⟩⟩
    rw [hfree, List.nil_append] at hp
    refine ⟨m.withIndicator i kind ⟨some o⟩, h', ⟨kind, ⟨some o⟩⟩, ?_,
      ⟨⟨hm'.series, fun {k a} hka' => ?_⟩, ?_, hm'.growth, hm'.live, hm'.new⟩,
      ⟨id, .inr ⟨_, _, hka, rfl⟩⟩, rfl, ho, fun k kind' => ?_⟩
    · simp only [Market.indicator, hka, e, est, Market.withIndicator, bind, Except.bind]
    · rw [get?_withIndicator] at hka'
      split at hka'
      · next e =>
        cases hka'
        exact ⟨i.key, hk, e.symm⟩
      · exact hm'.indicators hka'
    · exact hm'.heap.perm ((List.perm_middle.trans (hp.symm.append_right others)).append_left _)
    · rw [kindAt, get?_withIndicator]
      split
      · next e =>
        subst e
        rw [kindAt, hka, Option.map_some, Option.map_none, Option.some_inj]
        constructor
        · rintro rfl
          exact .inr ⟨rfl, rfl⟩
        · rintro (hk' | ⟨rfl, -⟩)
          · cases hk'
          · rfl
      · next e =>
        rw [← kindAt, iff_self_or]
        rintro ⟨rfl, e'⟩
        exact absurd e'.symm e

end Built

end Custody.Market
