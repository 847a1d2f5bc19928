import Custody.Proofs.Market.Keys
import Custody.Proofs.Ownership.Registry

/-!
# What a market keeps

`Market.Sound m h others` says what is true of a market `m` on a heap `h` between two operations,
when `others` are the handles that the market does not keep: the counters are right, every object is
managed, the series kept under a key is the one that the key names, and the source of every
indicator is the series kept under the key from which its own was made.

Every operation of the market keeps this.  One that shuts nothing down loses nothing that is kept
and replaces nothing (`Market.Grows`), and an object that is still there is the same series as
before (`Heap.Evolves`).
-/

namespace Custody

/-- What a series is asked for by. -/
def Series.id (s : Series) : SeriesId := ⟨s.symbol, s.timeframe, s.price⟩

theorem Series.id_feed (s : Series) (bars : List Bar) : (s.feed bars).1.id = s.id := by
  induction bars generalizing s with
  | nil => rfl
  | cons b bs ih =>
    rw [feed]
    split
    · exact ih (s.push b)
    · exact ih s

/-! ### Heaps of series -/

namespace Heap

theorem get?_setObject_self {h : Heap Series} {o : ObjectId} {x : Object Series}
    (hx : h.objects.get? o = some x) (f : Object Series → Object Series) :
    (h.setObject o f).objects.get? o = some (f x) := by
  rw [setObject, Slab.get?_modify, if_pos rfl, hx, Option.map_some]

/-- Every object of `h'` that was there in `h` is the same series as before, and every other object
is managed. -/
structure Evolves (h h' : Heap Series) : Prop where
  next : h.objects.next ≤ h'.objects.next
  old : ∀ {o y'}, h'.objects.get? o = some y' → o < h.objects.next →
    ∃ y, h.objects.get? o = some y ∧ y'.value.id = y.value.id ∧ y'.slot = y.slot
  new : ∀ {o y'}, h'.objects.get? o = some y' → h.objects.next ≤ o → y'.slot ≠ none

namespace Evolves

variable {h h₁ h₂ h' : Heap Series}

theorem of_objects (e : h'.objects = h.objects) : h.Evolves h' where
  next := Nat.le_of_eq (by rw [e])
  old {o y'} hy _ := ⟨y', e ▸ hy, rfl, rfl⟩
  new hy hle := by
    rw [e] at hy
    exact absurd (Slab.lt_next_of_get? hy) (Nat.not_lt.2 hle)

theorem refl (h : Heap Series) : h.Evolves h := of_objects rfl

theorem trans (e₁ : h.Evolves h₁) (e₂ : h₁.Evolves h₂) : h.Evolves h₂ where
  next := Nat.le_trans e₁.next e₂.next
  old hy hlt := by
    obtain ⟨y₁, hy₁, hid₁, hslot₁⟩ := e₂.old hy (Nat.lt_of_lt_of_le hlt e₁.next)
    obtain ⟨y, hy, hid, hslot⟩ := e₁.old hy₁ hlt
    exact ⟨y, hy, hid₁.trans hid, hslot₁.trans hslot⟩
  new {o y'} hy hle := by
    rcases Nat.lt_or_ge o h₁.objects.next with hlt | hge
    · obtain ⟨y₁, hy₁, -, hslot⟩ := e₂.old hy hlt
      rw [hslot]
      exact e₁.new hy₁ hle
    · exact e₂.new hy hge

theorem of_without {gone : List ObjectId} (hw : h.Without gone h') : h.Evolves h' where
  next := Nat.le_of_eq hw.next_objects.symm
  old {_ y'} hy _ := ⟨y', (hw.get?_of_get? hy).1, rfl, rfl⟩
  new hy hle := absurd (Slab.lt_next_of_get? (hw.get?_of_get? hy).1) (Nat.not_lt.2 hle)

/-- A new object is put under a counter. -/
theorem of_adopt {x : Object Series} (e : h'.objects = (h.adopt x).objects) : h.Evolves h' where
  next := by
    rw [e, Heap.adopt, Slab.next_insert]
    omega
  old {o y'} hy hlt := by
    rw [e, Heap.adopt, Slab.get?_insert, if_neg (Nat.ne_of_lt hlt)] at hy
    exact ⟨y', hy, rfl, rfl⟩
  new {o y'} hy hle := by
    rw [e, Heap.adopt, Slab.get?_insert] at hy
    split at hy
    · cases hy
      simp
    · exact absurd (Slab.lt_next_of_get? hy) (Nat.not_lt.2 hle)

/-- The value of an object is replaced by one for the same series. -/
theorem of_setObject {o : ObjectId} {x : Object Series} {v : Series}
    (hx : h.objects.get? o = some x) (hv : v.id = x.value.id) :
    h.Evolves (h.setObject o fun y => { y with value := v }) where
  next := by simp [Heap.setObject]
  old {p y'} hy _ := by
    rw [Heap.setObject, Slab.get?_modify] at hy
    split at hy
    · next e =>
      subst e
      rw [hx] at hy
      cases hy
      exact ⟨x, hx, hv, rfl⟩
    · exact ⟨y', hy, rfl, rfl⟩
  new {p y'} hy hle := by
    have hlt := Slab.lt_next_of_get? hy
    simp only [Heap.setObject, Slab.next_modify] at hlt
    omega

end Evolves

end Heap

namespace Market

variable {m m' m₁ m₂ : Market} {h h' : Heap Series} {others others' rest pending : List Handle}
  {o : ObjectId} {x : Object Series} {i : SeriesId} {s : Strong}

/-! ### Keys -/

/-- Everything stands under its key: the series kept under a key is the one that the key names, and
the source of an indicator is the series kept under the key from which its own was made. -/
structure Filed (m : Market) (h : Heap Series) : Prop where
  series : ∀ {k s}, m.series.get? k = some s →
    ∃ o x, s = ⟨some o⟩ ∧ h.objects.get? o = some x ∧ x.value.id.key = k
  indicators : ∀ {k a}, m.indicators.get? k = some a →
    ∃ key, m.series.get? key = some a.source ∧ k = Indicator.keyOf key a.kind

namespace Filed

variable {k k' : String} {a : Indicator} {kind : IndicatorKind}

/-- The series kept under the key of a series is the one asked for. -/
theorem id_of_series (hf : m.Filed h) (hk : m.series.get? i.key = some ⟨some o⟩) :
    ∃ x, h.objects.get? o = some x ∧ x.value.id = i := by
  obtain ⟨p, x, e, hx, hid⟩ := hf.series hk
  cases e
  exact ⟨x, hx, SeriesId.key_injective hid⟩

/-- The indicator kept under the key of an indicator is the one asked for. -/
theorem indicator_eq (hf : m.Filed h)
    (hk : m.indicators.get? (Indicator.keyOf i.key kind) = some a) :
    a.kind = kind ∧ m.series.get? i.key = some a.source := by
  obtain ⟨key, hkey, e⟩ := hf.indicators hk
  obtain ⟨rfl, rfl⟩ := Indicator.keyOf_injective e
  exact ⟨rfl, hkey⟩

/-- A series is kept under one key only. -/
theorem series_inj (hf : m.Filed h) (hk : m.series.get? k = some s)
    (hk' : m.series.get? k' = some s) : k = k' := by
  obtain ⟨o, x, rfl, hx, hid⟩ := hf.series hk
  obtain ⟨o', x', e, hx', hid'⟩ := hf.series hk'
  cases e
  obtain rfl := Option.some.inj (hx.symm.trans hx')
  exact hid.symm.trans hid'

end Filed

/-! ### Sound markets -/

structure Sound (m : Market) (h : Heap Series) (others : List Handle) : Prop where
  heap : h.Sound (m.series.handles ++ (m.indicators.handles ++ others))
  managed : ∀ {o x}, h.objects.get? o = some x → x.slot ≠ none
  series : ∀ {k s}, m.series.get? k = some s →
    ∃ o x, s = ⟨some o⟩ ∧ h.objects.get? o = some x ∧ x.value.id.key = k
  indicators : ∀ {k a}, m.indicators.get? k = some a →
    ∃ key, m.series.get? key = some a.source ∧ k = Indicator.keyOf key a.kind

/-- What `m` keeps is what `m'` keeps under the same keys. -/
structure Extends (m m' : Market) : Prop where
  series : ∀ {k s}, m.series.get? k = some s → m'.series.get? k = some s
  indicators : ∀ {k a}, m.indicators.get? k = some a → m'.indicators.get? k = some a

theorem Extends.refl (m : Market) : m.Extends m := ⟨id, id⟩

theorem Extends.trans (e₁ : m.Extends m₁) (e₂ : m₁.Extends m₂) : m.Extends m₂ :=
  ⟨fun hk => e₂.series (e₁.series hk), fun hk => e₂.indicators (e₁.indicators hk)⟩

/-- What one operation does to what a market keeps: nothing kept is lost, and at most one indicator
is put there, under a key that was free. -/
structure Grows (m m' : Market) : Prop where
  series : ∀ {k s}, m.series.get? k = some s → m'.series.get? k = some s
  indicators : m'.indicators = m.indicators ∨
    ∃ k a, m.indicators.get? k = none ∧ m'.indicators = m.indicators.insert k a

theorem Grows.refl (m : Market) : m.Grows m := ⟨id, .inl rfl⟩

theorem Grows.extends (hg : m.Grows m') : m.Extends m' where
  series := hg.series
  indicators {k a} hk := by
    rcases hg.indicators with e | ⟨k', a', hfree, e⟩
    · rwa [e]
    · have hne : k' ≠ k := by
        rintro rfl
        rw [hfree] at hk
        cases hk
      rw [e, Roster.get?_insert, if_neg hne, hk]

namespace Sound

theorem mem_of_series {k : String} (hk : m.series.get? k = some s) :
    .strong s ∈ m.series.handles ++ (m.indicators.handles ++ others) :=
  List.mem_append_left _ (Roster.mem_handles hk List.mem_cons_self)

theorem source_mem {k : String} {a : Indicator} (hk : m.indicators.get? k = some a) :
    .strong a.source ∈ m.series.handles ++ (m.indicators.handles ++ others) ++ h.stored :=
  List.mem_append_left _ (List.mem_append_right _ (List.mem_append_left _
    (Roster.mem_handles hk List.mem_cons_self)))

theorem managed_evolve (hs : m.Sound h others) (he : h.Evolves h')
    (hx : h'.objects.get? o = some x) : x.slot ≠ none := by
  rcases Nat.lt_or_ge o h.objects.next with hlt | hge
  · obtain ⟨y, hy, -, hslot⟩ := he.old hx hlt
    rw [hslot]
    exact hs.managed hy
  · exact he.new hx hge

/-- The heap of a market can change as long as the series stay what they are. -/
theorem evolve (hs : m.Sound h others) (he : h.Evolves h')
    (hs' : h'.Sound (m.series.handles ++ (m.indicators.handles ++ others'))) :
    m.Sound h' others' where
  heap := hs'
  managed hx := hs.managed_evolve he hx
  series {k s} hk := by
    obtain ⟨o, x, rfl, hx, hid⟩ := hs.series hk
    obtain ⟨x', hx'⟩ := Heap.Balanced.named hs' (List.mem_append_left _ (mem_of_series hk))
    obtain ⟨y, hy, hid', -⟩ := he.old hx' (Slab.lt_next_of_get? hx)
    obtain rfl := Option.some.inj (hx.symm.trans hy)
    exact ⟨o, x', rfl, hx', hid' ▸ hid⟩
  indicators := hs.indicators

theorem perm (hs : m.Sound h others) (hp : others.Perm others') : m.Sound h others' :=
  hs.evolve (.refl h) (hs.heap.perm ((hp.append_left _).append_left _))

/-- A handle is taken that the market does not keep. -/
theorem takes {t : Handle}
    (hs : m.Sound h others)
    (ht : h.Takes (m.series.handles ++ (m.indicators.handles ++ others) ++ h.stored) t h') :
    m.Sound h' (t :: others) ∧ h.Evolves h' := by
  have he : h.Evolves h' := .of_objects ht.objects
  refine ⟨hs.evolve he (ht.sound.perm ?_), he⟩
  exact List.perm_middle.symm.trans (List.perm_middle.symm.append_left _)

/-- A new object is put under a counter, and the market does not keep the handle. -/
theorem adopt (hs : m.Sound h others) (hh : x.handles = []) :
    m.Sound (h.adopt x) (.holding h.objects.next :: others) ∧ h.Evolves (h.adopt x) := by
  have he : h.Evolves (h.adopt x) := .of_adopt rfl
  refine ⟨hs.evolve he ((hs.heap.adopt hh).perm ?_), he⟩
  exact List.perm_middle.symm.trans (List.perm_middle.symm.append_left _)

/-- Handles that the market does not keep are released. -/
theorem release (hs : m.Sound h (pending ++ rest)) :
    ∃ h' log, h.release pending = .ok (h', log) ∧ m.Sound h' rest ∧ h.Evolves h' := by
  have hp : (m.series.handles ++ (m.indicators.handles ++ (pending ++ rest))).Perm
      (pending ++ (m.series.handles ++ (m.indicators.handles ++ rest))) :=
    ((List.perm_append_comm_assoc _ _ _).append_left _).trans (List.perm_append_comm_assoc _ _ _)
  obtain ⟨h', log, e, hs', hw, -⟩ := (hs.heap.perm hp).release
  have he : h.Evolves h' := .of_without hw
  exact ⟨h', log, e, hs.evolve he hs', he⟩

section Rosters

variable {β : Type} [Holder β] {r : Roster β} {b : β}

/-- Something is kept in a roster beside the market. -/
theorem store (hs : m.Sound h (Holder.handles b ++ (r.handles ++ rest))) (k : String) :
    ∃ h' log, r.store h k b = .ok (r.insert k b, h', log) ∧
      m.Sound h' ((r.insert k b).handles ++ rest) ∧ h.Evolves h' := by
  have hp := ((r.perm_handles_insert k b).append_right rest).symm
  rw [List.append_assoc, List.append_assoc] at hp
  obtain ⟨h', log, e, hs', he⟩ := (hs.perm hp).release
  exact ⟨h', log, Roster.store_eq e, hs', he⟩

/-- An entry of a roster beside the market is given up. -/
theorem discard (hs : m.Sound h (r.handles ++ rest)) (k : String) :
    ∃ h' log, r.discard h k = .ok (r.erase k, h', log) ∧
      m.Sound h' ((r.erase k).handles ++ rest) ∧ h.Evolves h' := by
  have hp := ((r.perm_handles_erase k).append_right rest).symm
  rw [List.append_assoc] at hp
  obtain ⟨h', log, e, hs', he⟩ := (hs.perm hp).release
  exact ⟨h', log, Roster.discard_eq e, hs', he⟩

end Rosters

theorem filed (hs : m.Sound h others) : m.Filed h := ⟨hs.series, hs.indicators⟩

/-- The series kept under the key of a series is the one asked for. -/
theorem id_of_series (hs : m.Sound h others) (hk : m.series.get? i.key = some ⟨some o⟩) :
    ∃ x, h.objects.get? o = some x ∧ x.value.id = i :=
  hs.filed.id_of_series hk

/-- The indicator kept under the key of an indicator is the one asked for. -/
theorem indicator_eq (hs : m.Sound h others) {kind : IndicatorKind} {a : Indicator}
    (hk : m.indicators.get? (Indicator.keyOf i.key kind) = some a) :
    a.kind = kind ∧ m.series.get? i.key = some a.source :=
  hs.filed.indicator_eq hk

/-- Series are kept only under the keys of series. -/
theorem exists_id (hs : m.Sound h others) {k : String} (hk : m.series.get? k = some s) :
    ∃ i : SeriesId, k = i.key := by
  obtain ⟨o, x, -, -, hid⟩ := hs.series hk
  exact ⟨x.value.id, hid.symm⟩

/-- Indicators are kept only under the keys of indicators. -/
theorem exists_kind (hs : m.Sound h others) {k : String} {a : Indicator}
    (hk : m.indicators.get? k = some a) :
    ∃ (i : SeriesId) (kind : IndicatorKind), k = Indicator.keyOf i.key kind := by
  obtain ⟨key, hkey, rfl⟩ := hs.indicators hk
  obtain ⟨i, rfl⟩ := hs.exists_id hkey
  exact ⟨i, a.kind, rfl⟩

/-- A series is kept under one key only. -/
theorem series_inj (hs : m.Sound h others) {k k' : String} (hk : m.series.get? k = some s)
    (hk' : m.series.get? k' = some s) : k = k' :=
  hs.filed.series_inj hk hk'

end Sound

/-! ### Operations -/

/-- A market that keeps a new series besides. -/
def withSeries (m : Market) (i : SeriesId) (o : ObjectId) : Market :=
  { m with series := m.series.insert i.key ⟨some o⟩ }

theorem get?_withSeries (m : Market) (i : SeriesId) (o : ObjectId) (k : String) :
    (m.withSeries i o).series.get? k = if i.key = k then some ⟨some o⟩ else m.series.get? k :=
  Roster.get?_insert _ _ _ _

theorem grows_withSeries (hk : m.series.get? i.key = none) (o : ObjectId) :
    m.Grows (m.withSeries i o) where
  series {k s} hk' := by
    have hne : i.key ≠ k := by
      rintro rfl
      rw [hk] at hk'
      cases hk'
    rw [get?_withSeries, if_neg hne, hk']
  indicators := .inl rfl

theorem Sound.withSeries (hs : m.Sound h others) (hk : m.series.get? i.key = none)
    (hobj : h'.objects = (h.adopt i.fresh).objects)
    (hs' : h'.Sound (.holding h.objects.next ::
      ((m.withSeries i h.objects.next).series.handles ++ (m.indicators.handles ++ others)))) :
    (m.withSeries i h.objects.next).Sound h' (.holding h.objects.next :: others) where
  heap := hs'.perm (List.perm_middle.symm.trans (List.perm_middle.symm.append_left _))
  managed hx := hs.managed_evolve (.of_adopt hobj) hx
  series {k s} hk' := by
    rw [get?_withSeries] at hk'
    split at hk'
    · next hki =>
      cases hk'
      have hid : i.fresh.value.id = i := rfl
      refine ⟨_, { i.fresh with slot := some h.counters.next }, rfl, ?_, by rw [hid, hki]⟩
      rw [hobj, Heap.adopt, Slab.get?_insert, if_pos rfl]
    · obtain ⟨o, x, rfl, hx, hid⟩ := hs.series hk'
      refine ⟨o, x, rfl, ?_, hid⟩
      rw [hobj, Heap.adopt, Slab.get?_insert, if_neg (Nat.ne_of_lt (Slab.lt_next_of_get? hx)), hx]
  indicators hka := by
    obtain ⟨key, hkey, e⟩ := hs.indicators hka
    exact ⟨key, (grows_withSeries hk _).series hkey, e⟩

/-- A market that keeps a new indicator besides. -/
def withIndicator (m : Market) (i : SeriesId) (kind : IndicatorKind) (source : Strong) : Market :=
  { m with indicators := m.indicators.insert (Indicator.keyOf i.key kind) ⟨kind, source⟩ }

theorem get?_withIndicator (m : Market) (i : SeriesId) (kind : IndicatorKind) (s : Strong)
    (k : String) : (m.withIndicator i kind s).indicators.get? k =
      if Indicator.keyOf i.key kind = k then some ⟨kind, s⟩ else m.indicators.get? k :=
  Roster.get?_insert _ _ _ _

theorem Sound.withIndicator {kind : IndicatorKind} (hs : m.Sound h (.strong s :: others))
    (hk : m.indicators.get? (Indicator.keyOf i.key kind) = none)
    (hkey : m.series.get? i.key = some s) : (m.withIndicator i kind s).Sound h others where
  heap := by
    have hp := m.indicators.perm_handles_insert (Indicator.keyOf i.key kind) ⟨kind, s⟩
    have hfree : m.indicators.handlesAt (Indicator.keyOf i.key kind) = [] := by
      rw [Roster.handlesAt, hk]
      rfl
    rw [hfree, List.nil_append] at hp
    exact hs.heap.perm ((List.perm_middle.trans (hp.symm.append_right others)).append_left _)
  managed := hs.managed
  series := hs.series
  indicators {k a} hk' := by
    rw [get?_withIndicator] at hk'
    split at hk'
    · next e =>
      cases hk'
      exact ⟨i.key, hkey, e.symm⟩
    · exact hs.indicators hk'

/-- A series is opened: the handle is on the one that is kept under its key, now if not before. -/
theorem Sound.openSeries (hs : m.Sound h others) (i : SeriesId) :
    ∃ m' h' o, m.openSeries h i = .ok (m', h', ⟨some o⟩) ∧ m'.Sound h' (.holding o :: others) ∧
      m.Grows m' ∧ m'.indicators = m.indicators ∧ h.Evolves h' ∧
      m'.series.get? i.key = some ⟨some o⟩ := by
  cases hk : m.series.get? i.key with
  | some s =>
    obtain ⟨o, x, rfl, -⟩ := hs.series hk
    obtain ⟨h', e, ht⟩ := Roster.lendOrMake_of_get? (x := i.fresh) hk hs.heap
    obtain ⟨hs', he⟩ := hs.takes ht
    exact ⟨m, h', o, by simp [Market.openSeries, e, bind, Except.bind], hs', .refl m, rfl, he, hk⟩
  | none =>
    obtain ⟨h', e, hs', -, hobj⟩ :=
      Roster.lendOrMake_of_get?_eq_none (x := i.fresh) hk rfl rfl hs.heap
    refine ⟨m.withSeries i h.objects.next, h', h.objects.next, ?_, hs.withSeries hk hobj hs',
      grows_withSeries hk _, rfl, .of_adopt hobj, ?_⟩
    · simp only [Market.openSeries, e, Market.withSeries, bind, Except.bind]
    · rw [get?_withSeries, if_pos rfl]

theorem feedSeries_eq (hx : h.objects.get? o = some x) (bars : List Bar) :
    feedSeries h ⟨some o⟩ bars =
      .ok (h.setObject o fun y => { y with value := (x.value.feed bars).1 },
        some (x.value.feed bars).2) := by
  simp only [feedSeries, Heap.object_eq_ok_iff.2 hx, bind, Except.bind]

theorem Sound.feed (hs : m.Sound h others) (hx : h.objects.get? o = some x) (bars : List Bar) :
    ∃ h' n, feedSeries h ⟨some o⟩ bars = .ok (h', some n) ∧ m.Sound h' others ∧ h.Evolves h' := by
  have he : h.Evolves (h.setObject o fun y => { y with value := (x.value.feed bars).1 }) :=
    .of_setObject hx (x.value.id_feed bars)
  refine ⟨_, (x.value.feed bars).2, feedSeries_eq hx bars, hs.evolve he ?_, he⟩
  exact hs.heap.setObject hx (fun _ => rfl) (.refl _)

theorem Sound.load (hs : m.Sound h others) (i : SeriesId) (bars : List Bar) :
    ∃ m' h' o n, m.load h i bars = .ok (m', h', ⟨some o⟩, n) ∧ m'.Sound h' (.holding o :: others) ∧
      m.Grows m' ∧ h.Evolves h' ∧ m'.series.get? i.key = some ⟨some o⟩ := by
  obtain ⟨m', h₁, o, e, hs₁, hg, -, he, hk⟩ := hs.openSeries i
  obtain ⟨x, hx, -⟩ := hs₁.id_of_series hk
  obtain ⟨h', n, e', hs', he'⟩ := hs₁.feed hx bars
  exact ⟨m', h', o, n, by simp [Market.load, e, e', bind, Except.bind], hs', hg, he.trans he', hk⟩

/-- The indicator asked for is the one that is kept under its key, now if not before, and its source
is the series that is kept under the key of the series asked for. -/
theorem Sound.indicator (hs : m.Sound h others) (i : SeriesId) (kind : IndicatorKind) :
    ∃ m' h' a, m.indicator h i kind = .ok (m', h', a) ∧ m'.Sound h' others ∧ m.Grows m' ∧
      h.Evolves h' ∧ m'.indicators.get? (Indicator.keyOf i.key kind) = some a ∧ a.kind = kind ∧
      m'.series.get? i.key = some a.source := by
  cases hk : m.indicators.get? (Indicator.keyOf i.key kind) with
  | some a =>
    obtain ⟨hkind, hkey⟩ := hs.indicator_eq hk
    exact ⟨m, h, a, by simp [Market.indicator, hk], hs, .refl m, .refl h, hk, hkind, hkey⟩
  | none =>
    obtain ⟨m₁, h₁, o, e, hs₁, hg, hind, he, hkey⟩ := hs.openSeries i
    have hnone : m₁.indicators.get? (Indicator.keyOf i.key kind) = none := by rw [hind, hk]
    have hfree : m₁.indicators.handlesAt (Indicator.keyOf i.key kind) = [] := by
      rw [Roster.handlesAt, hnone]
      rfl
    have est : m₁.indicators.store h₁ (Indicator.keyOf i.key kind) ⟨kind, ⟨some o⟩⟩ =
        .ok (m₁.indicators.insert (Indicator.keyOf i.key kind) ⟨kind, ⟨some o⟩⟩, h₁, []) :=
      Roster.store_eq (by rw [hfree, Heap.release_nil])
    refine ⟨m₁.withIndicator i kind ⟨some o⟩, h₁, ⟨kind, ⟨some o⟩⟩, ?_,
      hs₁.withIndicator hnone hkey, ⟨hg.series, .inr ⟨_, ⟨kind, ⟨some o⟩⟩, hk, ?_⟩⟩, he, ?_, rfl,
      hkey⟩
    · simp only [Market.indicator, hk, e, est, Market.withIndicator, bind, Except.bind]
    · rw [Market.withIndicator, hind]
    · rw [get?_withIndicator, if_pos rfl]

/-- A handle on the series under a key is given out, if there is one. -/
theorem Sound.trySeries (hs : m.Sound h others) {k : String} (hk : m.series.get? k = some s) :
    ∃ h', m.trySeries h k = .ok (h', some s) ∧ m.Sound h' (.strong s :: others) ∧ h.Evolves h' := by
  obtain ⟨h', e, ht⟩ := Roster.lend_of_get? hk hs.heap
  exact ⟨h', e, hs.takes ht⟩

theorem trySeries_of_get?_eq_none {k : String} (hk : m.series.get? k = none) :
    m.trySeries h k = .ok (h, none) :=
  Roster.lend_of_get?_eq_none hk

/-- The series under a key is observed, if there is one. -/
theorem Sound.observe (hs : m.Sound h others) {k : String} (hk : m.series.get? k = some ⟨some o⟩) :
    ∃ h' c, m.observe h k = .ok (h', ⟨some c⟩) ∧ m.Sound h' (.watching c :: others) ∧
      h.Evolves h' ∧ h'.visible ⟨some c⟩ = .ok (some o) := by
  obtain ⟨h₁, e₁, hs₁, he₁⟩ := hs.trySeries hk
  obtain ⟨x, hx⟩ := Heap.Balanced.named hs₁.heap (List.mem_append_left _ (mem_of_series hk))
  obtain ⟨c, hc⟩ := Option.ne_none_iff_exists'.1 (hs₁.managed hx)
  obtain ⟨hs₂, he₂⟩ := hs₁.takes (Heap.Balanced.takes_countWeak hs₁.heap hx hc)
  have hs₃ : m.Sound (h₁.countWeak c) ([.holding o] ++ .watching c :: others) :=
    hs₂.perm (.swap _ _ _)
  obtain ⟨h', log, e', hs', he'⟩ := hs₃.release
  -- the market still keeps the series, so its slot holds the same counter
  obtain ⟨x', hx'⟩ := Heap.Balanced.named hs'.heap (List.mem_append_left _ (mem_of_series hk))
  obtain ⟨y, hy, -, hslot⟩ := (he₂.trans he').old hx' (Slab.lt_next_of_get? hx)
  obtain rfl := Option.some.inj (hx.symm.trans hy)
  refine ⟨h', c, ?_, hs', (he₁.trans he₂).trans he',
    Heap.Balanced.visible_of_slot hs'.heap hx' (hslot.trans hc)⟩
  simp [Market.observe, e₁, Heap.downgrade, Heap.Balanced.observe_of_slot hs₁.heap hx hc, e', bind,
    Except.bind]

theorem observe_of_get?_eq_none {k : String} (hk : m.series.get? k = none) :
    m.observe h k = .ok (h, ⟨none⟩) := by
  simp [Market.observe, trySeries_of_get?_eq_none hk, bind, Except.bind]

theorem sound_empty {h : Heap Series} (hs : h.Sound others)
    (hm : ∀ {o x}, h.objects.get? o = some x → x.slot ≠ none) : ({} : Market).Sound h others where
  heap := hs
  managed := hm
  series hk := by cases hk
  indicators hk := by cases hk

/-- Shutting a market down releases everything that it keeps. -/
theorem Sound.shutdown (hs : m.Sound h others) :
    ∃ h', m.shutdown h = .ok h' ∧ ({} : Market).Sound h' others ∧ h.Evolves h' := by
  obtain ⟨h₁, l₁, e₁, hs₁, hw₁, -⟩ := (hs.heap.perm (List.perm_append_comm_assoc _ _ _)).release
  obtain ⟨h₂, l₂, e₂, hs₂, hw₂, -⟩ := hs₁.release
  have he : h.Evolves h₂ := (Heap.Evolves.of_without hw₁).trans (.of_without hw₂)
  refine ⟨h₂, ?_, sound_empty hs₂ (hs.managed_evolve he), he⟩
  simp [Market.shutdown, Market.clear, Roster.releaseAll, e₁, e₂, bind, Except.bind]

end Market

end Custody
