import Custody.Proofs.Market.Users
import Custody.Proofs.Ownership.Growth
import Custody.Proofs.Roster

/-!
# Who holds a series

Whatever its user does, a market ties its indicators to its series (`MarketSession.Tied`): the
source of an indicator is the series that is kept under the key which its own key is made from, so
its values are averages of what that series holds at the moment.  The handles on a series are the
one of the market, one for each indicator over it, and those that the user holds; this is what its
strong count says, and it says which series survive a shutdown.
-/

namespace Custody

namespace Market

variable {m : Market} {h : Heap Series} {others : List Handle} {o : ObjectId} {x : Object Series}

/-- How many of the indicators that the market keeps are over the series at `o`. -/
def readers (m : Market) (o : ObjectId) : Nat := m.indicators.values.countP (·.source = ⟨some o⟩)

theorem count_handles_indicators (m : Market) (o : ObjectId) :
    m.indicators.handles.count (.holding o) = m.readers o := by
  have e : m.indicators.handles = m.indicators.values.map fun a => .strong a.source := by
    rw [Roster.handles, List.map_eq_flatMap]
    rfl
  rw [e, List.count, List.countP_map, readers]
  exact List.countP_congr fun a _ => by simp

/-- A market keeps one handle on each of its series. -/
theorem Filed.count_series (hf : m.Filed h) {k : String} (hk : m.series.get? k = some ⟨some o⟩) :
    m.series.handles.count (.holding o) = 1 := by
  rw [Roster.count_handles]
  exact Roster.count_values_eq_one hk fun k' hk' => hf.series_inj hk' hk

/-- An indicator is kept under one key only. -/
theorem Filed.nodup_indicators (hf : m.Filed h) : m.indicators.values.Nodup := by
  refine List.Nodup.map_on ?_ m.indicators.nodup_entries
  rintro ⟨k, a⟩ hk ⟨k', a'⟩ hk' e
  obtain rfl : a = a' := e
  obtain ⟨key, hkey, rfl⟩ := hf.indicators (Roster.mem_entries_iff.1 hk)
  obtain ⟨key', hkey', rfl⟩ := hf.indicators (Roster.mem_entries_iff.1 hk')
  rw [hf.series_inj hkey hkey']

/-- There are as many indicators over a series as kinds that are kept for its key. -/
theorem Filed.readers_eq_card (hf : m.Filed h) {k : String}
    (hk : m.series.get? k = some ⟨some o⟩) {S : Finset IndicatorKind}
    (hS : ∀ kind, kind ∈ S ↔ ∃ a, m.indicators.get? (Indicator.keyOf k kind) = some a) :
    m.readers o = S.card := by
  -- indicators over one series differ in their kinds
  have hnd : ((m.indicators.values.filter (·.source = ⟨some o⟩)).map Indicator.kind).Nodup := by
    refine (hf.nodup_indicators.filter _).map_on fun a ha a' ha' e => ?_
    have hs := of_decide_eq_true (List.mem_filter.1 ha).2
    have hs' := of_decide_eq_true (List.mem_filter.1 ha').2
    cases a
    cases a'
    exact congr (congrArg Indicator.mk e) (hs.trans hs'.symm)
  have hmem : ((m.indicators.values.filter (·.source = ⟨some o⟩)).map Indicator.kind).toFinset =
      S := by
    ext kind
    simp only [List.mem_toFinset, List.mem_map, List.mem_filter, decide_eq_true_eq,
      Roster.mem_values_iff, hS]
    constructor
    · rintro ⟨a, ⟨⟨k', hk'⟩, ha⟩, rfl⟩
      obtain ⟨key, hkey, rfl⟩ := hf.indicators hk'
      rw [ha] at hkey
      rw [hf.series_inj hk hkey]
      exact ⟨a, hk'⟩
    · rintro ⟨a, ha⟩
      obtain ⟨key, hkey, e⟩ := hf.indicators ha
      obtain ⟨rfl, rfl⟩ := Indicator.keyOf_injective e
      exact ⟨a, ⟨⟨_, ha⟩, Option.some.inj (hkey.symm.trans hk)⟩, rfl⟩
  rw [readers, List.countP_eq_length_filter, ← hmem, List.toFinset_card_of_nodup hnd,
    List.length_map]

/-- Where no series stores handles, the strong count of a series says how many handles on it there
are, in the market and outside. -/
theorem Sound.strongCount (hs : m.Sound h others) (hn : h.stored = [])
    (hx : h.objects.get? o = some x) :
    h.strongCount ⟨some o⟩ = .ok
      (m.series.handles.count (.holding o) + m.readers o + others.count (.holding o)) := by
  obtain ⟨c, hc⟩ := Option.ne_none_iff_exists'.1 (hs.managed hx)
  rw [hs.heap.strongCount_eq hx hc, hn, List.count_nil, List.count_append, List.count_append,
    count_handles_indicators, Nat.add_zero, Nat.add_assoc]

/-- A series is there as long as something holds it. -/
theorem Sound.there_iff (hs : m.Sound h others) (hn : h.stored = []) :
    (∃ x, h.objects.get? o = some x) ↔
      .holding o ∈ m.series.handles ++ (m.indicators.handles ++ others) := by
  constructor
  · rintro ⟨x, hx⟩
    obtain ⟨c, hc⟩ := Option.ne_none_iff_exists'.1 (hs.managed hx)
    simpa [hn] using (Heap.Balanced.attached hs.heap hx hc).1
  · exact fun hm => Heap.Balanced.named hs.heap (List.mem_append_left _ hm)

end Market

theorem Heap.Sound.release_objects {α : Type} {h h' : Heap α} {pending rest : List Handle}
    {log : List (DropRecord α)} {o : ObjectId} {y : Object α} (hs : h.Sound (pending ++ rest))
    (e : h.release pending = .ok (h', log)) (hy : h'.objects.get? o = some y) :
    h.objects.get? o = some y := by
  obtain ⟨h₁, log₁, e₁, -, hw, -⟩ := hs.release
  cases e.symm.trans e₁
  exact (hw.get?_of_get? hy).1

theorem Indicator.values_eq {h : Heap Series} {a : Indicator} {o : ObjectId} {x : Object Series}
    (hx : h.objects.get? o = some x) (ha : a.source = ⟨some o⟩) (mode : Arithmetic) :
    a.values mode h = .ok (a.kind.compute mode x.value.values) := by
  simp only [Indicator.values, Indicator.stored, ha, Heap.object_eq_ok_iff.2 hx, bind, Except.bind]

/-- The handles of a market, those outside it first. -/
theorem Market.Sound.outer {m : Market} {h : Heap Series} {others : List Handle}
    (hs : m.Sound h others) :
    h.Sound (others ++ (m.series.handles ++ m.indicators.handles)) := by
  refine hs.heap.perm ?_
  rw [← List.append_assoc]
  exact List.perm_append_comm

namespace MarketSession

variable {s s' : MarketSession} {h : Heap Series} {o : ObjectId} {x y : Object Series}
  {a : Indicator} {k name : String} {reply reply' : MarketReply} {bars : List Bar}
  {i : SeriesId} {z : Strong} {dst : Option String}

/-- How many strong handles on the series at `o` the user holds, those inside the user's own
indicators among them. -/
def holders (s : MarketSession) (o : ObjectId) : Nat := s.outside.count (.holding o)

theorem holders_eq (s : MarketSession) (o : ObjectId) :
    s.holders o = s.held.handles.count (.holding o) + s.kept.handles.count (.holding o) := by
  rw [holders, outside, List.count_append, List.count_append, Roster.count_handles_weak,
    Nat.zero_add]

/-! ### What indicators read -/

/-- Keeping a handle leaves every series that is still there as it was. -/
theorem keep_objects (hs : s.market.Sound h (.strong z :: s.outside))
    (e : s.keep dst h z reply = .ok (s', reply')) (hy : s'.heap.objects.get? o = some y) :
    h.objects.get? o = some y := by
  have hs' := hs.outer
  cases dst with
  | none =>
    obtain ⟨⟨h', log⟩, er, e⟩ := bind_eq_ok_iff.1 e
    cases e
    rw [List.cons_append] at hs'
    have hs₁ : h.Sound ([.strong z] ++ (s.outside ++
        (s.market.series.handles ++ s.market.indicators.handles))) := hs'
    exact hs₁.release_objects er hy
  | some name =>
    obtain ⟨⟨r, h', log⟩, er, e⟩ := bind_eq_ok_iff.1 e
    cases e
    obtain ⟨⟨h₁, log₁⟩, el, e₁⟩ := bind_eq_ok_iff.1 er
    cases e₁
    rw [outside, List.cons_append, List.append_assoc] at hs'
    exact Heap.Sound.release_objects (Roster.sound_insert (b := z) name hs') el hy

theorem move_feed (hn : s.held.get? name = some ⟨some o⟩) (hx : s.heap.objects.get? o = some x)
    (bars : List Bar) : (s.move (.command (.feed name bars))).heap.objects.get? o =
      some { x with value := (x.value.feed bars).1 } := by
  simp only [move, act, exec, heldAt, hn, Option.elim_some, Market.feedSeries_eq hx, bind,
    Except.bind]
  exact Heap.get?_setObject_self hx _

theorem move_load (hs : s.Sound) (hk : s.market.series.get? i.key = some ⟨some o⟩)
    (hx : s.heap.objects.get? o = some x) (dst : Option String) (bars : List Bar) :
    (s.move (.command (.load dst i bars))).heap.objects.get? o =
      some { x with value := (x.value.feed bars).1 } := by
  obtain ⟨h₁, e₁, ht⟩ := Roster.lendOrMake_of_get? (x := i.fresh) hk hs.heap
  have hx₁ : h₁.objects.get? o = some x := by rw [ht.objects, hx]
  have eload : s.market.load s.heap i bars = .ok (s.market,
      h₁.setObject o fun y => { y with value := (x.value.feed bars).1 }, ⟨some o⟩,
      (x.value.feed bars).2) := by
    simp [Market.load, Market.openSeries, e₁, Market.feedSeries_eq hx₁, bind, Except.bind]
  obtain ⟨m, h₂, p, n, e₂, hs₂, -⟩ := Market.Sound.load hs i bars
  cases eload.symm.trans e₂
  obtain ⟨s', e', hs', hm, -⟩ := keep_ok hs₂ dst (.count (x.value.feed bars).2)
  have hmove : s.move (.command (.load dst i bars)) = s' := by
    have e : s.exec (.load dst i bars) = .ok (s', .count (x.value.feed bars).2) := by
      simpa only [exec, eload, bind, Except.bind] using e'
    rw [move, act, e]
  -- the market still keeps the series, so it is there, and as it was before the handle was kept
  obtain ⟨y, hy⟩ := Heap.Balanced.named hs'.heap
    (List.mem_append_left _ (Market.Sound.mem_of_series (hm ▸ hk)))
  rw [hmove, hy, ← keep_objects hs₂ e' hy]
  exact Heap.get?_setObject_self hx₁ _

/-! ### What observing costs -/

theorem exec_observe_shape {dst key : String} (e : s.exec (.observe dst key) = .ok (s', reply)) :
    s'.market = s.market ∧ s'.held = s.held ∧ s'.kept = s.kept := by
  simp only [exec] at e
  obtain ⟨⟨h, w⟩, -, e⟩ := bind_eq_ok_iff.1 e
  obtain ⟨⟨r, h', log⟩, -, e⟩ := bind_eq_ok_iff.1 e
  cases e
  exact ⟨rfl, rfl, rfl⟩

/-- Observing a series changes no strong count. -/
theorem strongCount_observe (hs : s.Sound) (hn : s.heap.stored = [])
    (hx : s.heap.objects.get? o = some x) (dst key : String) :
    (s.move (.command (.observe dst key))).heap.strongCount ⟨some o⟩ =
      s.heap.strongCount ⟨some o⟩ := by
  have hs₁ := move_sound hs (.command (.observe dst key))
  cases e : s.exec (.observe dst key) with
  | error f => rw [move, act, e]
  | ok r =>
    obtain ⟨s', reply⟩ := r
    have hmove : s.move (.command (.observe dst key)) = s' := by rw [move, act, e]
    rw [hmove] at hs₁ ⊢
    obtain ⟨hm, hheld, hkept⟩ := exec_observe_shape e
    have hn₁ := stored_exec e hn
    have hholders : s'.outside.count (.holding o) = s.outside.count (.holding o) := by
      rw [← holders, ← holders, holders_eq, holders_eq, hheld, hkept]
    have hthere : ∃ y, s'.heap.objects.get? o = some y := by
      rw [Market.Sound.there_iff hs₁ hn₁, hm, ← List.count_pos_iff, List.count_append,
        List.count_append, hholders, ← List.count_append, ← List.count_append,
        List.count_pos_iff, ← Market.Sound.there_iff hs hn]
      exact ⟨x, hx⟩
    obtain ⟨y, hy⟩ := hthere
    rw [Market.Sound.strongCount hs₁ hn₁ hy, Market.Sound.strongCount hs hn hx, hm, hholders]

/-! ### Shutting down and asking again -/

/-- A shutdown releases what the market keeps, and a series stays if the user holds it. -/
theorem exec_shutdown (hs : s.Sound) (hn : s.heap.stored = []) :
    ∃ h, s.exec .shutdown = .ok ({ s with heap := h, market := {} },
        .released s.market.indicators.size s.market.series.size) ∧
      ∀ o, (∃ x, h.objects.get? o = some x) ↔ 0 < s.holders o := by
  obtain ⟨h, e, hs', -⟩ := Market.Sound.shutdown hs
  have hn' := Market.stored_shutdown e hn
  refine ⟨h, by simp only [exec, e, bind, Except.bind], fun o => ?_⟩
  rw [Market.Sound.there_iff hs' hn', holders, List.count_pos_iff]
  exact Iff.rfl

/-- A series that the market does not keep is made when it is asked for. -/
theorem openSeries_renews (hs : s.Sound) (hk : s.market.series.get? i.key = none) :
    ∃ m h o x, s.market.openSeries s.heap i = .ok (m, h, ⟨some o⟩) ∧
      s.heap.objects.get? o = none ∧ m.series.get? i.key = some ⟨some o⟩ ∧
      h.objects.get? o = some x ∧ x.value = i.fresh.value := by
  obtain ⟨h, e, -, -, hobj⟩ :=
    Roster.lendOrMake_of_get?_eq_none (x := i.fresh) hk rfl rfl hs.heap
  refine ⟨s.market.withSeries i s.heap.objects.next, h, s.heap.objects.next,
    { i.fresh with slot := some s.heap.counters.next }, ?_,
    Slab.get?_eq_none_of_next_le (Nat.le_refl _), ?_, ?_, rfl⟩
  · simp only [Market.openSeries, e, Market.withSeries, bind, Except.bind]
  · rw [Market.get?_withSeries, if_pos rfl]
  · rw [hobj, Heap.adopt, Slab.get?_insert, if_pos rfl]

/-! ### Ties -/

/-- What ties the indicators of a market, its series and their holders together. -/
structure Tied (s : MarketSession) : Prop where
  /-- The source of an indicator is the series kept under the key that its own key is made from, and
  the values of the indicator, in any build, are averages of what this series holds now. -/
  current : ∀ k a, s.market.indicators.get? k = some a → ∃ i o x,
    k = Indicator.keyOf i.key a.kind ∧ s.market.series.get? i.key = some a.source ∧
    a.source = ⟨some o⟩ ∧ s.heap.objects.get? o = some x ∧ x.value.id = i ∧
    ∀ mode, a.values mode s.heap = .ok (a.kind.compute mode x.value.values)
  /-- Bars that are fed to the source through any handle on it show in the values. -/
  fed : ∀ k a name bars, s.market.indicators.get? k = some a → s.held.get? name = some a.source →
    ∃ o x, a.source = ⟨some o⟩ ∧ s.heap.objects.get? o = some x ∧
      ∀ mode, a.values mode (s.move (.command (.feed name bars))).heap =
        .ok (a.kind.compute mode (x.value.feed bars).1.values)
  /-- So do bars that the market loads. -/
  loaded : ∀ k a i dst bars, s.market.indicators.get? k = some a →
    s.market.series.get? i.key = some a.source →
    ∃ o x, a.source = ⟨some o⟩ ∧ s.heap.objects.get? o = some x ∧
      ∀ mode, a.values mode (s.move (.command (.load dst i bars))).heap =
        .ok (a.kind.compute mode (x.value.feed bars).1.values)
  /-- The strong handles on a series are that of the market, one for each indicator over it, and
  those of the user. -/
  counted : ∀ k z, s.market.series.get? k = some z → ∃ o, z = ⟨some o⟩ ∧
    s.heap.strongCount z = .ok (1 + s.market.readers o + s.holders o)
  /-- Observing changes no strong count. -/
  observed : ∀ o x dst key, s.heap.objects.get? o = some x →
    (s.move (.command (.observe dst key))).heap.strongCount ⟨some o⟩ = s.heap.strongCount ⟨some o⟩
  /-- A shutdown tells how many indicators and series the market kept, and leaves an empty one.  A
  series stays if and only if the user holds it. -/
  shut : ∃ h, s.exec .shutdown = .ok ({ s with heap := h, market := {} },
      .released s.market.indicators.size s.market.series.size) ∧
    ∀ o, (∃ x, h.objects.get? o = some x) ↔ 0 < s.holders o
  /-- A series that the market does not keep, never or no longer, is made anew when it is asked
  for. -/
  renewed : ∀ i, s.market.series.get? i.key = none → ∃ m h o x,
    s.market.openSeries s.heap i = .ok (m, h, ⟨some o⟩) ∧ s.heap.objects.get? o = none ∧
    m.series.get? i.key = some ⟨some o⟩ ∧ h.objects.get? o = some x ∧ x.value = i.fresh.value

theorem Sound.source (hs : s.Sound) (hk : s.market.indicators.get? k = some a) :
    ∃ i o x, k = Indicator.keyOf i.key a.kind ∧ s.market.series.get? i.key = some a.source ∧
      a.source = ⟨some o⟩ ∧ s.heap.objects.get? o = some x ∧ x.value.id = i := by
  obtain ⟨key, hkey, rfl⟩ := Market.Sound.indicators hs hk
  obtain ⟨o, x, ho, hx, rfl⟩ := Market.Sound.series hs hkey
  exact ⟨x.value.id, o, x, rfl, hkey, ho, hx, rfl⟩

/-- Whatever the user of a market does, its indicators do not go stale: their sources are the series
that the market keeps, every series has the handles that it should have and no more, and a shutdown
ends the series that nobody else holds. -/
theorem moves_tied (us : List UserMove) : (moves {} us).Tied := by
  have hs := moves_sound sound_empty us
  have hn := moves_flat (s := {}) rfl us
  generalize moves {} us = s at hs hn
  refine ⟨fun k a hk => ?_, fun k a name bars hk hheld => ?_, fun k a i dst bars hk hkey => ?_,
    fun k z hk => ?_, fun o x dst key hx => strongCount_observe hs hn hx dst key,
    exec_shutdown hs hn, fun i hk => openSeries_renews hs hk⟩
  · obtain ⟨i, o, x, e, hkey, ho, hx, hid⟩ := Sound.source hs hk
    exact ⟨i, o, x, e, hkey, ho, hx, hid, Indicator.values_eq hx ho⟩
  · obtain ⟨-, o, x, -, -, ho, hx, -⟩ := Sound.source hs hk
    exact ⟨o, x, ho, hx, Indicator.values_eq (move_feed (ho ▸ hheld) hx bars) ho⟩
  · obtain ⟨-, o, x, -, -, ho, hx, -⟩ := Sound.source hs hk
    exact ⟨o, x, ho, hx, Indicator.values_eq (move_load hs (ho ▸ hkey) hx dst bars) ho⟩
  · obtain ⟨o, x, rfl, hx, -⟩ := Market.Sound.series hs hk
    refine ⟨o, rfl, ?_⟩
    rw [Market.Sound.strongCount hs hn hx, (Market.Sound.filed hs).count_series hk, holders]

end MarketSession

end Custody
