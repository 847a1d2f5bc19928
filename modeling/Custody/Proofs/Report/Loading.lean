import Custody.Proofs.Market.Built
import Custody.Proofs.Ownership.Safety
import Custody.Report.Pipeline

/-!
# Loading

`Loading.Built b kept s` says what is true of a run between two codes, when it began on the heap `b`
beside the handles `kept`: its market was built on `b`, it observes nothing that `b` had, and it has
dropped nothing yet.  Loading the bars of one code keeps this and does what `Loading.Adds` says
(`Built.addBars`), and so does asking for all codes, whatever the port answers: the run stops at the
first answer that is a failure (`Built.addCodes`).
-/

namespace Custody.Pipeline

/-! ### Answers -/

/-- Why an answer of a port ends the loading, if it does. -/
def failure : Except Error (List Bar) → Option Error
  | .ok _ | .error (.noData ..) => none
  | .error e => some e

/-- The bars that are loaded upon an answer of a port. -/
def barsIn : Except Error (List Bar) → List Bar
  | .ok bars => bars
  | .error _ => []

/-- What a port answers that was asked some questions before and now is asked for some codes, one
after the other. -/
def answersFrom (p : LoadPlan) (port : Port) (asked : List Query) :
    List String → List (Except Error (List Bar))
  | [] => []
  | c :: cs =>
    port asked (queryOf p c) :: answersFrom p port (asked ++ [queryOf p c]) cs

/-- What a port answers to the questions of a plan. -/
def answers (p : LoadPlan) (port : Port) : List (Except Error (List Bar)) :=
  answersFrom p port [] p.codes

/-- The key of the series into which the bars of a code are loaded. -/
def keyOf (p : LoadPlan) (code : String) : String := (seriesOf p code).key

namespace Loading

variable {b : Heap Series} {kept others : List Handle} {s s' : Loading} {p : LoadPlan}
  {port : Port} {i : SeriesId} {o : ObjectId} {x : Object Series} {c : String} {cs ds : List String}
  {bars : List Bar} {w : Weak}

/-- What holds of a run between two codes. -/
structure Built (b : Heap Series) (kept : List Handle) (s : Loading) : Prop where
  market : s.market.Built b s.heap (s.observers.map .weak ++ kept)
  observers : ∀ w ∈ s.observers, ∃ c, w = ⟨some c⟩ ∧ b.counters.next ≤ c
  closed : s.closed = []
  log : s.log = []

theorem Built.start (hb : b.Sound kept) : ({ heap := b } : Loading).Built b kept where
  market := .start hb
  observers := nofun
  closed := rfl
  log := rfl

/-! ### One code -/

theorem addIndicators_ok (hm : s.market.Built b s.heap others)
    (hk : s.market.series.get? i.key = some ⟨some o⟩) (kinds : List IndicatorKind) :
    ∃ m h, s.addIndicators i kinds = .ok { s with market := m, heap := h } ∧
      m.Built b h others ∧ s.market.Extends m ∧ m.series = s.market.series ∧
      h.objects = s.heap.objects ∧
      ∀ k kind, m.kindAt k = some kind ↔
        s.market.kindAt k = some kind ∨ kind ∈ kinds ∧ k = Indicator.keyOf i.key kind := by
  induction kinds generalizing s with
  | nil => exact ⟨s.market, s.heap, rfl, hm, .refl _, rfl, rfl, by simp⟩
  | cons kind kinds ih =>
    obtain ⟨m₁, h₁, a, e₁, hm₁, hg₁, hs₁, ho₁, hkind₁⟩ := hm.indicator hk kind
    obtain ⟨m, h, e, hm', hext, hs', ho, hkind⟩ :=
      ih (s := { s with market := m₁, heap := h₁ }) hm₁ (by rw [hs₁, hk])
    refine ⟨m, h, by simp only [addIndicators, e₁, e, bind, Except.bind], hm',
      hg₁.extends.trans hext, hs'.trans hs₁, ho.trans ho₁, fun k kind' => ?_⟩
    rw [hkind, hkind₁, List.mem_cons, or_and_right, or_assoc]

/-- A series that is held is observed, now if not before. -/
theorem observe_ok (hm : s.market.Built b s.heap (.holding o :: (s.observers.map .weak ++ kept)))
    (hobs : ∀ w ∈ s.observers, ∃ c, w = ⟨some c⟩ ∧ b.counters.next ≤ c)
    (hle : b.objects.next ≤ o) :
    ∃ h ws, s.observe ⟨some o⟩ = .ok { s with heap := h, observers := ws } ∧
      s.market.Built b h (.holding o :: (ws.map .weak ++ kept)) ∧
      (∀ w ∈ ws, ∃ c, w = ⟨some c⟩ ∧ b.counters.next ≤ c) ∧ h.objects = s.heap.objects := by
  have hmem : ∀ t ∈ .holding o :: (s.observers.map .weak ++ kept), t ∈ s.market.series.handles ++
      (s.market.indicators.handles ++ (.holding o :: (s.observers.map .weak ++ kept))) ++
        s.heap.stored := fun t ht =>
    List.mem_append_left _ (List.mem_append_right _ (List.mem_append_right _ ht))
  have hseen : ∀ w ∈ s.observers, ∃ r, s.heap.visible w = .ok r := fun w hw => by
    have hw' := hmem (.weak w) (List.mem_cons_of_mem _ (List.mem_append_left _
      (List.mem_map_of_mem hw)))
    rcases Heap.Balanced.visible hm.heap hw' with e | ⟨o, -, -, -, e, -⟩
    · exact ⟨_, e⟩
    · exact ⟨_, e⟩
  obtain ⟨seen, e⟩ := Session.mapM_ok hseen
  by_cases hc : seen.contains (some o)
  · refine ⟨s.heap, s.observers, ?_, hm, hobs, rfl⟩
    simp only [observe, e, hc, bind, Except.bind, if_true]
  · obtain ⟨x, hx⟩ := Heap.Balanced.named hm.heap (hmem (.holding o) List.mem_cons_self)
    obtain ⟨y, c, hy, hslot, hnew, -⟩ := hm.growth.made o hle (Slab.lt_next_of_get? hx)
    obtain rfl := Option.some.inj (hy.symm.trans hx)
    have ht := Heap.Balanced.takes_countWeak hm.heap hx hslot
    refine ⟨s.heap.countWeak c, s.observers ++ [⟨some c⟩], ?_, (hm.takes ht).perm ?_,
      fun w hw => ?_, rfl⟩
    · simp only [observe, e, hc, Heap.downgrade, Heap.Balanced.observe_of_slot hm.heap hx hslot,
        bind, Except.bind, if_false, Bool.false_eq_true]
    · rw [List.map_append, List.append_assoc]
      exact (List.Perm.swap _ _ _).trans (List.perm_middle.symm.cons _)
    · rcases List.mem_append.1 hw with hw | hw
      · exact hobs w hw
      · exact ⟨c, List.mem_singleton.1 hw, hnew⟩

/-- What the series of a code holds, which is empty if it is not made yet. -/
def current (s : Loading) (p : LoadPlan) (c : String) : Series :=
  (s.market.valueAt s.heap (keyOf p c)).getD (seriesOf p c).fresh.value

/-- What it does to a run to load the bars of a code. -/
structure Adds (p : LoadPlan) (c : String) (bars : List Bar) (s s' : Loading) : Prop where
  skipped : s'.skipped = s.skipped
  asked : s'.asked = s.asked
  added : s'.added = s.added + ((s.current p c).feed bars).2
  value : ∀ k, s'.market.valueAt s'.heap k =
    if k = keyOf p c then some ((s.current p c).feed bars).1 else s.market.valueAt s.heap k
  kind : ∀ k kind, s'.market.kindAt k = some kind ↔
    s.market.kindAt k = some kind ∨ kind ∈ p.indicators ∧ k = Indicator.keyOf (keyOf p c) kind
  grows : s.market.Extends s'.market

theorem Built.addBars (hs : s.Built b kept) (p : LoadPlan) (c : String) (bars : List Bar) :
    ∃ s', s.addBars p c bars = .ok s' ∧ s'.Built b kept ∧ Adds p c bars s s' := by
  obtain ⟨m₁, h₁, o, e₁, hm₁, hg₁, hind₁, hk, hval⟩ := hs.market.load (seriesOf p c) bars
  let s₁ : Loading :=
    { s with market := m₁, heap := h₁, added := s.added + ((s.current p c).feed bars).2 }
  obtain ⟨m₂, h₂, e₂, hm₂, hext, hser, ho₂, hkind⟩ :=
    addIndicators_ok (s := s₁) hm₁ hk p.indicators
  let s₂ : Loading := { s₁ with market := m₂, heap := h₂ }
  obtain ⟨h₃, ws, e₃, hm₃, hobs, ho₃⟩ := observe_ok (s := s₂) hm₂ hs.observers (hm₁.new hk)
  have hk₂ : m₂.series.get? (seriesOf p c).key = some ⟨some o⟩ := by rw [hser, hk]
  obtain ⟨h₄, e₄, hm₄, ho₄⟩ := hm₃.release hk₂
  have hv : m₂.valueAt h₄ = m₁.valueAt h₁ := by
    funext k
    rw [Market.valueAt, Market.valueAt, hser, ho₄.trans (ho₃.trans ho₂)]
  refine ⟨{ s₂ with heap := h₄, observers := ws, log := s.log ++ [] }, ?_,
    ⟨hm₄, hobs, hs.closed, by rw [hs.log]; rfl⟩, ⟨rfl, rfl, rfl, fun k => ?_, fun k kind => ?_, ?_⟩⟩
  · have e : s.addBars p c bars = s₁.addIndicators (seriesOf p c) p.indicators >>= fun s =>
        s.observe ⟨some o⟩ >>= fun s => s.release [.holding o] := by
      rw [Loading.addBars, e₁]
      rfl
    rw [e, e₂]
    show s₂.observe ⟨some o⟩ >>= _ = _
    rw [e₃]
    show Loading.release _ _ = _
    simp only [Loading.release, e₄, bind, Except.bind]
    rfl
  · show m₂.valueAt h₄ k = _
    rw [hv, hval]
    rfl
  · show m₂.kindAt k = some kind ↔ _
    rw [hkind, Market.kindAt, hind₁]
    rfl
  · exact hg₁.extends.trans hext

/-! ### All codes -/

/-- The bars of one code are asked for and loaded, or the code is skipped, or the loading ends. -/
theorem addCodes_cons (s : Loading) (p : LoadPlan) (port : Port) (c : String) (cs : List String) :
    s.addCodes p port (c :: cs) =
      match failure (port s.asked (queryOf p c)), barsIn (port s.asked (queryOf p c)) with
      | some e, _ => .ok ({ s with asked := s.asked ++ [queryOf p c] }, some e)
      | none, [] => ({ s with asked := s.asked ++ [queryOf p c] }.skip c).addCodes p port cs
      | none, bar :: bars =>
        { s with asked := s.asked ++ [queryOf p c] }.addBars p c (bar :: bars) >>= fun s =>
          s.addCodes p port cs := by
  rw [addCodes]
  cases port s.asked (queryOf p c) with
  | error e => cases e <;> rfl
  | ok bars => cases bars <;> rfl

theorem Built.ask (hs : s.Built b kept) (q : Query) :
    ({ s with asked := s.asked ++ [q] } : Loading).Built b kept :=
  ⟨hs.market, hs.observers, hs.closed, hs.log⟩

theorem Built.skip (hs : s.Built b kept) (c : String) : (s.skip c).Built b kept :=
  ⟨hs.market, hs.observers, hs.closed, hs.log⟩

/-- The codes are asked for up to the first failure. What is kept at some time is kept at the end,
and without bars nothing is. -/
theorem Built.addCodes (hs : s.Built b kept) (p : LoadPlan) (port : Port) (cs : List String) :
    ∃ s', s.addCodes p port cs =
        .ok (s', (answersFrom p port s.asked cs).findSome? failure) ∧ s'.Built b kept ∧
      s.market.Extends s'.market ∧
      ((∀ a ∈ answersFrom p port s.asked cs, barsIn a = []) → s'.market = s.market) := by
  induction cs generalizing s with
  | nil => exact ⟨s, rfl, hs, .refl _, fun _ => rfl⟩
  | cons c cs ih =>
    rw [addCodes_cons, answersFrom, List.findSome?_cons]
    have hs₁ := hs.ask (queryOf p c)
    cases hf : failure (port s.asked (queryOf p c)) with
    | some e => exact ⟨_, rfl, hs₁, .refl _, fun _ => rfl⟩
    | none =>
      cases hb : barsIn (port s.asked (queryOf p c)) with
      | nil =>
        obtain ⟨s', e, hs', hext, hnone⟩ := ih (hs₁.skip c)
        exact ⟨s', e, hs', hext, fun h => hnone fun a ha => h a (List.mem_cons_of_mem _ ha)⟩
      | cons bar bars =>
        obtain ⟨s₂, e₂, hs₂, hadds⟩ := hs₁.addBars p c (bar :: bars)
        obtain ⟨s', e, hs', hext, -⟩ := ih hs₂
        rw [hadds.asked] at e
        refine ⟨s', by simp only [e₂, bind, Except.bind]; exact e, hs', hadds.grows.trans hext,
          fun h => ?_⟩
        have := h _ List.mem_cons_self
        rw [hb] at this
        cases this

/-- Every series that a run keeps has values, and indicators of the kinds of the plan over it. -/
structure Stocked (p : LoadPlan) (s : Loading) : Prop where
  values : ∀ {k v}, s.market.valueAt s.heap k = some v → v.values ≠ []
  kind : ∀ {k kind}, s.market.kindAt k = some kind → kind ∈ p.indicators
  all : ∀ {k v kind}, s.market.valueAt s.heap k = some v → kind ∈ p.indicators →
    s.market.kindAt (Indicator.keyOf k kind) = some kind

theorem Stocked.start (p : LoadPlan) (b : Heap Series) : Stocked p { heap := b } where
  values := nofun
  kind := nofun
  all := nofun

theorem Stocked.adds (ht : s.Stocked p) {bar : Bar} (ha : Adds p c (bar :: bars) s s') :
    s'.Stocked p where
  values {k v} hv := by
    rw [ha.value] at hv
    split at hv
    · rw [← Option.some.inj hv]
      exact Series.values_feed_ne_nil _ List.mem_cons_self
    · exact ht.values hv
  kind {k kind} hk := by
    obtain hk | ⟨hk, -⟩ := (ha.kind k kind).1 hk
    · exact ht.kind hk
    · exact hk
  all {k v kind} hv hk := by
    rw [ha.value] at hv
    split at hv
    · next e => exact (ha.kind _ kind).2 (.inr ⟨hk, e ▸ rfl⟩)
    · exact (ha.kind _ kind).2 (.inl (ht.all hv hk))

/-- What is kept at the end is stocked, and something is kept if some bars came and the port did not
fail. -/
theorem Stocked.addCodes (hs : s.Built b kept) (ht : s.Stocked p) {failed : Option Error}
    (e : s.addCodes p port cs = .ok (s', failed)) : s'.Stocked p ∧
      (failed = none → (∃ a ∈ answersFrom p port s.asked cs, barsIn a ≠ []) →
        ∃ k z, s'.market.series.get? k = some z) := by
  induction cs generalizing s with
  | nil =>
    cases e
    exact ⟨ht, fun _ h => absurd h (by simp [answersFrom])⟩
  | cons c cs ih =>
    have hs₁ := hs.ask (queryOf p c)
    have ht₁ : ({ s with asked := s.asked ++ [queryOf p c] } : Loading).Stocked p :=
      ⟨ht.values, ht.kind, ht.all⟩
    rw [addCodes_cons] at e
    rw [answersFrom]
    split at e
    · cases e
      exact ⟨ht₁, nofun⟩
    · next hbars =>
      obtain ⟨ht', hsome⟩ := ih (hs₁.skip c) ⟨ht.values, ht.kind, ht.all⟩ e
      refine ⟨ht', fun hf hex => hsome hf ?_⟩
      obtain ⟨a, ha, hne⟩ := hex
      rcases List.mem_cons.1 ha with rfl | ha
      · exact absurd hbars hne
      · exact ⟨a, ha, hne⟩
    · next bar bars _ hbars =>
      obtain ⟨s₂, e₂, hs₂, hadds⟩ := hs₁.addBars p c (bar :: bars)
      rw [e₂] at e
      obtain ⟨s₁, e₁, -, hext, -⟩ := hs₂.addCodes p port cs
      cases e₁.symm.trans e
      refine ⟨(ih hs₂ (ht₁.adds hadds) e).1, fun _ _ => ?_⟩
      have hv : ∃ v, s₂.market.valueAt s₂.heap (keyOf p c) = some v :=
        ⟨_, by rw [hadds.value, if_pos rfl]⟩
      obtain ⟨z, hz⟩ := hs₂.market.toFiled.exists_value_iff.1 hv
      exact ⟨_, z, hext.series hz⟩

theorem addCodes_append {t : Loading} (e : s.addCodes p port cs = .ok (t, none))
    (ds : List String) : s.addCodes p port (cs ++ ds) = t.addCodes p port ds := by
  induction cs generalizing s with
  | nil =>
    cases e
    rfl
  | cons c cs ih =>
    rw [List.cons_append, addCodes_cons]
    rw [addCodes_cons] at e
    split at e
    · cases e
    · exact ih e
    · obtain ⟨s₁, e₁, e⟩ := bind_eq_ok_iff.1 e
      simp only [e₁, bind, Except.bind]
      exact ih e

/-- What was kept when only some of the codes were loaded is still kept at the end. -/
theorem Built.extends_of_take (hs : s.Built b kept) {t : Loading} {failed : Option Error} {n : Nat}
    (et : s.addCodes p port (cs.take n) = .ok (t, none))
    (e : s.addCodes p port cs = .ok (s', failed)) : t.market.Extends s'.market := by
  obtain ⟨t₁, et₁, ht, -⟩ := hs.addCodes p port (cs.take n)
  obtain rfl := (Prod.mk.inj (Except.ok.inj (et.symm.trans et₁))).1
  obtain ⟨s₁, e₁, -, hext, -⟩ := ht.addCodes p port (cs.drop n)
  rw [← addCodes_append et, List.take_append_drop, e] at e₁
  rwa [(Prod.mk.inj (Except.ok.inj e₁)).1]

end Loading

end Custody.Pipeline
