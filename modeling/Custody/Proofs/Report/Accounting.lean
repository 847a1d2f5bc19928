import Mathlib.Algebra.BigOperators.Group.Finset.Basic
import Mathlib.Algebra.GroupWithZero.Nat
import Custody.Proofs.Report.Exits

/-!
# What a run comes to

A source always answers a question in the same way.  If it fails for no code, a run keeps one series
per code with bars, however often the code stands in the plan, and one indicator per series and kind
(`Tally`); so there is one report that it can write (`report`) and one summary that it can come to
(`summary`).  `runOn_source` says which runs do, and `runOn_accounts` reads from this that the
numbers in the summary are those in the report.
-/

namespace Custody.Pipeline

variable {σ : Type} {p : LoadPlan} {source : Source} {b : Heap Series} {kept : List Handle}
  {s s' : Loading} {c : String} {cs done : List String} {i : String × IndicatorKind}
  {mode : Arithmetic}

/-! ### What a source has -/

def barsOf (p : LoadPlan) (source : Source) (c : String) : List Bar :=
  barsIn (source (queryOf p c))

/-- Whether a source has no bars for a code. -/
def lacks (p : LoadPlan) (source : Source) (c : String) : Bool :=
  match source (queryOf p c) with
  | .ok [] | .error (.noData ..) => true
  | _ => false

/-- The codes among `cs` for which a source has bars. -/
def found (p : LoadPlan) (source : Source) (cs : List String) : Finset String :=
  (cs.filter fun c => !lacks p source c).toFinset

/-- The series into which the bars of a code were loaded once. -/
def contents (p : LoadPlan) (source : Source) (c : String) : Series :=
  ((seriesOf p c).fresh.value.feed (barsOf p source c)).1

/-- A source fails for no code of a plan, and has bars for some. -/
def Loads (p : LoadPlan) (source : Source) : Prop :=
  (∀ c ∈ p.codes, failure (source (queryOf p c)) = none) ∧ (found p source p.codes).Nonempty

/-- A source loads a plan, and a build with the arithmetic `mode` computes all kinds in it. -/
def Completes (mode : Arithmetic) (p : LoadPlan) (source : Source) : Prop :=
  Loads p source ∧ ∀ k ∈ p.indicators, k.Fits mode

theorem lacks_iff (hf : failure (source (queryOf p c)) = none) :
    lacks p source c = true ↔ barsOf p source c = [] := by
  unfold lacks barsOf
  generalize source (queryOf p c) = a at hf
  cases a with
  | ok bars => cases bars <;> simp [barsIn]
  | error e => cases e <;> simp_all [barsIn, failure]

theorem mem_found : c ∈ found p source cs ↔ c ∈ cs ∧ lacks p source c = false := by
  simp [found]

theorem found_append_of_lacks (hc : lacks p source c = true) (done : List String) :
    found p source (done ++ [c]) = found p source done := by
  simp [found, hc]

theorem found_append (hc : lacks p source c = false) (done : List String) :
    found p source (done ++ [c]) = insert c (found p source done) := by
  ext d
  simp only [mem_found, List.mem_append, List.mem_singleton, Finset.mem_insert]
  constructor
  · rintro ⟨hd | rfl, hl⟩
    · exact .inr ⟨hd, hl⟩
    · exact .inl rfl
  · rintro (rfl | ⟨hd, hl⟩)
    · exact ⟨.inr rfl, hc⟩
    · exact ⟨.inl hd, hl⟩

theorem keyOf_injective (p : LoadPlan) : Function.Injective (keyOf p) := by
  intro c c' e
  have hid : seriesOf p c = seriesOf p c' := SeriesId.key_injective e
  exact congrArg SeriesId.symbol hid

/-- The key of the indicator of a code and a kind. -/
def indicatorKey (p : LoadPlan) (i : String × IndicatorKind) : String :=
  Indicator.keyOf (keyOf p i.1) i.2

theorem indicatorKey_injective (p : LoadPlan) : Function.Injective (indicatorKey p) := by
  rintro ⟨c, kind⟩ ⟨c', kind'⟩ e
  obtain ⟨hc, hk⟩ := Indicator.keyOf_injective e
  exact Prod.ext (keyOf_injective p hc) hk

/-! ### Books of the loading -/

/-- What a run has come to when the codes `done` were loaded. -/
structure Tally (p : LoadPlan) (source : Source) (done : List String) (s : Loading) : Prop where
  value : ∀ k v, s.market.valueAt s.heap k = some v ↔
    ∃ c ∈ found p source done, keyOf p c = k ∧ contents p source c = v
  kind : ∀ k kind, s.market.kindAt k = some kind ↔
    ∃ c ∈ found p source done, kind ∈ p.indicators ∧ indicatorKey p (c, kind) = k
  added : s.added = ∑ c ∈ found p source done, (contents p source c).size
  skipped : s.skipped = done.filter (lacks p source)

namespace Tally

theorem start (p : LoadPlan) (source : Source) (b : Heap Series) :
    Tally p source [] { heap := b } where
  value k v := by simp [found, Market.valueAt]
  kind k kind := by simp [found, Market.kindAt]
  added := rfl
  skipped := rfl

theorem ask (ht : Tally p source done s) (q : Query) :
    Tally p source done { s with asked := s.asked ++ [q] } :=
  ⟨ht.value, ht.kind, ht.added, ht.skipped⟩

theorem skip (ht : Tally p source done s) (hc : lacks p source c = true) :
    Tally p source (done ++ [c]) (s.skip c) where
  value k v := by
    rw [found_append_of_lacks hc]
    exact ht.value k v
  kind k kind := by
    rw [found_append_of_lacks hc]
    exact ht.kind k kind
  added := by
    rw [found_append_of_lacks hc]
    exact ht.added
  skipped := by
    show s.skipped ++ [c] = _
    rw [List.filter_append, List.filter_cons_of_pos hc, List.filter_nil, ht.skipped]

/-- A code that was loaded before is loaded as before. -/
theorem feed_of_mem (ht : Tally p source done s) (hc : c ∈ found p source done) :
    (s.current p c).feed (barsOf p source c) = (contents p source c, 0) := by
  have hv : s.market.valueAt s.heap (keyOf p c) = some (contents p source c) :=
    (ht.value _ _).2 ⟨c, hc, rfl, rfl⟩
  rw [Loading.current, hv]
  exact Series.feed_again _ _

/-- A code that was not loaded before is loaded into an empty series. -/
theorem feed_of_not_mem (ht : Tally p source done s) (hc : c ∉ found p source done) :
    (s.current p c).feed (barsOf p source c) =
      (contents p source c, (contents p source c).size) := by
  have hv : s.market.valueAt s.heap (keyOf p c) = none := by
    refine Option.eq_none_iff_forall_not_mem.2 fun v hv => ?_
    obtain ⟨d, hd, e, -⟩ := (ht.value _ _).1 hv
    exact hc (keyOf_injective p e ▸ hd)
  have hsize := Series.size_feed (seriesOf p c).fresh.value (barsOf p source c)
  rw [Loading.current, hv]
  refine Prod.ext rfl ?_
  rw [contents, hsize]
  exact (Nat.zero_add _).symm

theorem adds (ht : Tally p source done s) (hc : lacks p source c = false)
    (ha : s.Adds p c (barsOf p source c) s') : Tally p source (done ++ [c]) s' where
  value k v := by
    have hfeed : ((s.current p c).feed (barsOf p source c)).1 = contents p source c := by
      by_cases hm : c ∈ found p source done
      · rw [ht.feed_of_mem hm]
      · rw [ht.feed_of_not_mem hm]
    -- no other code has the key of this one, so what stands under the other keys stays
    rw [ha.value, hfeed, found_append hc, Finset.exists_mem_insert]
    by_cases hk : k = keyOf p c
    · rw [if_pos hk, Option.some_inj]
      constructor
      · exact fun e => .inl ⟨hk.symm, e⟩
      · rintro (⟨-, e⟩ | ⟨d, -, hd, e⟩)
        · exact e
        · rwa [keyOf_injective p (hd.trans hk)] at e
    · rw [if_neg hk, ht.value, or_iff_right fun h => hk h.1.symm]
  kind k kind := by
    rw [ha.kind, ht.kind, found_append hc, Finset.exists_mem_insert, or_comm, indicatorKey, eq_comm]
  added := by
    rw [ha.added, ht.added, found_append hc]
    by_cases hm : c ∈ found p source done
    · rw [ht.feed_of_mem hm, Finset.insert_eq_of_mem hm, Nat.add_zero]
    · rw [ht.feed_of_not_mem hm, Finset.sum_insert hm, Nat.add_comm]
  skipped := by
    rw [ha.skipped, ht.skipped, List.filter_append, List.filter_cons_of_neg (by simp [hc]),
      List.filter_nil, List.append_nil]

/-- The books of a run are right after any codes for which the source does not fail. -/
theorem addCodes (hs : s.Built b kept) (ht : Tally p source done s)
    (hf : ∀ c ∈ cs, failure (source (queryOf p c)) = none) :
    ∃ s', s.addCodes p (fun _ => source) cs = .ok (s', none) ∧ s'.Built b kept ∧
      Tally p source (done ++ cs) s' := by
  induction cs generalizing s done with
  | nil => exact ⟨s, rfl, hs, by rwa [List.append_nil]⟩
  | cons c cs ih =>
    have hfc := hf c List.mem_cons_self
    have hfs := fun d hd => hf d (List.mem_cons_of_mem c hd)
    have hs₁ := hs.ask (queryOf p c)
    have ht₁ := ht.ask (queryOf p c)
    rw [Loading.addCodes_cons, hfc]
    cases hb : barsOf p source c with
    | nil =>
      obtain ⟨s', e, hs', ht'⟩ := ih (hs₁.skip c) (ht₁.skip ((lacks_iff hfc).2 hb)) hfs
      rw [List.append_assoc] at ht'
      rw [← barsOf, hb]
      exact ⟨s', e, hs', ht'⟩
    | cons bar bars =>
      have hl : lacks p source c = false := by
        rw [← Bool.not_eq_true, lacks_iff hfc, hb]
        exact List.cons_ne_nil bar bars
      obtain ⟨s₂, e₂, hs₂, ha⟩ := hs₁.addBars p c (barsOf p source c)
      obtain ⟨s', e, hs', ht'⟩ := ih hs₂ (ht₁.adds hl ha) hfs
      rw [List.append_assoc] at ht'
      rw [hb] at e₂
      refine ⟨s', ?_, hs', ht'⟩
      rw [← barsOf, hb]
      simpa only [e₂, bind, Except.bind] using e

/-! ### What is kept -/

theorem series_iff (ht : Tally p source done s) (hs : s.Built b kept) {k : String} :
    (∃ x, s.market.series.get? k = some x) ↔ ∃ c ∈ found p source done, keyOf p c = k := by
  rw [← hs.market.toFiled.exists_value_iff]
  constructor
  · rintro ⟨v, hv⟩
    obtain ⟨c, hc, e, -⟩ := (ht.value k v).1 hv
    exact ⟨c, hc, e⟩
  · rintro ⟨c, hc, e⟩
    exact ⟨_, (ht.value k _).2 ⟨c, hc, e, rfl⟩⟩

theorem indicators_iff (ht : Tally p source done s) {k : String} :
    (∃ a, s.market.indicators.get? k = some a) ↔
      ∃ i, (i.1 ∈ found p source done ∧ i.2 ∈ p.indicators) ∧ indicatorKey p i = k := by
  constructor
  · rintro ⟨a, ha⟩
    obtain ⟨c, hc, hk, e⟩ := (ht.kind k a.kind).1 (by rw [Market.kindAt, ha, Option.map_some])
    exact ⟨(c, a.kind), ⟨hc, hk⟩, e⟩
  · rintro ⟨⟨c, kind⟩, ⟨hc, hk⟩, e⟩
    obtain ⟨a, ha, -⟩ := Option.map_eq_some_iff.1 ((ht.kind k kind).2 ⟨c, hc, hk, e⟩)
    exact ⟨a, ha⟩

theorem size_series (ht : Tally p source done s) (hs : s.Built b kept) :
    s.market.series.size = (found p source done).card := by
  rw [← Finset.card_image_of_injective _ (keyOf_injective p)]
  refine Roster.size_eq_card fun k => ?_
  rw [ht.series_iff hs, Finset.mem_image]

theorem size_indicators (ht : Tally p source done s) :
    s.market.indicators.size = (found p source done).card * p.indicators.toFinset.card := by
  rw [← Finset.card_product, ← Finset.card_image_of_injective _ (indicatorKey_injective p)]
  refine Roster.size_eq_card fun k => ?_
  rw [ht.indicators_iff, Finset.mem_image]
  simp only [Finset.mem_product, List.mem_toFinset]

/-- The series of a code with bars, and how many indicators are over it. -/
theorem series_of_mem (ht : Tally p source done s) (hs : s.Built b kept)
    (hc : c ∈ found p source done) : ∃ o x, s.market.series.get? (keyOf p c) = some ⟨some o⟩ ∧
      s.heap.objects.get? o = some x ∧ x.value = contents p source c ∧
      s.market.readers o = p.indicators.toFinset.card := by
  obtain ⟨o, x, hk, hx, hv⟩ :=
    hs.market.toFiled.valueAt_eq_some_iff.1 ((ht.value _ _).2 ⟨c, hc, rfl, rfl⟩)
  refine ⟨o, x, hk, hx, hv, hs.market.toFiled.readers_eq_card hk fun kind => ?_⟩
  show _ ↔ ∃ a, s.market.indicators.get? (indicatorKey p (c, kind)) = some a
  rw [List.mem_toFinset, ht.indicators_iff]
  constructor
  · exact fun hm => ⟨(c, kind), ⟨hc, hm⟩, rfl⟩
  · rintro ⟨i, ⟨-, hm⟩, e⟩
    have hi : i = (c, kind) := indicatorKey_injective p e
    rwa [hi] at hm

end Tally

/-! ### The report -/

/-- The row of a code with bars. -/
def seriesRow (p : LoadPlan) (source : Source) (c : String) : String :=
  seriesLine (keyOf p c) (contents p source c) (1 + p.indicators.toFinset.card)

/-- The row of a code with bars and a kind. -/
def indicatorRow (p : LoadPlan) (source : Source) (i : String × IndicatorKind) : String :=
  indicatorLine (indicatorKey p i) (i.2.calculate (contents p source i.1).values)

/-- The codes and the indicators that a table shows, in the order in which it does. -/
structure Listing (p : LoadPlan) (source : Source) (cs : List String)
    (is : List (String × IndicatorKind)) : Prop where
  codes_ascend : (cs.map (keyOf p)).Pairwise (· < ·)
  mem_codes : ∀ c, c ∈ cs ↔ c ∈ found p source p.codes
  indicators_ascend : (is.map (indicatorKey p)).Pairwise (· < ·)
  mem_indicators : ∀ i, i ∈ is ↔ i.1 ∈ found p source p.codes ∧ i.2 ∈ p.indicators

/-- The table of a listing and the line of totals, when there were `live` counters before. -/
def tableTexts (p : LoadPlan) (source : Source) (cs : List String)
    (is : List (String × IndicatorKind)) (live : Nat) (sum : LoadSummary) : List String :=
  heading :: (cs.map (seriesRow p source) ++ is.map (indicatorRow p source)) ++
    [totals ⟨sum.series, sum.indicators, live + sum.series⟩]

/-- All that a run writes which comes to `sum`. -/
def report (p : LoadPlan) (source : Source) (cs : List String) (is : List (String × IndicatorKind))
    (live : Nat) (sum : LoadSummary) : List String :=
  tableTexts p source cs is live sum ++ [farewell sum.indicators sum.series sum.alive]

/-- What a run comes to for whose codes the source does not fail. -/
def summary (p : LoadPlan) (source : Source) : LoadSummary where
  series := (found p source p.codes).card
  indicators := (found p source p.codes).card * p.indicators.toFinset.card
  added := ∑ c ∈ found p source p.codes, (contents p source c).size
  skipped := p.codes.filter (lacks p source)
  alive := 0

namespace Tally

/-- The keys of the market are those of a listing. -/
theorem listing (ht : Tally p source p.codes s) (hs : s.Built b kept) :
    ∃ cs is, Listing p source cs is ∧ cs.map (keyOf p) = s.market.series.keys ∧
      is.map (indicatorKey p) = s.market.indicators.keys := by
  obtain ⟨cs, hcs⟩ := Roster.exists_map_eq_keys (r := s.market.series) (f := keyOf p)
    fun k x hk => by
      obtain ⟨c, -, e⟩ := (ht.series_iff hs).1 ⟨x, hk⟩
      exact ⟨c, e⟩
  obtain ⟨is, his⟩ := Roster.exists_map_eq_keys (r := s.market.indicators) (f := indicatorKey p)
    fun k a hk => by
      obtain ⟨i, -, e⟩ := ht.indicators_iff.1 ⟨a, hk⟩
      exact ⟨i, e⟩
  refine ⟨cs, is, ⟨?_, fun c => ?_, ?_, fun i => ?_⟩, hcs, his⟩
  · rw [hcs]
    exact s.market.series.ascending
  · rw [← List.mem_map_of_injective (keyOf_injective p), hcs, Roster.mem_keys_iff, ht.series_iff hs]
    simp only [(keyOf_injective p).eq_iff, exists_eq_right]
  · rw [his]
    exact s.market.indicators.ascending
  · rw [← List.mem_map_of_injective (indicatorKey_injective p), his, Roster.mem_keys_iff,
      ht.indicators_iff]
    simp only [(indicatorKey_injective p).eq_iff, exists_eq_right]

theorem puts_seriesRow (ht : Tally p source done s) (hs : s.Built b kept) (hb : b.Sound kept)
    (w : Writer σ) (hc : c ∈ found p source done) :
    Puts w s (putSeries w (keyOf p c)) (seriesRow p source c) := by
  obtain ⟨o, x, hk, hx, hv, hr⟩ := ht.series_of_mem hs hc
  have := hs.puts_series hb w hk hx
  rwa [hv, hr] at this

theorem puts_indicatorRow (ht : Tally p source done s) (hs : s.Built b kept) (w : Writer σ)
    (hc : i.1 ∈ found p source done) (hi : i.2 ∈ p.indicators) (hfit : i.2.Fits mode) :
    Puts w s (putIndicator mode w (indicatorKey p i)) (indicatorRow p source i) := by
  obtain ⟨o, x, hk, hx, hv, -⟩ := ht.series_of_mem hs hc
  obtain ⟨a, ha⟩ := ht.indicators_iff.2 ⟨i, ⟨hc, hi⟩, rfl⟩
  obtain ⟨hkind, hsource⟩ := hs.market.toFiled.indicator_eq (i := seriesOf p i.1) ha
  have := puts_indicator w ha (Option.some.inj (hsource.symm.trans hk)) hx (hkind ▸ hfit)
  rwa [hv, hkind] at this

/-- The parts of the table give the rows of the listing to the writer. -/
theorem puts_table (ht : Tally p source p.codes s) (hs : s.Built b kept) (hb : b.Sound kept)
    (w : Writer σ) (hfit : ∀ k ∈ p.indicators, k.Fits mode) {is : List (String × IndicatorKind)} (hl : Listing p source cs is)
    (hcs : cs.map (keyOf p) = s.market.series.keys)
    (his : is.map (indicatorKey p) = s.market.indicators.keys) :
    List.Forall₂ (Puts w s) (table mode w s.market (s.market.stats s.heap))
      (tableTexts p source cs is b.live (summary p source)) := by
  have hstats : s.market.stats s.heap = ⟨(summary p source).series, (summary p source).indicators,
      b.live + (summary p source).series⟩ := by
    rw [Market.stats, hs.market.live, ht.size_series hs, ht.size_indicators]
    rfl
  have hseries : List.Forall₂ (Puts w s) (s.market.series.keys.map (putSeries w))
      (cs.map (seriesRow p source)) := by
    rw [← hcs, List.map_map]
    exact puts_map fun c hc => ht.puts_seriesRow hs hb w ((hl.mem_codes c).1 hc)
  have hindicators : List.Forall₂ (Puts w s) (s.market.indicators.keys.map (putIndicator mode w))
      (is.map (indicatorRow p source)) := by
    rw [← his, List.map_map]
    refine puts_map fun i hi => ?_
    obtain ⟨hc, hkind⟩ := (hl.mem_indicators i).1 hi
    exact ht.puts_indicatorRow hs w hc hkind (hfit _ hkind)
  rw [table, tableTexts, hstats]
  exact List.rel_append (.cons (puts_text w s _) (List.rel_append hseries hindicators))
    (.cons (puts_text w s _) .nil)

end Tally

/-! ### Runs -/

theorem answersFrom_source (p : LoadPlan) (source : Source) (asked : List Query)
    (cs : List String) :
    answersFrom p (fun _ => source) asked cs = cs.map fun c => source (queryOf p c) := by
  induction cs generalizing asked with
  | nil => rfl
  | cons c cs ih => rw [answersFrom, ih, List.map_cons]

/-- A run whose plan the source does not load comes to an error. -/
theorem runOn_of_not_loads (mode : Arithmetic) (w : Writer σ) (out : σ) (hb : b.Sound kept)
    (hn : ¬ Loads p source) :
    ∃ r err, runOn mode w (fun _ => source) b p out = .ok r ∧ r.result = .error err := by
  have hstart := Loading.Built.start hb
  by_cases hf : ∀ c ∈ p.codes, failure (source (queryOf p c)) = none
  · obtain ⟨s, e, hs, ht⟩ := Tally.addCodes hstart (.start p source b) hf
    have hne : ¬(found p source p.codes).Nonempty := fun hne => hn ⟨hf, hne⟩
    have hz : s.market.series.size = 0 := by
      rw [ht.size_series hs, List.nil_append, Finset.not_nonempty_iff_eq_empty.1 hne,
        Finset.card_empty]
    obtain ⟨r, e', -, hres, -⟩ := hs.leave hb out
      (.error (.error (.noData (String.intercalate "," p.codes) p.exchange)))
    exact ⟨r, _, (runOn_eq mode w out e).trans ((if_pos hz).trans e'), hres⟩
  · -- some code fails, so the loading ends early, whichever is the first
    obtain ⟨s, e, hs, -⟩ := hstart.addCodes p (fun _ => source) p.codes
    rw [answersFrom_source] at e
    cases hfs : (p.codes.map fun c => source (queryOf p c)).findSome? failure with
    | none =>
      refine absurd (fun c hc => ?_) hf
      exact List.findSome?_eq_none_iff.1 hfs _ (List.mem_map_of_mem hc)
    | some err =>
      rw [hfs] at e
      obtain ⟨r, e', -, hres, -⟩ := hs.leave hb out (.error (.error err))
      exact ⟨r, _, (runOn_eq mode w out e).trans e', hres⟩

/-- A run that can be completed comes to the summary, unless the writer refuses the report. Any other
run comes to none. -/
theorem runOn_source (mode : Arithmetic) (w : Writer σ) (p : LoadPlan) (source : Source) (out : σ)
    (hb : b.Sound kept) : ∃ r, runOn mode w (fun _ => source) b p out = .ok r ∧
      (¬ Completes mode p source → ∃ e, r.result = .error e) ∧
      (Completes mode p source → ∃ cs is, Listing p source cs is ∧
        r.sink = (w.writeAll out (report p source cs is b.live (summary p source))).1 ∧
        r.result = match (w.writeAll out (report p source cs is b.live (summary p source))).2 with
          | some reason => .error (.refused reason)
          | none => .ok (summary p source)) := by
  by_cases hload : Loads p source
  · have hstart := Loading.Built.start hb
    obtain ⟨s, e, hs, ht⟩ := Tally.addCodes hstart (.start p source b) hload.1
    rw [List.nil_append] at ht
    have hsize := ht.size_series hs
    have hz : s.market.series.size ≠ 0 := by
      rw [hsize]
      exact Finset.card_ne_zero.2 hload.2
    by_cases hfit : ∀ k ∈ p.indicators, k.Fits mode
    · obtain ⟨cs, is, hl, hcs, his⟩ := ht.listing hs
      obtain ⟨r, e', -, hsink, hres⟩ :=
        hs.present hb w out (ht.puts_table hs hb w hfit hl hcs his)
      have hrep : s.report (tableTexts p source cs is b.live (summary p source)) =
          report p source cs is b.live (summary p source) := by
        rw [Loading.report, hsize, ht.size_indicators]
        rfl
      rw [hrep] at hsink hres
      refine ⟨r, (runOn_eq mode w out e).trans ((if_neg hz).trans e'),
        fun h => absurd ⟨hload, hfit⟩ h, fun _ => ⟨cs, is, hl, hsink, ?_⟩⟩
      rw [hres, hsize, ht.size_indicators, ht.added, ht.skipped]
      rfl
    · -- the row of a kind that is not computed stops the run, over the series of any code
      push Not at hfit
      obtain ⟨kind, hmem, hkind⟩ := hfit
      obtain ⟨c, hc⟩ := hload.2
      obtain ⟨o, x, hk, -⟩ := ht.series_of_mem hs hc
      have hstock := ((Loading.Stocked.start p b).addCodes hstart e).1
      obtain ⟨r, e', -, -, -, hstops⟩ := hs.present_ends hb mode w out
      refine ⟨r, (runOn_eq mode w out e).trans ((if_neg hz).trans e'), fun _ => ?_,
        fun h => absurd (h.2 kind hmem) hkind⟩
      exact (hstops (hstock.exists_stops hs hk hmem hkind w _)).1
  · obtain ⟨r, err, e, hres⟩ := runOn_of_not_loads mode w out hb hload
    exact ⟨r, e, fun _ => ⟨err, hres⟩, fun h => absurd h.1 hload⟩

/-- A run that succeeds comes to the summary and has written the report. It does if it can be
completed and the writer takes all. -/
theorem runOn_ok (mode : Arithmetic) (w : Writer σ) (p : LoadPlan) (source : Source) (out : σ)
    (hb : b.Sound kept) :
    ∃ r, runOn mode w (fun _ => source) b p out = .ok r ∧
      (w.TakesAll → Completes mode p source → ∃ sum, r.result = .ok sum) ∧
      ∀ sum, r.result = .ok sum → Completes mode p source ∧ sum = summary p source ∧
        ∃ cs is, Listing p source cs is ∧
          w.writeAll out (report p source cs is b.live sum) = (r.sink, none) := by
  obtain ⟨r, e, hbad, hgood⟩ := runOn_source mode w p source out hb
  refine ⟨r, e, fun hw hload => ?_, fun sum hsum => ?_⟩
  · obtain ⟨cs, is, -, -, hres⟩ := hgood hload
    rw [hw.writeAll] at hres
    exact ⟨_, hres⟩
  · have hload : Completes mode p source := by
      by_contra hn
      obtain ⟨err, he⟩ := hbad hn
      rw [hsum] at he
      cases he
    obtain ⟨cs, is, hl, hsink, hres⟩ := hgood hload
    rw [hsum] at hres
    cases hw : (w.writeAll out (report p source cs is b.live (summary p source))).2 with
    | some reason =>
      rw [hw] at hres
      cases hres
    | none =>
      rw [hw] at hres
      cases hres
      exact ⟨hload, rfl, cs, is, hl, Prod.ext hsink.symm hw⟩

theorem ok_of_toOption {ε α : Type} {x : Except ε α} {a : α} (h : x.toOption = some a) :
    x = .ok a := by
  cases x with
  | error e => cases h
  | ok a' => exact congrArg Except.ok (Option.some.inj h)

/-- A writer that counts the texts. -/
def counting : Writer Nat where
  write n _ := (n + 1, none)

def repeatingPlan : LoadPlan := { pairPlan with codes := ["B", "C", "A", "B", "C"] }

/-- One bar for each code but one. -/
def oneBar : Source := fun q => if q.code = "C" then .ok [] else .ok [barOn .first q.code]

end Custody.Pipeline
