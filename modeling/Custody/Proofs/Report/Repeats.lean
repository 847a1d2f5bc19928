import Custody.Proofs.Report.Accounting

/-!
# What a report depends on

Which series and indicators a run keeps is a question of which codes and kinds are in its plan, and
the report lists them by their keys.  So two plans with the same codes and the same kinds, in any
order and with any repeats, lead to the same report (`runOn_rearranged`); only the list of skipped
codes follows the plan.
-/

namespace Custody.Pipeline

variable {σ τ : Type} {p : LoadPlan} {source : Source} {b b' : Heap Series}
  {kept kept' : List Handle} {cs cs' codes : List String} {kinds : List IndicatorKind}
  {is is' : List (String × IndicatorKind)}

/-! ### Listings -/

/-- There is one listing of a plan. -/
theorem Listing.unique (hl : Listing p source cs is) (hl' : Listing p source cs' is') :
    cs = cs' ∧ is = is' := by
  constructor
  · apply Roster.eq_of_ascending hl.codes_ascend hl'.codes_ascend
    intro c
    rw [hl.mem_codes, hl'.mem_codes]
  · apply Roster.eq_of_ascending hl.indicators_ascend hl'.indicators_ascend
    intro i
    rw [hl.mem_indicators, hl'.mem_indicators]

/-! ### Plans with the same codes and kinds -/

theorem found_congr (hcodes : ∀ c, c ∈ codes ↔ c ∈ cs) :
    found p source codes = found p source cs := by
  ext c
  rw [mem_found, mem_found, hcodes]

theorem loads_congr (hcodes : ∀ c, c ∈ codes ↔ c ∈ p.codes) :
    Loads { p with codes, indicators := kinds } source ↔ Loads p source := by
  have hfound : found { p with codes, indicators := kinds } source codes =
      found p source p.codes := found_congr (p := p) hcodes
  unfold Loads
  rw [hfound]
  simp only [hcodes]
  rfl

section Rearranged

variable {mode : Arithmetic} (hcodes : ∀ c, c ∈ codes ↔ c ∈ p.codes) (hkinds : ∀ k, k ∈ kinds ↔ k ∈ p.indicators)

include hcodes hkinds

theorem completes_congr : Completes mode { p with codes, indicators := kinds } source ↔
    Completes mode p source := by
  simp only [Completes, loads_congr hcodes, hkinds]

theorem listing_congr (hl : Listing { p with codes, indicators := kinds } source cs is) :
    Listing p source cs is where
  codes_ascend := hl.codes_ascend
  mem_codes c := by
    rw [hl.mem_codes]
    show c ∈ found p source codes ↔ _
    rw [found_congr hcodes]
  indicators_ascend := hl.indicators_ascend
  mem_indicators i := by
    rw [hl.mem_indicators]
    show i.1 ∈ found p source codes ∧ i.2 ∈ kinds ↔ _
    rw [found_congr hcodes, hkinds]

theorem summary_congr (source : Source) :
    summary { p with codes, indicators := kinds } source =
      { summary p source with skipped := codes.filter (lacks p source) } := by
  show LoadSummary.mk (found p source codes).card
      ((found p source codes).card * kinds.toFinset.card)
      (∑ c ∈ found p source codes, (contents p source c).size) _ _ = _
  rw [found_congr hcodes, List.toFinset.ext hkinds]
  rfl

theorem report_congr (source : Source) (cs : List String) (is : List (String × IndicatorKind))
    (live : Nat) :
    report { p with codes, indicators := kinds } source cs is live
        (summary { p with codes, indicators := kinds } source) =
      report p source cs is live (summary p source) := by
  have hrow : seriesRow { p with codes, indicators := kinds } source = seriesRow p source := by
    funext c
    show seriesLine _ _ (1 + kinds.toFinset.card) = _
    rw [List.toFinset.ext hkinds]
    rfl
  rw [summary_congr hcodes hkinds]
  unfold report tableTexts
  rw [hrow]
  rfl

end Rearranged

/-! ### Two runs -/

/-- Two runs over the same source whose plans have the same codes and the same kinds, in any order
and with any repeats, succeed or fail together in every build, if the writers take all texts and
there were as many counters before. When they succeed they give the same texts to their writers and
come to the same numbers; what else is on the two heaps does not matter. -/
theorem runOn_rearranged (mode : Arithmetic) {w : Writer σ} {w' : Writer τ} (hw : w.TakesAll) (hw' : w'.TakesAll)
    (p : LoadPlan) (source : Source) (out : σ) (out' : τ) (hb : b.Sound kept)
    (hb' : b'.Sound kept') (hlive : b'.live = b.live) (hcodes : ∀ c, c ∈ codes ↔ c ∈ p.codes)
    (hkinds : ∀ k, k ∈ kinds ↔ k ∈ p.indicators) :
    ∃ r r', runOn mode w (fun _ => source) b p out = .ok r ∧
      runOn mode w' (fun _ => source) b' { p with codes, indicators := kinds } out' = .ok r' ∧
      ((∃ sum, r.result = .ok sum) ↔ ∃ sum', r'.result = .ok sum') ∧
      ∀ sum sum', r.result = .ok sum → r'.result = .ok sum' →
        (∃ texts, w.writeAll out texts = (r.sink, none) ∧
          w'.writeAll out' texts = (r'.sink, none)) ∧
        sum'.series = sum.series ∧ sum'.indicators = sum.indicators ∧ sum'.added = sum.added ∧
        sum'.alive = sum.alive := by
  obtain ⟨r, e, hgood, hok⟩ := runOn_ok mode w p source out hb
  obtain ⟨r', e', hgood', hok'⟩ :=
    runOn_ok mode w' { p with codes, indicators := kinds } source out' hb'
  have hload : Completes mode { p with codes, indicators := kinds } source ↔
      Completes mode p source := completes_congr hcodes hkinds
  refine ⟨r, r', e, e', ⟨?_, ?_⟩, fun sum sum' hsum hsum' => ?_⟩
  · rintro ⟨sum, hsum⟩
    exact hgood' hw' (hload.2 (hok sum hsum).1)
  · rintro ⟨sum', hsum'⟩
    exact hgood hw (hload.1 (hok' sum' hsum').1)
  · obtain ⟨-, rfl, cs, is, hl, hwrite⟩ := hok sum hsum
    obtain ⟨-, rfl, cs', is', hl', hwrite'⟩ := hok' sum' hsum'
    obtain ⟨rfl, rfl⟩ := hl.unique (listing_congr hcodes hkinds hl')
    rw [report_congr hcodes hkinds, hlive] at hwrite'
    rw [summary_congr hcodes hkinds]
    exact ⟨⟨_, hwrite, hwrite'⟩, rfl, rfl, rfl, rfl⟩

theorem takesAll_counting : counting.TakesAll := fun _ _ => rfl

/-- The second run finds a series on the heap under a key that it asks for itself. -/
theorem runOn_rearranged_pair : ∃ r r' sum',
    runOn .checked counting (fun _ => oneBar) (heldHeap ⟨"X", .d1, .closing⟩) repeatingPlan 0 =
        .ok r ∧
      runOn .checked counting (fun _ => oneBar) (heldHeap ⟨"B", .d1, .closing⟩)
        { repeatingPlan with codes := ["A", "B", "C"], indicators := [⟨.ema, 2⟩, ⟨.sma, 1⟩] } 0 =
          .ok r' ∧
      r'.result = .ok sum' ∧ r'.sink = r.sink ∧ sum'.series = 2 ∧ sum'.indicators = 4 ∧
      sum'.added = 2 ∧ sum'.alive = 0 := by
  have hcodes : ∀ c, c ∈ ["A", "B", "C"] ↔ c ∈ repeatingPlan.codes := by
    simp only [repeatingPlan, List.mem_cons]
    grind
  have hkinds : ∀ k, k ∈ ([⟨.ema, 2⟩, ⟨.sma, 1⟩] : List IndicatorKind) ↔
      k ∈ repeatingPlan.indicators := by
    simp only [repeatingPlan, pairPlan, List.mem_cons]
    grind
  obtain ⟨r, r', e, e', hiff, hsame⟩ := runOn_rearranged .checked takesAll_counting takesAll_counting
    repeatingPlan oneBar 0 0 (sound_heldHeap ⟨"X", .d1, .closing⟩)
    (sound_heldHeap ⟨"B", .d1, .closing⟩) rfl hcodes hkinds
  have hrun : (runOn .checked counting (fun _ => oneBar) (heldHeap ⟨"X", .d1, .closing⟩) repeatingPlan
      0).toOption.map (fun r => r.result.toOption) = some (some ⟨2, 4, 2, ["C", "C"], 0⟩) := by
    decide +kernel
  rw [e] at hrun
  have hres := ok_of_toOption (Option.some.inj hrun)
  obtain ⟨sum', hres'⟩ := hiff.1 ⟨_, hres⟩
  obtain ⟨⟨texts, hw, hw'⟩, hs, hi, ha, hl⟩ := hsame _ _ hres hres'
  have hsink : r'.sink = r.sink := congrArg Prod.fst (hw'.symm.trans hw)
  exact ⟨r, r', sum', e, e', hres', hsink, hs, hi, ha, hl⟩

end Custody.Pipeline
