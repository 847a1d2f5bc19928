import Custody.Proofs.Config.Reading

/-!
# Valid load plans

Every plan that is read from settings is valid (`LoadPlan.valid_of_ofSettings`), whatever they hold.
An override takes the place of a setting after that and is not checked:
`LoadPlan.valid_override_iff` says for which overrides the plan is still valid.
-/

namespace Custody

open Text

namespace LoadPlan

variable {p : LoadPlan} {s : Settings}

/-- What a plan needs to make sense. -/
structure Valid (p : LoadPlan) : Prop where
  dataPath : p.dataPath ≠ "" ∧ Trimmed p.dataPath.toList
  exchange : p.exchange ≠ "" ∧ Trimmed p.exchange.toList
  codes_ne_nil : p.codes ≠ []
  codes : ∀ c ∈ p.codes, c ≠ "" ∧ ',' ∉ c.toList
  ordered : p.start ≤ p.stop
  periods : ∀ k ∈ p.indicators, 1 ≤ k.period

theorem comma_mem_upper_trim_iff {cs : List Char} : ',' ∈ upper (trim cs) ↔ ',' ∈ cs := by
  rw [mem_upper_iff (by decide) (by decide), mem_trim_iff (by decide)]

/-! ### What a plan is read from -/

theorem ofSettings_eq_ok_iff : ofSettings s = .ok p ↔
    required s "data" "path" = .ok p.dataPath ∧
    required s "load" "exchange" = .ok p.exchange ∧
    (∃ t, required s "load" "codes" = .ok t ∧ readCodes t = .ok p.codes) ∧
    readDates s = .ok (p.start, p.stop) ∧
    readNamed s "timeframe" Timeframe.read .d1 = .ok p.timeframe ∧
    readNamed s "applied_price" AppliedPrice.read .closing = .ok p.price ∧
    readIndicators s = .ok p.indicators := by
  simp only [ofSettings, bind_eq_ok_iff]
  constructor
  · rintro ⟨path, h₁, exchange, h₂, t, h₃, codes, h₄, ⟨start, stop⟩, h₅, timeframe, h₆, price, h₇,
      kinds, h₈, h⟩
    obtain rfl := Except.ok.inj h
    exact ⟨h₁, h₂, ⟨t, h₃, h₄⟩, h₅, h₆, h₇, h₈⟩
  · rintro ⟨h₁, h₂, ⟨t, h₃, h₄⟩, h₅, h₆, h₇, h₈⟩
    exact ⟨_, h₁, _, h₂, t, h₃, _, h₄, _, h₅, _, h₆, _, h₇, _, h₈, rfl⟩

theorem valid_required {heading key t : String} (h : required s heading key = .ok t) :
    t ≠ "" ∧ Trimmed t.toList := by
  obtain ⟨u, -, hu, rfl⟩ := required_eq_ok_iff.1 h
  rw [ne_eq, trimString_eq_empty_iff, Bool.not_eq_true, toList_trimString]
  exact ⟨hu, trimmed_trim _⟩

theorem valid_readCode {cs : List Char} {c : String} (h : readCode cs = .ok c) (hcs : ',' ∉ cs) :
    c ≠ "" ∧ ',' ∉ c.toList := by
  unfold readCode at h
  split at h
  · cases h
  · next hne =>
    obtain rfl := Except.ok.inj h
    rw [ne_eq, ← String.toList_eq_nil_iff, String.toList_ofList]
    exact ⟨upper_ne_nil hne, fun hm => hcs (comma_mem_upper_trim_iff.1 hm)⟩

/-- There is always a first part, and no part has a comma in it. -/
theorem valid_readCodes {t : String} {codes : List String} (h : readCodes t = .ok codes) :
    codes ≠ [] ∧ ∀ c ∈ codes, c ≠ "" ∧ ',' ∉ c.toList := by
  constructor
  · rintro rfl
    have hnil := List.forall₂_nil_right_iff.1 (mapM_eq_ok_iff.1 h)
    exact fields_ne_nil _ _ hnil
  · intro c hc
    obtain ⟨part, hp, hr⟩ := exists_of_mem_mapM h hc
    exact valid_readCode hr (not_mem_of_mem_fields hp)

theorem le_of_readDates {start stop : Date} (h : readDates s = .ok (start, stop)) :
    start ≤ stop := by
  obtain ⟨a, -, h⟩ := bind_eq_ok_iff.1 h
  obtain ⟨b, -, h⟩ := bind_eq_ok_iff.1 h
  split at h
  · cases h
  · next hab =>
    obtain ⟨rfl, rfl⟩ := Prod.mk.inj (Except.ok.inj h)
    exact Int.not_lt.1 hab

theorem one_le_of_readIndicators {kinds : List IndicatorKind} (h : readIndicators s = .ok kinds) :
    ∀ k ∈ kinds, 1 ≤ k.period := by
  unfold readIndicators at h
  split at h
  · obtain rfl := Except.ok.inj h
    exact fun k hk => absurd hk List.not_mem_nil
  · intro k hk
    obtain ⟨part, -, hr⟩ := exists_of_mem_mapM h hk
    exact (IndicatorKind.read_eq_ok_iff.1 hr).2.1

/-- Settings of any origin give a valid plan, if they give one at all. -/
theorem valid_of_ofSettings (h : ofSettings s = .ok p) : p.Valid := by
  obtain ⟨path, exchange, ⟨t, -, codes⟩, dates, -, -, kinds⟩ := ofSettings_eq_ok_iff.1 h
  obtain ⟨hne, hcodes⟩ := valid_readCodes codes
  exact ⟨valid_required path, valid_required exchange, hne, hcodes, le_of_readDates dates,
    one_le_of_readIndicators kinds⟩

/-! ### Overrides -/

theorem override_eq (code exchange : Option String) : p.override code exchange =
    { p with
      codes := code.elim p.codes fun c => [upperString (trimString c)]
      exchange := exchange.elim p.exchange trimString } := by
  cases code <;> cases exchange <;> rfl

/-- The code of an override is trimmed and put in upper case, as a code of the settings is. -/
theorem valid_overrideCode_iff {c : String} :
    (upperString (trimString c) ≠ "" ∧ ',' ∉ (upperString (trimString c)).toList) ↔
      isBlankText c.toList = false ∧ ',' ∉ c.toList := by
  rw [ne_eq, ← String.toList_eq_nil_iff, upperString, String.toList_ofList, toList_trimString,
    comma_mem_upper_trim_iff, ← Bool.not_eq_true, ← trim_eq_nil_iff]
  exact and_congr_left' ⟨fun h e => h (by rw [e]; rfl), upper_ne_nil⟩

theorem valid_overrideExchange_iff {e : String} :
    (trimString e ≠ "" ∧ Trimmed (trimString e).toList) ↔ isBlankText e.toList = false := by
  rw [ne_eq, trimString_eq_empty_iff, Bool.not_eq_true, toList_trimString]
  exact and_iff_left (trimmed_trim _)

/-- A plan with overrides is valid exactly if no override is blank and the code has no comma in it:
the settings in their place would have been refused or split. -/
theorem valid_override_iff {s : Settings} {p : LoadPlan} (h : ofSettings s = .ok p)
    (code exchange : Option String) : (p.override code exchange).Valid ↔
      (∀ c ∈ code, isBlankText c.toList = false ∧ ',' ∉ c.toList) ∧
      ∀ e ∈ exchange, isBlankText e.toList = false := by
  have hp := valid_of_ofSettings h
  rw [override_eq]
  constructor
  · intro hv
    constructor
    · rintro c rfl
      exact valid_overrideCode_iff.1 (hv.codes _ List.mem_cons_self)
    · rintro e rfl
      exact valid_overrideExchange_iff.1 hv.exchange
  · rintro ⟨hcode, hexchange⟩
    constructor
    · exact hp.dataPath
    · cases exchange with
      | none => exact hp.exchange
      | some e => exact valid_overrideExchange_iff.2 (hexchange e rfl)
    · cases code with
      | none => exact hp.codes_ne_nil
      | some c => exact List.cons_ne_nil _ _
    · cases code with
      | none => exact hp.codes
      | some c =>
        intro c' hc'
        obtain rfl := List.mem_singleton.1 hc'
        exact valid_overrideCode_iff.2 (hcode c rfl)
    · exact hp.ordered
    · exact hp.periods

/-- Settings with nothing but what a plan needs. -/
def sparseSettings : Settings :=
  ⟨fun heading key => [(("data", "path"), " d "), (("load", "exchange"), "ASX"),
    (("load", "codes"), "bhp, CBA")].lookup (heading, key)⟩

def sparsePlan : LoadPlan where
  dataPath := "d"
  exchange := "ASX"
  codes := ["BHP", "CBA"]
  start := Date.first
  stop := Date.last
  timeframe := .d1
  price := .closing
  indicators := []

theorem valid_override_iff_sparsePlan : ofSettings sparseSettings = .ok sparsePlan ∧
    (sparsePlan.override (some " wbc ") (some "NYSE")).Valid ∧
    ¬ (sparsePlan.override (some "wbc,anz") none).Valid := by
  have h : ofSettings sparseSettings = .ok sparsePlan := by rfl
  refine ⟨h, (valid_override_iff h _ _).2 ?_, fun hv => ?_⟩
  · decide
  · exact absurd ((valid_override_iff h _ _).1 hv) (by decide)

/-- A blank exchange and a blank code are refused in settings, but overrides put them into the
plan. -/
theorem not_valid_override_blank : ofSettings sparseSettings = .ok sparsePlan ∧
    ¬ (sparsePlan.override none (some " ")).Valid ∧
    ¬ (sparsePlan.override (some "") none).Valid := by
  refine ⟨by rfl, fun hv => ?_, fun hv => ?_⟩
  · exact hv.exchange.1 (by decide)
  · exact (hv.codes "" (by decide)).1 rfl

end LoadPlan

end Custody
