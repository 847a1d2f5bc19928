import Custody.Config.Plan
import Custody.Proofs.Market.KindLists

/-!
# Reading one setting

Each part of a plan is read from one setting: a text that must be there (`IsFilled`), a list of
codes, a date that has a default (`IsDated`), a name or a list of indicators.  For each of them the
lemmas say when it can be read and which error it gives if it cannot.
-/

namespace Custody

open Text

namespace LoadPlan

variable {s : Settings} {heading key t : String} {e : Error}

/-! ### Settings that must be filled -/

/-- A setting is there and is not blank. -/
def IsFilled (s : Settings) (heading key : String) : Prop :=
  ∃ t, s.text? heading key = some t ∧ isBlankText t.toList = false

theorem required_eq_ok_iff : required s heading key = .ok t ↔
    ∃ u, s.text? heading key = some u ∧ isBlankText u.toList = false ∧ trimString u = t := by
  unfold required
  cases s.text? heading key with
  | none => simp
  | some u => cases h : isBlankText u.toList <;> simp [h]

theorem exists_required_iff : (∃ t, required s heading key = .ok t) ↔ IsFilled s heading key := by
  simp only [required_eq_ok_iff, IsFilled]
  constructor
  · rintro ⟨t, u, hu, hblank, -⟩
    exact ⟨u, hu, hblank⟩
  · rintro ⟨u, hu, hblank⟩
    exact ⟨_, u, hu, hblank, rfl⟩

theorem eq_of_required_eq_error (h : required s heading key = .error e) :
    e = .configMissing heading key := by
  unfold required at h
  split at h
  · exact (Except.error.inj h).symm
  · split at h
    · exact (Except.error.inj h).symm
    · cases h

/-! ### Codes -/

theorem exists_readCode_iff {cs : List Char} :
    (∃ c, readCode cs = .ok c) ↔ isBlankText cs = false := by
  rw [← Bool.not_eq_true, ← trim_eq_nil_iff, readCode]
  cases trim cs <;> simp

theorem eq_of_readCode_eq_error {cs : List Char} (h : readCode cs = .error e) :
    e = invalid "codes" "empty token in code list" := by
  unfold readCode at h
  split at h
  · exact (Except.error.inj h).symm
  · cases h

/-- Blanks at the ends of a list of codes are blanks at the ends of its codes. -/
theorem readCodes_trimString (t : String) : readCodes (trimString t) = readCodes t := by
  have hcomma : isBlank ',' = false := by decide
  have h := trim_fields_trim hcomma t.toList
  rw [← List.forall₂_eq_eq_eq, List.forall₂_map_left_iff, List.forall₂_map_right_iff] at h
  rw [readCodes, readCodes, toList_trimString]
  exact mapM_congr (h.imp fun part part' e => by rw [readCode, readCode, e])

theorem exists_readCodes_iff : (∃ codes, readCodes t = .ok codes) ↔
    ∀ part ∈ fields ',' t.toList, isBlankText part = false := by
  simp only [readCodes, exists_mapM_eq_ok_iff, exists_readCode_iff]

theorem eq_of_readCodes_eq_error (h : readCodes t = .error e) :
    e = invalid "codes" "empty token in code list" := by
  obtain ⟨_, _, _, -, -, h⟩ := mapM_eq_error_iff.1 h
  exact eq_of_readCode_eq_error h

/-! ### Dates -/

/-- The date that a setting stands for: the one it gives, or the default if it is missing. -/
def IsDated (s : Settings) (key : String) (default d : Date) : Prop :=
  match s.text? "load" key with
  | none => d = default
  | some t => Date.read (trim t.toList) = .ok d

theorem readDate_eq_ok_iff {default d : Date} :
    readDate s key default = .ok d ↔ IsDated s key default d := by
  unfold readDate IsDated
  cases s.text? "load" key with
  | none => simp [eq_comm]
  | some t => cases h : Date.read (trim t.toList) <;> simp [h]

theorem eq_of_readDate_eq_error {default : Date} (h : readDate s key default = .error e) :
    e = invalid key ("invalid " ++ key ++ " format, expected YYYY-MM-DD") := by
  unfold readDate at h
  split at h
  · cases h
  · split at h
    · cases h
    · exact (Except.error.inj h).symm

/-! ### Names -/

section Named

variable {α : Type} {read : String → Except String α} {default : α}

theorem exists_readNamed_iff : (∃ a, readNamed s key read default = .ok a) ↔
    ∀ t ∈ s.text? "load" key, ∃ a, read t = .ok a := by
  unfold readNamed
  cases s.text? "load" key with
  | none => simp
  | some t => cases h : read t <;> simp [Except.mapError, h]

theorem exists_of_readNamed_eq_error (h : readNamed s key read default = .error e) :
    ∃ t ∈ s.text? "load" key, ∃ reason, read t = .error reason ∧ e = invalid key reason := by
  unfold readNamed at h
  split at h
  · cases h
  · next t ht =>
    cases hr : read t with
    | ok a => rw [hr] at h; cases h
    | error reason =>
      rw [hr] at h
      exact ⟨t, ht, reason, hr, (Except.error.inj h).symm⟩

end Named

/-! ### Indicators -/

theorem exists_readIndicators_iff : (∃ ks, readIndicators s = .ok ks) ↔
    ∀ t ∈ s.text? "load" "indicators", ∀ part ∈ tokens ',' t.toList,
      ∃ k, IndicatorKind.Names part k := by
  unfold readIndicators
  cases s.text? "load" "indicators" with
  | none => simp
  | some t => simp [IndicatorKind.exists_readList_iff]

theorem readIndicators_eq_error_iff : readIndicators s = .error e ↔
    ∃ t ∈ s.text? "load" "indicators", IndicatorKind.readList t.toList = .error e := by
  unfold readIndicators
  cases s.text? "load" "indicators" <;> simp

end LoadPlan

end Custody
