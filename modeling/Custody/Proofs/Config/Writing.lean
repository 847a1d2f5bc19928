import Custody.Proofs.Calendar.Reading
import Custody.Proofs.Config.Validity
import Custody.Proofs.Text.Ini

/-!
# Load plans read back

`LoadPlan.text` writes a plan in the form of settings.  `LoadPlan.ofText_text` says that reading it
gives the plan back, if its texts can be written down (`LoadPlan.Writable`): in all years, for all
timeframes and prices, and for any list of kinds whose periods fit 64 bits.
-/

namespace Custody

open Text

namespace LoadPlan

variable {p : LoadPlan} {s : Settings}

/-! ### The written form -/

def sections (p : LoadPlan) : List Ini.Section :=
  [("data", [("path", p.dataPath)]),
    ("load",
      [("exchange", p.exchange),
        ("codes", ",".intercalate p.codes),
        ("start_date", p.start.text),
        ("end_date", p.stop.text),
        ("timeframe", p.timeframe.text),
        ("applied_price", p.price.text),
        ("indicators", ",".intercalate (p.indicators.map IndicatorKind.text))])]

def text (p : LoadPlan) : String := Ini.write p.sections

/-- A text that stands for itself in settings: it is not empty, has no blanks at its ends, stands on
one line and has nothing in it that starts a comment. -/
def IsPlain (s : String) : Prop := s ≠ "" ∧ Ini.IsValue s.toList

instance (s : String) : Decidable (IsPlain s) := inferInstanceAs (Decidable (_ ∧ _))

/-- A plan that can be written as settings and read back. -/
structure Writable (p : LoadPlan) : Prop where
  dataPath : IsPlain p.dataPath
  exchange : IsPlain p.exchange
  codes_ne_nil : p.codes ≠ []
  codes : ∀ c ∈ p.codes, IsPlain c ∧ ',' ∉ c.toList ∧ upperString c = c
  ordered : p.start ≤ p.stop
  indicators : ∀ k ∈ p.indicators, k.Readable

/-! ### The values -/

theorem IsPlain.toList_ne_nil {t : String} (h : IsPlain t) : t.toList ≠ [] :=
  fun e => h.1 (String.toList_eq_nil_iff.1 e)

theorem isValue_date (d : Date) : Ini.IsValue d.text.toList := by
  refine ⟨d.trimmed_text, fun c hc => ?_⟩
  rcases Date.mem_text_cases hc with hd | rfl | rfl
  · exact Ini.plain_of_isDigit hd
  · decide
  · decide

theorem isValue_timeframe (t : Timeframe) : Ini.IsValue t.text.toList := by
  cases t <;> decide

theorem isValue_price (p : AppliedPrice) : Ini.IsValue p.text.toList := by
  cases p <;> decide

theorem isValue_kind (k : IndicatorKind) : Ini.IsValue k.text.toList :=
  ⟨k.trimmed_text, IndicatorKind.forall_mem_text (by decide) fun _ => Ini.plain_of_isDigit⟩

theorem isPlain_codes (h : p.Writable) : IsPlain (",".intercalate p.codes) := by
  rw [IsPlain, ne_eq, ← String.toList_eq_nil_iff, toList_intercalate_comma]
  refine (Ini.isValue_intercalate ?_ ?_).symm.imp_left fun ne => ne (by simpa using h.codes_ne_nil)
  · intro part hp
    obtain ⟨c, hc, rfl⟩ := List.mem_map.1 hp
    exact (h.codes c hc).1.toList_ne_nil
  · intro part hp
    obtain ⟨c, hc, rfl⟩ := List.mem_map.1 hp
    exact (h.codes c hc).1.2

theorem isValue_indicators (ks : List IndicatorKind) :
    Ini.IsValue (",".intercalate (ks.map IndicatorKind.text)).toList := by
  rw [toList_intercalate_comma, List.map_map]
  refine (Ini.isValue_intercalate ?_ ?_).1
  · intro part hp
    obtain ⟨k, -, rfl⟩ := List.mem_map.1 hp
    exact k.text_ne_nil
  · intro part hp
    obtain ⟨k, -, rfl⟩ := List.mem_map.1 hp
    exact isValue_kind k

theorem isSection_of_mem (h : p.Writable) : ∀ s ∈ p.sections, Ini.IsSection s := by
  have key : ∀ k ∈ ["path", "exchange", "codes", "start_date", "end_date", "timeframe",
      "applied_price", "indicators"], Ini.IsName k.toList := by decide
  intro s hs
  simp only [sections, List.mem_cons, List.not_mem_nil, or_false] at hs
  rcases hs with rfl | rfl
  · constructor
    · show Ini.IsName "data".toList
      decide
    · simpa using key "path" (by decide)
    · simpa using h.dataPath.2
  · constructor
    · show Ini.IsName "load".toList
      decide
    · simp only [List.forall_mem_cons, List.not_mem_nil, false_imp_iff, implies_true, and_true]
      exact ⟨key _ (by decide), key _ (by decide), key _ (by decide), key _ (by decide),
        key _ (by decide), key _ (by decide), key _ (by decide)⟩
    · simp only [List.forall_mem_cons, List.not_mem_nil, false_imp_iff, implies_true, and_true]
      exact ⟨h.exchange.2, (isPlain_codes h).2, isValue_date _, isValue_date _, isValue_timeframe _,
        isValue_price _, isValue_indicators _⟩

/-! ### The settings -/

/-- The settings that a plan stands for. -/
def settings (p : LoadPlan) : Settings := ⟨(⟨p.sections.flatMap Ini.entriesOf⟩ : Ini).get?⟩

theorem ofText_text (h : p.Writable) : Settings.ofText p.text = .ok p.settings := by
  rw [Settings.ofText, text, Ini.parse_write (isSection_of_mem h)]
  rfl

theorem text?_settings {heading key value : String}
    (hm : (heading, key, some value) ∈ p.sections.flatMap Ini.entriesOf)
    (hh : Ini.IsName heading.toList) (hk : Ini.IsName key.toList) :
    p.settings.text? heading key = some value := by
  refine Ini.get?_of_mem ?_ hm hh hk
  show [("data", "path"), ("load", "exchange"), ("load", "codes"), ("load", "start_date"),
    ("load", "end_date"), ("load", "timeframe"), ("load", "applied_price"),
    ("load", "indicators")].Nodup
  decide

/-! ### Reading the values -/

theorem required_eq {heading key t : String} (h : s.text? heading key = some t) (ht : IsPlain t) :
    required s heading key = .ok t := by
  have hblank := ht.2.trimmed.not_isBlankText ht.toList_ne_nil
  exact required_eq_ok_iff.2 ⟨t, h, hblank, trimString_eq_self ht.2.trimmed⟩

theorem readCode_eq {c : String} (hc : IsPlain c) (hup : upperString c = c) :
    readCode c.toList = .ok c := by
  unfold readCode
  rw [hc.2.trimmed.trim_eq]
  split
  · next e => exact absurd e hc.toList_ne_nil
  · exact congrArg _ hup

theorem readCodes_intercalate (h : p.Writable) :
    readCodes (",".intercalate p.codes) = .ok p.codes := by
  have hne : p.codes.map String.toList ≠ [] := by simpa using h.codes_ne_nil
  have hsep : ∀ part ∈ p.codes.map String.toList, ',' ∉ part := by
    intro part hp
    obtain ⟨c, hc, rfl⟩ := List.mem_map.1 hp
    exact (h.codes c hc).2.1
  rw [readCodes, toList_intercalate_comma, fields_intercalate hne hsep, mapM_eq_ok_iff,
    List.forall₂_map_left_iff, List.forall₂_same]
  exact fun c hc => readCode_eq (h.codes c hc).1 (h.codes c hc).2.2

theorem readDate_eq {key : String} {d default : Date} (h : s.text? "load" key = some d.text) :
    readDate s key default = .ok d := by
  simp only [readDate, h, d.trimmed_text.trim_eq, Date.read_text]

theorem readDates_eq {start stop : Date} (hs : s.text? "load" "start_date" = some start.text)
    (ht : s.text? "load" "end_date" = some stop.text) (h : start ≤ stop) :
    readDates s = .ok (start, stop) := by
  have hlt : ¬ stop < start := Int.not_lt.2 h
  simp only [readDates, readDate_eq hs, readDate_eq ht, bind, Except.bind, if_neg hlt]

theorem readNamed_eq {α : Type} {key t : String} {read : String → Except String α} {a default : α}
    (h : s.text? "load" key = some t) (hr : read t = .ok a) :
    readNamed s key read default = .ok a := by
  simp only [readNamed, h, hr, Except.mapError]

theorem readIndicators_eq {ks : List IndicatorKind} (h : ∀ k ∈ ks, k.Readable)
    (hs : s.text? "load" "indicators" = some (",".intercalate (ks.map IndicatorKind.text))) :
    readIndicators s = .ok ks := by
  simp only [readIndicators, hs]
  exact IndicatorKind.readList_intercalate h

/-- A plan that can be written as settings is read back from them. -/
theorem ofSettings_text (p : LoadPlan) (h : p.Writable) :
    (Settings.ofText p.text >>= ofSettings) = .ok p := by
  have path : p.settings.text? "data" "path" = some p.dataPath :=
    text?_settings (by simp [sections, Ini.entriesOf]) (by decide) (by decide)
  have exchange : p.settings.text? "load" "exchange" = some p.exchange :=
    text?_settings (by simp [sections, Ini.entriesOf]) (by decide) (by decide)
  have codes : p.settings.text? "load" "codes" = some (",".intercalate p.codes) :=
    text?_settings (by simp [sections, Ini.entriesOf]) (by decide) (by decide)
  have start : p.settings.text? "load" "start_date" = some p.start.text :=
    text?_settings (by simp [sections, Ini.entriesOf]) (by decide) (by decide)
  have stop : p.settings.text? "load" "end_date" = some p.stop.text :=
    text?_settings (by simp [sections, Ini.entriesOf]) (by decide) (by decide)
  have timeframe : p.settings.text? "load" "timeframe" = some p.timeframe.text :=
    text?_settings (by simp [sections, Ini.entriesOf]) (by decide) (by decide)
  have price : p.settings.text? "load" "applied_price" = some p.price.text :=
    text?_settings (by simp [sections, Ini.entriesOf]) (by decide) (by decide)
  have indicators : p.settings.text? "load" "indicators"
      = some (",".intercalate (p.indicators.map IndicatorKind.text)) :=
    text?_settings (by simp [sections, Ini.entriesOf]) (by decide) (by decide)
  rw [ofText_text h]
  show ofSettings p.settings = .ok p
  rw [ofSettings_eq_ok_iff]
  exact ⟨required_eq path h.dataPath, required_eq exchange h.exchange,
    ⟨_, required_eq codes (isPlain_codes h), readCodes_intercalate h⟩,
    readDates_eq start stop h.ordered, readNamed_eq timeframe (Timeframe.read_text _),
    readNamed_eq price (AppliedPrice.read_text _),
    readIndicators_eq h.indicators indicators⟩

/-- Texts with the delimiters of settings in them, years with a sign and the longest period. -/
def farPlan : LoadPlan where
  dataPath := "./a = [b]: c"
  exchange := "[X] = Y: Z"
  codes := ["A:B=1", "[X Y]", "=", "A:B=1"]
  start := Date.first
  stop := Date.last
  timeframe := .h1
  price := .typical
  indicators := [⟨.sma, UInt64.size - 1⟩, ⟨.ema, 1⟩, ⟨.sma, UInt64.size - 1⟩]

theorem ofSettings_text_farPlan :
    farPlan.Writable ∧ (Settings.ofText farPlan.text >>= ofSettings) = .ok farPlan := by
  have h : farPlan.Writable := by
    constructor <;> decide
  exact ⟨h, ofSettings_text farPlan h⟩

end LoadPlan

end Custody
