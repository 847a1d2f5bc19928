import Custody.Proofs.Market.Naming
import Custody.Proofs.Text.Parts

/-!
# Lists of kinds

A list of kinds is read token by token, and a token that is no kind stops it
(`IndicatorKind.readList_eq_ok_iff`, `IndicatorKind.readList_eq_error_iff`).  So two lists with a
comma between them are read one after the other, blank parts count for nothing, and a list is read
from its names with any blanks around them and any further commas (`IndicatorKind.readList_joined`).
-/

namespace Custody

open Text

namespace IndicatorKind

variable {k : IndicatorKind} {ks : List IndicatorKind} {cs : List Char} {texts : List String}

/-- A text that is read as a kind: it spells one, and that one can be read. -/
def Names (cs : List Char) (k : IndicatorKind) : Prop := Spelling (upper (trim cs)) k ∧ k.Readable

theorem names_of_trim_eq (h : trim cs = k.text.toList) (hk : k.Readable) : Names cs k := by
  rw [Names, h, upper_text]
  exact ⟨k.spelling_text, hk⟩

/-! ### Token by token -/

theorem readList_eq_mapM (cs : List Char) : readList cs = (tokens ',' cs).mapM read := rfl

theorem readList_eq_ok_iff : readList cs = .ok ks ↔ List.Forall₂ Names (tokens ',' cs) ks := by
  simp only [readList_eq_mapM, mapM_eq_ok_iff, read_eq_ok_iff]
  rfl

theorem exists_readList_iff :
    (∃ ks, readList cs = .ok ks) ↔ ∀ part ∈ tokens ',' cs, ∃ k, Names part k := by
  simp only [readList_eq_mapM, exists_mapM_eq_ok_iff, read_eq_ok_iff]
  rfl

/-- The first token that names no kind decides the error. -/
theorem readList_eq_error_iff {e : Error} : readList cs = .error e ↔
    ∃ before part after, tokens ',' cs = before ++ part :: after ∧
      (∀ b ∈ before, ∃ k, Names b k) ∧ (¬∃ k, Names part k) ∧
        e = .unknownIndicator (String.ofList (trim part)) := by
  simp only [readList_eq_mapM, mapM_eq_error_iff, read_eq_ok_iff, read_eq_error_iff, not_exists,
    and_comm (a := e = _)]
  rfl

theorem readList_append (cs ds : List Char) : readList (cs ++ ',' :: ds) = (do
    let ks ← readList cs
    let ks' ← readList ds
    .ok (ks ++ ks')) := by
  rw [readList_eq_mapM, tokens_append, List.mapM_append]
  rfl

theorem readList_intercalate_congr {parts parts' : List (List Char)}
    (h : parts.flatMap (tokens ',') = parts'.flatMap (tokens ',')) :
    readList ([','].intercalate parts) = readList ([','].intercalate parts') := by
  rw [readList_eq_mapM, tokens_intercalate (by decide), h, ← tokens_intercalate (by decide),
    ← readList_eq_mapM]

/-! ### Padded lists -/

/-- The names of kinds in order, with blanks around them and blank texts between them. -/
inductive Padded : List IndicatorKind → List String → Prop where
  | nil : Padded [] []
  | blank {w : String} {ks : List IndicatorKind} {texts : List String}
      (hw : isBlankText w.toList = true) (h : Padded ks texts) : Padded ks (w :: texts)
  | name {v w : String} {k : IndicatorKind} {ks : List IndicatorKind} {texts : List String}
      (hv : isBlankText v.toList = true) (hw : isBlankText w.toList = true) (h : Padded ks texts) :
      Padded (k :: ks) ((v ++ k.text ++ w) :: texts)

theorem padded_text (ks : List IndicatorKind) : Padded ks (ks.map text) := by
  induction ks with
  | nil => exact .nil
  | cons k ks ih =>
    have h := @Padded.name "" "" k ks _ rfl rfl ih
    rwa [String.empty_append, String.append_empty] at h

/-- The name of a kind with blanks around it is one token, which names the kind. -/
theorem tokens_padding {v w : String} (hv : isBlankText v.toList = true)
    (hw : isBlankText w.toList = true) (k : IndicatorKind) :
    ∃ part, tokens ',' (v ++ k.text ++ w).toList = [part] ∧ trim part = k.text.toList := by
  have htrim : trim (v ++ k.text ++ w).toList = k.text.toList := by
    rw [String.toList_append, String.toList_append, trim_append_blanks _ hw,
      trim_blanks_append hv, k.trimmed_text.trim_eq]
  refine ⟨_, tokens_of_not_mem ?_ ?_, htrim⟩
  · rw [String.toList_append, String.toList_append, List.mem_append, List.mem_append]
    rintro ((h | h) | h)
    · exact not_mem_of_isBlankText (by decide) hv h
    · exact k.comma_not_mem_text h
    · exact not_mem_of_isBlankText (by decide) hw h
  · rw [Bool.eq_false_iff, ne_eq, ← trim_eq_nil_iff, htrim]
    exact k.text_ne_nil

theorem Padded.names (h : Padded ks texts) (hks : ∀ k ∈ ks, k.Readable) :
    List.Forall₂ Names ((texts.map String.toList).flatMap (tokens ',')) ks := by
  induction h with
  | nil => exact .nil
  | blank hw _ ih =>
    rw [List.map_cons, List.flatMap_cons, tokens_of_isBlankText (by decide) hw]
    exact ih hks
  | @name v w k ks texts hv hw _ ih =>
    obtain ⟨hk, hks⟩ := List.forall_mem_cons.1 hks
    obtain ⟨part, hpart, htrim⟩ := tokens_padding hv hw k
    rw [List.map_cons, List.flatMap_cons, hpart]
    exact .cons (names_of_trim_eq htrim hk) (ih hks)

theorem Padded.readList (h : Padded ks texts) (hks : ∀ k ∈ ks, k.Readable) :
    readList (",".intercalate texts).toList = .ok ks := by
  rw [toList_intercalate_comma, readList_eq_ok_iff, tokens_intercalate (by decide)]
  exact h.names hks

/-- Kinds are read from their names with commas between them. -/
theorem readList_intercalate (hks : ∀ k ∈ ks, k.Readable) :
    readList (",".intercalate (ks.map text)).toList = .ok ks :=
  (padded_text ks).readList hks

/-- Two lists with a comma between them are read one after the other, and the first error is that of
the whole.  A blank text between others changes nothing.  The names of kinds that can be read give
those kinds in order, with any blanks around them and any further commas. -/
theorem readList_joined :
    (∀ a b : String, readList (a ++ "," ++ b).toList = (do
      let ks ← readList a.toList
      let ks' ← readList b.toList
      .ok (ks ++ ks'))) ∧
    (∀ (before after : List String) (w : String), isBlankText w.toList = true →
      readList (",".intercalate (before ++ w :: after)).toList =
        readList (",".intercalate (before ++ after)).toList) ∧
    ∀ (ks : List IndicatorKind) (texts : List String), Padded ks texts → (∀ k ∈ ks, k.Readable) →
      readList (",".intercalate texts).toList = .ok ks := by
  refine ⟨fun a b => ?_, fun before after w hw => ?_, fun ks texts h hks => h.readList hks⟩
  · have hcomma : ",".toList = [','] := rfl
    rw [String.toList_append, String.toList_append, hcomma, List.append_assoc,
      List.singleton_append, readList_append]
  · have hnone : tokens ',' w.toList = [] := tokens_of_isBlankText (by decide) hw
    rw [toList_intercalate_comma, toList_intercalate_comma]
    apply readList_intercalate_congr
    simp only [List.map_append, List.map_cons, List.flatMap_append, List.flatMap_cons, hnone,
      List.nil_append]

/-- Empty parts at both ends, a wide blank between commas, blanks around names, the longest period
and a kind that comes twice. -/
theorem readList_joined_padded :
    let ks : List IndicatorKind := [⟨.sma, 20⟩, ⟨.ema, UInt64.size - 1⟩, ⟨.sma, 20⟩]
    let texts := ["", " SMA(20)\u2003", "EMA(18446744073709551615)", "\tSMA(20)", ""]
    Padded ks texts ∧ (∀ k ∈ ks, k.Readable) ∧
      readList ", SMA(20)\u2003,EMA(18446744073709551615),\tSMA(20),".toList = .ok ks ∧
      isBlankText "\u3000".toList = true ∧
      readList ", SMA(20)\u2003,\u3000,EMA(18446744073709551615),\tSMA(20),".toList = .ok ks := by
  intro ks texts
  have hpad : Padded ks texts := by
    have h₁ := @Padded.name "\t" "" ⟨.sma, 20⟩ [] [""] rfl rfl (.blank rfl .nil)
    have h₂ := @Padded.name "" "" ⟨.ema, UInt64.size - 1⟩ _ _ rfl rfl h₁
    exact .blank rfl (@Padded.name " " "\u2003" ⟨.sma, 20⟩ _ _ rfl rfl h₂)
  have hks : ∀ k ∈ ks, k.Readable := by decide
  have hw : isBlankText "\u3000".toList = true := by decide
  have hread := readList_joined.2.2 ks texts hpad hks
  exact ⟨hpad, hks, hread, hw, (readList_joined.2.1 (texts.take 2) (texts.drop 2) _ hw).trans hread⟩

end IndicatorKind

end Custody
