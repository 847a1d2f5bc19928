import Custody.Text.Split

/-!
# Joining and splitting

Parts without a separator that are joined by separators come back when the text is split
(`fields_intercalate`), the parts of a text have no separator in them (`not_mem_of_mem_fields`), and
a text is cut at the first character of a kind (`cut_eq_some_iff`) and loses a tail only if it
ends in it (`dropTail?_eq_some_iff`).
-/

namespace Custody.Text

variable {sep c : Char} {cs as bs tail : List Char} {p : Char → Bool}

theorem fields_of_not_mem (h : sep ∉ cs) : fields sep cs = [cs] := by
  induction cs with
  | nil => rfl
  | cons c cs ih =>
    rw [List.mem_cons, not_or] at h
    rw [fields, if_neg (Ne.symm h.1), ih h.2]

/-- A text without a separator that stands in front of another belongs to the first part. -/
theorem exists_fields_append_left (h : sep ∉ as) (cs : List Char) :
    ∃ part parts, fields sep cs = part :: parts ∧
      fields sep (as ++ cs) = (as ++ part) :: parts := by
  induction as with
  | nil =>
    obtain ⟨part, parts, e⟩ := List.exists_cons_of_ne_nil (fields_ne_nil sep cs)
    exact ⟨part, parts, e, e⟩
  | cons a as ih =>
    rw [List.mem_cons, not_or] at h
    obtain ⟨part, parts, e, e'⟩ := ih h.2
    exact ⟨part, parts, e, by rw [List.cons_append, fields, if_neg (Ne.symm h.1), e']; rfl⟩

/-- A text without a separator that stands behind another belongs to the last part. -/
theorem exists_fields_append_right (h : sep ∉ bs) (cs : List Char) :
    ∃ parts part, fields sep cs = parts ++ [part] ∧
      fields sep (cs ++ bs) = parts ++ [part ++ bs] := by
  induction cs with
  | nil => exact ⟨[], [], rfl, fields_of_not_mem h⟩
  | cons c cs ih =>
    obtain ⟨parts, part, e, e'⟩ := ih
    rw [List.cons_append, fields, fields, e, e']
    by_cases hc : c = sep
    · rw [if_pos hc, if_pos hc]
      exact ⟨[] :: parts, part, rfl, rfl⟩
    · rw [if_neg hc, if_neg hc]
      cases parts with
      | nil => exact ⟨[], c :: part, rfl, rfl⟩
      | cons first parts => exact ⟨(c :: first) :: parts, part, rfl, rfl⟩

/-- Parts joined by separators come back. -/
theorem fields_intercalate {parts : List (List Char)} (hne : parts ≠ [])
    (h : ∀ part ∈ parts, sep ∉ part) : fields sep ([sep].intercalate parts) = parts := by
  induction parts with
  | nil => exact absurd rfl hne
  | cons part parts ih =>
    have hpart := h part List.mem_cons_self
    cases parts with
    | nil => rw [List.intercalate_singleton, fields_of_not_mem hpart]
    | cons next parts =>
      rw [List.intercalate_cons_cons, List.append_assoc, List.singleton_append, fields_append,
        fields_of_not_mem hpart, ih (List.cons_ne_nil _ _) fun part hp =>
          h part (List.mem_cons_of_mem _ hp)]
      rfl

theorem toList_intercalate_comma (texts : List String) :
    (",".intercalate texts).toList = [','].intercalate (texts.map String.toList) :=
  String.toList_intercalate

theorem not_mem_of_mem_fields {part : List Char} (h : part ∈ fields sep cs) : sep ∉ part := by
  induction cs generalizing part with
  | nil =>
    obtain rfl := List.mem_singleton.1 h
    exact List.not_mem_nil
  | cons c cs ih =>
    rw [fields] at h
    split at h
    · rcases List.mem_cons.1 h with rfl | h
      · exact List.not_mem_nil
      · exact ih h
    · next hc =>
      obtain ⟨f, fs, hf⟩ := List.exists_cons_of_ne_nil (fields_ne_nil sep cs)
      rw [hf] at h ih
      rcases List.mem_cons.1 h with rfl | h
      · rw [List.mem_cons, not_or]
        exact ⟨Ne.symm hc, ih List.mem_cons_self⟩
      · exact ih (List.mem_cons_of_mem _ h)

/-- A text is cut at its first character that is `p`. -/
theorem cut_append (h : ∀ a ∈ as, p a = false) (hc : p c = true) (bs : List Char) :
    cut p (as ++ c :: bs) = some (as, bs) := by
  induction as with
  | nil => rw [List.nil_append, cut, if_pos hc]
  | cons a as ih =>
    rw [List.cons_append, cut, if_neg (by simp [h a List.mem_cons_self]),
      ih fun b hb => h b (List.mem_cons_of_mem _ hb)]
    rfl

theorem cut_eq_some_iff : cut p cs = some (as, bs) ↔
    ∃ c, cs = as ++ c :: bs ∧ p c = true ∧ ∀ a ∈ as, p a = false := by
  refine ⟨fun h => ?_, fun ⟨c, e, hc, h⟩ => e ▸ cut_append h hc bs⟩
  induction cs generalizing as with
  | nil => cases h
  | cons d cs ih =>
    rw [cut] at h
    split at h
    · next hd =>
      cases h
      exact ⟨d, rfl, hd, fun a ha => absurd ha List.not_mem_nil⟩
    · next hd =>
      obtain ⟨⟨as', bs'⟩, hr, e⟩ := Option.map_eq_some_iff.1 h
      cases e
      obtain ⟨c, rfl, hc, h⟩ := ih hr
      exact ⟨c, rfl, hc, List.forall_mem_cons.2 ⟨Bool.eq_false_iff.2 hd, h⟩⟩

theorem dropTail?_append (as tail : List Char) : dropTail? tail (as ++ tail) = some as := by
  simp [dropTail?]

theorem dropTail?_eq_some_iff : dropTail? tail cs = some as ↔ cs = as ++ tail := by
  refine ⟨fun h => ?_, fun h => h ▸ dropTail?_append as tail⟩
  rw [dropTail?] at h
  split at h
  · next hs =>
    obtain ⟨bs, rfl⟩ := List.isSuffixOf_iff_suffix.1 hs
    have e : bs = as := by simpa using h
    rw [e]
  · cases h

end Custody.Text
