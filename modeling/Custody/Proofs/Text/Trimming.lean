import Mathlib.Data.List.DropRight
import Custody.Text.Blank

/-!
# Texts without blanks at their ends

`Trimmed` says that a text neither starts nor ends with a blank.  `trim` gives such a text
(`trimmed_trim`), leaves one as it is (`Trimmed.trim_eq`), and gives nothing only if there are
nothing but blanks (`trim_eq_nil_iff`).
-/

namespace Custody.Text

variable {cs as bs : List Char} {c : Char}

/-- No blank at either end. -/
structure Trimmed (cs : List Char) : Prop where
  head : ∀ c ∈ cs.head?, isBlank c = false
  last : ∀ c ∈ cs.getLast?, isBlank c = false

theorem trimmed_iff : Trimmed cs ↔
    cs.head?.all (!isBlank ·) = true ∧ cs.getLast?.all (!isBlank ·) = true := by
  simp only [Option.all_eq_true, Bool.not_eq_true']
  exact ⟨fun h => ⟨h.head, h.last⟩, fun h => ⟨h.1, h.2⟩⟩

instance (cs : List Char) : Decidable (Trimmed cs) := decidable_of_iff _ trimmed_iff.symm

theorem trimmed_of_forall (h : ∀ c ∈ cs, isBlank c = false) : Trimmed cs where
  head c hc := h c (List.mem_of_mem_head? hc)
  last c hc := h c (List.mem_of_getLast? hc)

/-! ### One end -/

theorem trimLeft_eq_self (h : ∀ c ∈ cs.head?, isBlank c = false) : trimLeft cs = cs := by
  cases cs with
  | nil => rfl
  | cons c cs => exact List.dropWhile_cons_of_neg (by simp [h c rfl])

theorem trimLeft_cons_blank (hc : isBlank c = true) (cs : List Char) :
    trimLeft (c :: cs) = trimLeft cs :=
  List.dropWhile_cons_of_pos hc

theorem head_trimLeft (cs : List Char) : ∀ c ∈ (trimLeft cs).head?, isBlank c = false := by
  intro c hc
  have h := List.head?_dropWhile_not isBlank cs
  rw [show (cs.dropWhile isBlank).head? = some c from hc] at h
  simpa using h

theorem trimRight_eq_rdropWhile (cs : List Char) : trimRight cs = cs.rdropWhile isBlank := rfl

theorem trimRight_concat_blank (hc : isBlank c = true) (cs : List Char) :
    trimRight (cs ++ [c]) = trimRight cs :=
  List.rdropWhile_concat_pos _ _ _ hc

theorem trimRight_eq_self (h : ∀ c ∈ cs.getLast?, isBlank c = false) : trimRight cs = cs := by
  rw [trimRight_eq_rdropWhile, List.rdropWhile_eq_self_iff]
  intro hne
  simp [h _ (List.getLast?_eq_getLast_of_ne_nil hne)]

theorem last_trimRight (cs : List Char) : ∀ c ∈ (trimRight cs).getLast?, isBlank c = false := by
  intro c hc
  obtain ⟨hne, rfl⟩ := List.mem_getLast?_eq_getLast hc
  exact Bool.eq_false_iff.2 (List.rdropWhile_last_not isBlank cs hne)

/-- What ends in a character that is not blank stays when blanks behind it are cut. -/
theorem trimRight_append (h : ∀ c ∈ as.getLast?, isBlank c = false) (bs : List Char) :
    trimRight (as ++ bs) = as ++ trimRight bs := by
  induction bs using List.reverseRecOn with
  | nil => simpa [trimRight] using trimRight_eq_self h
  | append_singleton bs b ih =>
    rw [← List.append_assoc, trimRight_eq_rdropWhile, trimRight_eq_rdropWhile,
      List.rdropWhile_concat, List.rdropWhile_concat, ← trimRight_eq_rdropWhile, ih]
    split
    · rfl
    · rw [List.append_assoc]

/-! ### Both ends -/

theorem Trimmed.trim_eq (h : Trimmed cs) : trim cs = cs := by
  rw [trim, trimLeft_eq_self h.head, trimRight_eq_self h.last]

theorem trimmed_trim (cs : List Char) : Trimmed (trim cs) where
  head := by
    intro c hc
    obtain ⟨ds, hd⟩ := List.rdropWhile_prefix isBlank (trimLeft cs)
    refine head_trimLeft cs c ?_
    rw [← hd]
    exact List.mem_head?_append_of_mem_head? hc
  last := last_trimRight _

theorem trim_cons_blank (hc : isBlank c = true) (cs : List Char) : trim (c :: cs) = trim cs := by
  rw [trim, trimLeft_cons_blank hc, trim]

theorem trim_concat_blank (hc : isBlank c = true) (cs : List Char) :
    trim (cs ++ [c]) = trim cs := by
  by_cases hall : ∀ a ∈ cs, isBlank a = true
  · have h₁ : trimLeft (cs ++ [c]) = [] := List.dropWhile_eq_nil_iff.2 fun a ha => by
      rcases List.mem_append.1 ha with ha | ha
      · exact hall a ha
      · rwa [List.mem_singleton.1 ha]
    have h₂ : trimLeft cs = [] := List.dropWhile_eq_nil_iff.2 hall
    rw [trim, trim, h₁, h₂]
  · have hne : (cs.dropWhile isBlank).isEmpty = false := by
      rw [List.isEmpty_eq_false_iff, ne_eq, List.dropWhile_eq_nil_iff]
      exact hall
    have h : trimLeft (cs ++ [c]) = trimLeft cs ++ [c] := by
      rw [trimLeft, List.dropWhile_append, hne]
      rfl
    rw [trim, h, trimRight_concat_blank hc, trim]

theorem trim_blanks_append (h : isBlankText as = true) (bs : List Char) :
    trim (as ++ bs) = trim bs := by
  rw [isBlankText, List.all_eq_true] at h
  induction as with
  | nil => rfl
  | cons a as ih =>
    rw [List.cons_append, trim_cons_blank (h a List.mem_cons_self),
      ih fun c hc => h c (List.mem_cons_of_mem _ hc)]

theorem trim_append_blanks (as : List Char) (h : isBlankText bs = true) :
    trim (as ++ bs) = trim as := by
  rw [isBlankText, List.all_eq_true] at h
  induction bs using List.reverseRecOn with
  | nil => rw [List.append_nil]
  | append_singleton bs b ih =>
    rw [← List.append_assoc, trim_concat_blank (h b (by simp)),
      ih fun c hc => h c (List.mem_append_left _ hc)]

/-- What is cut off a text is blank. -/
theorem exists_blanks (cs : List Char) : ∃ as bs, isBlankText as = true ∧ isBlankText bs = true ∧
    cs = as ++ (trim cs ++ bs) := by
  refine ⟨cs.takeWhile isBlank, (trimLeft cs).rtakeWhile isBlank, ?_, ?_, ?_⟩
  · exact List.all_eq_true.2 fun c hc => List.mem_takeWhile_imp hc
  · exact List.all_eq_true.2 fun c hc => List.mem_rtakeWhile_imp hc
  · rw [trim, trimRight_eq_rdropWhile, List.rdropWhile_append_rtakeWhile, trimLeft,
      List.takeWhile_append_dropWhile]

theorem trim_trimRight (cs : List Char) : trim (trimRight cs) = trim cs := by
  induction cs using List.reverseRecOn with
  | nil => rfl
  | append_singleton cs c ih =>
    by_cases hc : isBlank c = true
    · rw [trimRight_concat_blank hc, ih, trim_concat_blank hc]
    · rw [trimRight_eq_rdropWhile, List.rdropWhile_concat_neg _ _ _ hc]

theorem trim_eq_nil_iff : trim cs = [] ↔ isBlankText cs = true := by
  rw [isBlankText, List.all_eq_true]
  constructor
  · intro h
    by_contra hn
    have hne : trimLeft cs ≠ [] := fun h' => hn (List.dropWhile_eq_nil_iff.1 h')
    obtain ⟨c, ds, hd⟩ := List.exists_cons_of_ne_nil hne
    have hc : isBlank c = false := head_trimLeft cs c (by rw [hd]; rfl)
    rw [trim, hd, trimRight_eq_rdropWhile, List.rdropWhile_eq_nil_iff] at h
    rw [h c List.mem_cons_self] at hc
    cases hc
  · intro h
    rw [trim, trimLeft, List.dropWhile_eq_nil_iff.2 h]
    rfl

theorem Trimmed.not_isBlankText (h : Trimmed cs) (hne : cs ≠ []) : isBlankText cs = false := by
  rw [Bool.eq_false_iff, ne_eq, ← trim_eq_nil_iff, h.trim_eq]
  exact hne

theorem mem_trim_iff (hc : isBlank c = false) : c ∈ trim cs ↔ c ∈ cs := by
  have drop (ds : List Char) : c ∈ ds.dropWhile isBlank ↔ c ∈ ds := by
    refine ⟨fun h => (List.dropWhile_sublist _).mem h, fun h => ?_⟩
    rw [← List.takeWhile_append_dropWhile (p := isBlank) (l := ds), List.mem_append] at h
    exact h.resolve_left fun hm => absurd (List.mem_takeWhile_imp hm) (by simp [hc])
  rw [trim, trimRight, trimLeft, List.mem_reverse, drop, List.mem_reverse, drop]

/-! ### Strings -/

theorem trimString_eq_self {s : String} (h : Trimmed s.toList) : trimString s = s := by
  rw [trimString, h.trim_eq, String.ofList_toList]

theorem toList_trimString (s : String) : (trimString s).toList = trim s.toList :=
  String.toList_ofList

theorem trimString_eq_empty_iff {s : String} : trimString s = "" ↔ isBlankText s.toList = true := by
  rw [← String.toList_eq_nil_iff, toList_trimString, trim_eq_nil_iff]

end Custody.Text
