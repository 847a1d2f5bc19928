import Custody.Proofs.Text.Splitting
import Custody.Proofs.Text.Trimming

/-!
# Parts and blanks

Blanks at the ends of a text are blanks at the ends of its parts, so the parts of a trimmed text
differ from those of the text itself only by such blanks (`trim_fields_trim`).  `tokens` are the
parts that are not blank; they go along with joining (`tokens_append`, `tokens_intercalate`).  A
separator is never a blank.
-/

namespace Custody.Text

variable {sep : Char} {cs : List Char}

theorem not_mem_of_isBlankText (hsep : isBlank sep = false) (h : isBlankText cs = true) :
    sep ∉ cs := by
  intro hm
  rw [isBlankText, List.all_eq_true] at h
  rw [h sep hm] at hsep
  cases hsep

/-- The parts of a text without the blanks at its ends are those of the text, up to blanks at their
own ends. -/
theorem trim_fields_trim (hsep : isBlank sep = false) (cs : List Char) :
    (fields sep (trim cs)).map trim = (fields sep cs).map trim := by
  obtain ⟨as, bs, ha, hb, e⟩ := exists_blanks cs
  obtain ⟨last, part, hlast, hlast'⟩ :=
    exists_fields_append_right (not_mem_of_isBlankText hsep hb) (trim cs)
  obtain ⟨part', first, hfirst, hfirst'⟩ :=
    exists_fields_append_left (not_mem_of_isBlankText hsep ha) (trim cs ++ bs)
  calc (fields sep (trim cs)).map trim
      = (last ++ [part ++ bs]).map trim := by
        simp only [hlast, List.map_append, List.map_singleton, trim_append_blanks part hb]
    _ = (part' :: first).map trim := by rw [← hlast', hfirst]
    _ = ((as ++ part') :: first).map trim := by
        simp only [List.map_cons, trim_blanks_append ha part']
    _ = (fields sep cs).map trim := by rw [← hfirst', ← e]

/-! ### The parts that are not blank -/

/-- The parts of a text that are not blank. -/
def tokens (sep : Char) (cs : List Char) : List (List Char) :=
  (fields sep cs).filter fun part => !isBlankText part

theorem tokens_append (sep : Char) (as bs : List Char) :
    tokens sep (as ++ sep :: bs) = tokens sep as ++ tokens sep bs := by
  rw [tokens, fields_append, List.filter_append, ← tokens, ← tokens]

theorem tokens_of_isBlankText (hsep : isBlank sep = false) (h : isBlankText cs = true) :
    tokens sep cs = [] := by
  rw [tokens, fields_of_not_mem (not_mem_of_isBlankText hsep h), List.filter_singleton, h]
  rfl

theorem tokens_of_not_mem (h : sep ∉ cs) (hcs : isBlankText cs = false) : tokens sep cs = [cs] := by
  rw [tokens, fields_of_not_mem h, List.filter_singleton, hcs]
  rfl

/-- The tokens of joined texts are those of each, in order. -/
theorem tokens_intercalate (hsep : isBlank sep = false) (texts : List (List Char)) :
    tokens sep ([sep].intercalate texts) = texts.flatMap (tokens sep) := by
  induction texts with
  | nil => exact tokens_of_isBlankText hsep rfl
  | cons cs texts ih =>
    cases texts with
    | nil => rw [List.intercalate_singleton, List.flatMap_singleton]
    | cons next texts =>
      rw [List.intercalate_cons_cons, List.append_assoc, List.singleton_append, tokens_append, ih,
        ← List.flatMap_cons]

end Custody.Text
