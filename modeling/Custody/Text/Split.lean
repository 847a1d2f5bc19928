/-!
# Splitting

`fields sep` cuts a text at every `sep`; `cut p` cuts it at the first character of a kind.
-/

namespace Custody.Text

/-- The parts of a text between the separators; a text without any is one part. -/
def fields (sep : Char) : List Char → List (List Char)
  | [] => [[]]
  | c :: cs =>
    if c = sep then [] :: fields sep cs
    else
      match fields sep cs with
      | [] => [[c]]
      | f :: fs => (c :: f) :: fs

/-- What stands before the first character that is `p`, and what stands after it. -/
def cut (p : Char → Bool) : List Char → Option (List Char × List Char)
  | [] => none
  | c :: cs => if p c then some ([], cs) else (cut p cs).map fun r => (c :: r.1, r.2)

def dropTail? (tail cs : List Char) : Option (List Char) :=
  if tail.isSuffixOf cs then some (cs.take (cs.length - tail.length)) else none

theorem fields_ne_nil (sep : Char) (cs : List Char) : fields sep cs ≠ [] := by
  cases cs with
  | nil => simp [fields]
  | cons c cs =>
    rw [fields]
    split
    · simp
    · split <;> simp

/-- Joining two texts by a separator joins their parts. -/
theorem fields_append (sep : Char) (as bs : List Char) :
    fields sep (as ++ sep :: bs) = fields sep as ++ fields sep bs := by
  induction as with
  | nil => simp [fields]
  | cons a as ih =>
    rw [List.cons_append, fields, fields, ih]
    split
    · rfl
    · obtain ⟨f, fs, hf⟩ := List.exists_cons_of_ne_nil (fields_ne_nil sep as)
      simp [hf]

end Custody.Text
