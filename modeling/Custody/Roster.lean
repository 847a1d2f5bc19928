/-!
# Rosters

A `Roster β` holds one `β` per name, in ascending order of the names.  The order is part of the
type, so listing a roster needs no sorting and two rosters with the same entries are equal.
`get?_insert` and `get?_erase` say what each operation does to the lookups.
-/

namespace Custody

/-- Entries by name, in ascending order of the names. -/
structure Roster (β : Type) where
  entries : List (String × β)
  ascending : (entries.map Prod.fst).Pairwise (· < ·)

namespace Roster

variable {β : Type}

/-! ### Lists of entries -/

def place (k : String) (b : β) : List (String × β) → List (String × β)
  | [] => [(k, b)]
  | e :: r =>
    if k < e.1 then (k, b) :: e :: r
    else if e.1 = k then (k, b) :: r
    else e :: place k b r

def find (k : String) : List (String × β) → Option β
  | [] => none
  | e :: r => if e.1 = k then some e.2 else find k r

theorem mem_place {k : String} {b : β} {l : List (String × β)} {e : String × β}
    (h : e ∈ place k b l) : e = (k, b) ∨ e ∈ l := by
  induction l with
  | nil => simpa [place] using h
  | cons a r ih => grind [place]

theorem ascending_place (k : String) (b : β) {l : List (String × β)}
    (h : (l.map Prod.fst).Pairwise (· < ·)) : ((place k b l).map Prod.fst).Pairwise (· < ·) := by
  induction l with
  | nil => simp [place]
  | cons a r ih =>
    simp only [List.map_cons, List.pairwise_cons, List.mem_map, forall_exists_index, and_imp,
      forall_apply_eq_imp_iff₂] at h
    simp only [place]
    split
    · next hk =>
      simp only [List.map_cons, List.pairwise_cons, List.mem_cons, List.mem_map]
      refine ⟨?_, by simpa using h.1, h.2⟩
      rintro x (rfl | ⟨e, he, rfl⟩)
      · exact hk
      · exact String.lt_trans hk (h.1 e he)
    · next hk =>
      split
      · next he =>
        subst he
        simpa using h
      · next he =>
        simp only [List.map_cons, List.pairwise_cons, List.mem_map, forall_exists_index, and_imp,
          forall_apply_eq_imp_iff₂]
        refine ⟨fun e hm => ?_, ih h.2⟩
        rcases mem_place hm with rfl | hm
        · grind
        · exact h.1 e hm

theorem find_place (k : String) (b : β) (l : List (String × β)) (k' : String) :
    find k' (place k b l) = if k = k' then some b else find k' l := by
  induction l with
  | nil => simp [place, find]
  | cons a r ih => grind [place, find]

theorem find_eq_none {k : String} {l : List (String × β)} (h : ∀ e ∈ l, e.1 ≠ k) :
    find k l = none := by
  induction l with
  | nil => rfl
  | cons a l ih =>
    rw [find, if_neg (h a List.mem_cons_self)]
    exact ih fun e he => h e (List.mem_cons_of_mem _ he)

/-! ### Rosters -/

def empty : Roster β := ⟨[], .nil⟩

def get? (s : Roster β) (k : String) : Option β := find k s.entries

def insert (s : Roster β) (k : String) (b : β) : Roster β :=
  ⟨place k b s.entries, ascending_place k b s.ascending⟩

def erase (s : Roster β) (k : String) : Roster β :=
  ⟨s.entries.filter (·.1 ≠ k), s.ascending.sublist (List.filter_sublist.map _)⟩

def keys (s : Roster β) : List String := s.entries.map Prod.fst

/-- What stands under the names, in ascending order of the names. -/
def values (s : Roster β) : List β := s.entries.map Prod.snd

def size (s : Roster β) : Nat := s.entries.length

def isEmpty (s : Roster β) : Bool := s.entries.isEmpty

def contains (s : Roster β) (k : String) : Bool := (s.get? k).isSome

@[simp] theorem get?_empty (k : String) : (empty : Roster β).get? k = none := rfl

theorem get?_insert (s : Roster β) (k : String) (b : β) (k' : String) :
    (s.insert k b).get? k' = if k = k' then some b else s.get? k' :=
  find_place k b s.entries k'

theorem get?_erase (s : Roster β) (k k' : String) :
    (s.erase k).get? k' = if k = k' then none else s.get? k' := by
  simp only [get?, erase]
  induction s.entries with
  | nil => simp [find]
  | cons a r ih => grind [find]

end Roster

end Custody
