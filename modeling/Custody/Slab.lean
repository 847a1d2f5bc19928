/-!
# Slabs

A `Slab β` is a row of numbered cells, each holding one `β` or nothing.  A new element always gets
the next unused number, and an erased cell stays empty, so a number never comes to name a second
element.  `get?_insert`, `get?_modify` and `get?_erase` say what each operation does to the cells;
`perm_flatMap_erase` and `perm_flatMap_modify` say what it does to a concatenation over the list of
elements, which is what counts are taken over.
-/

namespace Custody

/-- Numbered cells, in order of their numbers. -/
structure Slab (β : Type) where
  cells : Array (Option β) := #[]

namespace Slab

variable {β : Type}

def get? (s : Slab β) (i : Nat) : Option β := s.cells[i]?.join

def next (s : Slab β) : Nat := s.cells.size

def insert (s : Slab β) (b : β) : Slab β := ⟨s.cells.push (some b)⟩

/-- Applies `f` to the element in cell `i`, if there is one. -/
def modify (s : Slab β) (i : Nat) (f : β → β) : Slab β := ⟨s.cells.modify i (Option.map f)⟩

def erase (s : Slab β) (i : Nat) : Slab β := ⟨s.cells.setIfInBounds i none⟩

def toList (s : Slab β) : List β := s.cells.toList.filterMap id

def size (s : Slab β) : Nat := s.toList.length

/-! ### Cells -/

@[simp] theorem get?_empty (i : Nat) : ({} : Slab β).get? i = none := rfl

theorem get?_eq_none_of_next_le {s : Slab β} {i : Nat} (h : s.next ≤ i) : s.get? i = none := by
  have hi : s.cells[i]? = none := by simpa [next] using h
  simp [get?, hi]

theorem lt_next_of_get? {s : Slab β} {i : Nat} {b : β} (h : s.get? i = some b) : i < s.next := by
  refine Nat.lt_of_not_le fun hle => ?_
  rw [get?_eq_none_of_next_le hle] at h
  cases h

theorem get?_insert (s : Slab β) (b : β) (i : Nat) :
    (s.insert b).get? i = if i = s.next then some b else s.get? i := by
  simp only [get?, insert, next, Array.getElem?_push]
  split <;> simp_all

theorem get?_modify (s : Slab β) (i : Nat) (f : β → β) (j : Nat) :
    (s.modify i f).get? j = if i = j then (s.get? j).map f else s.get? j := by
  simp only [get?, modify, Array.getElem?_modify]
  split
  · cases s.cells[j]? with
    | none => rfl
    | some c => cases c <;> rfl
  · rfl

theorem get?_erase (s : Slab β) (i j : Nat) :
    (s.erase i).get? j = if i = j then none else s.get? j := by
  simp only [get?, erase, Array.getElem?_setIfInBounds]
  split
  · split <;> rfl
  · rfl

@[simp] theorem next_insert (s : Slab β) (b : β) : (s.insert b).next = s.next + 1 := by
  simp [next, insert]

@[simp] theorem next_modify (s : Slab β) (i : Nat) (f : β → β) : (s.modify i f).next = s.next := by
  simp [next, modify]

@[simp] theorem next_erase (s : Slab β) (i : Nat) : (s.erase i).next = s.next := by
  simp [next, erase]

/-- A slab is known by its next number and its cells. -/
theorem ext {s t : Slab β} (hn : s.next = t.next) (h : ∀ i, s.get? i = t.get? i) : s = t := by
  obtain ⟨cs⟩ := s
  obtain ⟨ds⟩ := t
  refine congrArg mk (Array.ext hn fun i h₁ h₂ => ?_)
  have := h i
  simpa only [get?, Array.getElem?_eq_getElem h₁, Array.getElem?_eq_getElem h₂,
    Option.join_some] using this

theorem modify_modify (s : Slab β) (i : Nat) (f g : β → β) :
    (s.modify i f).modify i g = s.modify i fun b => g (f b) := by
  refine ext (by simp) fun j => ?_
  simp only [get?_modify]
  split
  · rw [Option.map_map]
    rfl
  · rfl

theorem modify_eq_self {s : Slab β} {i : Nat} {b : β} {f : β → β} (h : s.get? i = some b)
    (hf : f b = b) : s.modify i f = s := by
  refine ext (by simp) fun j => ?_
  rw [get?_modify]
  split
  · next e => rw [← e, h, Option.map_some, hf]
  · rfl

/-- Modifying a cell and modifying it back changes nothing. -/
theorem modify_modify_cancel {s : Slab β} {i : Nat} {b : β} {f g : β → β} (h : s.get? i = some b)
    (hg : g (f b) = b) : (s.modify i f).modify i g = s := by
  rw [modify_modify]
  exact modify_eq_self h hg

theorem erase_modify (s : Slab β) (i : Nat) (f : β → β) : (s.modify i f).erase i = s.erase i := by
  refine ext (by simp) fun j => ?_
  by_cases e : i = j <;> simp [get?_modify, get?_erase, e]

/-! ### The list of elements -/

theorem mem_toList {s : Slab β} {b : β} : b ∈ s.toList ↔ ∃ i, s.get? i = some b := by
  simp only [toList, get?, List.mem_filterMap, id_eq, exists_eq_right, Option.join_eq_some_iff]
  rw [Array.mem_toList_iff, Array.mem_iff_getElem?]

@[simp] theorem toList_empty : ({} : Slab β).toList = [] := rfl

@[simp] theorem toList_insert (s : Slab β) (b : β) : (s.insert b).toList = s.toList ++ [b] := by
  simp [toList, insert]

/-- Around an element, the list falls into what stands before and what stands after; erasing the
cell leaves both, and modifying it changes only what stands between. -/
theorem toList_split {s : Slab β} {i : Nat} {b : β} (h : s.get? i = some b) :
    ∃ l r, s.toList = l ++ b :: r ∧ (s.erase i).toList = l ++ r ∧
      ∀ f : β → β, (s.modify i f).toList = l ++ f b :: r := by
  obtain ⟨cells⟩ := s
  have hi : i < cells.size := lt_next_of_get? h
  have hb : cells[i] = some b := by
    simpa [get?, Array.getElem?_eq_getElem hi] using h
  have hl : i < cells.toList.length := by simpa using hi
  have hs : cells.toList = cells.toList.take i ++ some b :: cells.toList.drop (i + 1) := by
    have hb' : cells.toList[i] = some b := by simpa using hb
    rw [← hb', ← List.drop_eq_getElem_cons hl, List.take_append_drop]
  refine ⟨(cells.toList.take i).filterMap id, (cells.toList.drop (i + 1)).filterMap id, ?_, ?_, ?_⟩
  · rw [toList, congrArg (List.filterMap id) hs]
    simp
  · simp [toList, erase, List.set_eq_take_append_cons_drop, hi]
  · intro f
    have hm : cells.modify i (Option.map f) = cells.setIfInBounds i (some (f b)) := by
      apply Array.ext
      · simp
      · intro j h₁ h₂
        rw [Array.getElem_modify, Array.getElem_setIfInBounds (by simpa using h₂)]
        split
        · next e => subst e; simp [hb]
        · rfl
    simp [toList, modify, hm, List.set_eq_take_append_cons_drop, hi]

/-- Erasing an element takes away what it contributes to a concatenation over all elements. -/
theorem perm_flatMap_erase {γ : Type} {s : Slab β} {i : Nat} {b : β} (h : s.get? i = some b)
    (f : β → List γ) :
    (s.toList.flatMap f).Perm (f b ++ (s.erase i).toList.flatMap f) := by
  obtain ⟨l, r, h₁, h₂, -⟩ := toList_split h
  simpa [h₁, h₂] using List.perm_append_comm_assoc (l.flatMap f) (f b) (r.flatMap f)

/-- Modifying an element exchanges what it contributes to a concatenation over all elements. -/
theorem perm_flatMap_modify {γ : Type} {s : Slab β} {i : Nat} {b : β} (h : s.get? i = some b)
    (g : β → β) (f : β → List γ) :
    ((s.modify i g).toList.flatMap f).Perm (f (g b) ++ (s.erase i).toList.flatMap f) := by
  obtain ⟨l, r, -, h₂, h₃⟩ := toList_split h
  simpa [h₂, h₃] using List.perm_append_comm_assoc (l.flatMap f) (f (g b)) (r.flatMap f)

theorem modify_of_get?_eq_none {s : Slab β} {i : Nat} (h : s.get? i = none) (g : β → β) :
    s.modify i g = s := by
  obtain ⟨cells⟩ := s
  simp only [modify, mk.injEq]
  apply Array.ext
  · simp
  · intro j h₁ h₂
    rw [Array.getElem_modify]
    split
    · next e =>
      subst e
      have : cells[i]?.join = none := h
      rw [Array.getElem?_eq_getElem h₂] at this
      simp only [Option.join_some] at this
      simp [this]
    · rfl

/-- A change that keeps `f` on every element keeps the concatenation over all elements. -/
theorem flatMap_modify_eq {γ : Type} (s : Slab β) (i : Nat) (g : β → β) (f : β → List γ)
    (hg : ∀ b, f (g b) = f b) : (s.modify i g).toList.flatMap f = s.toList.flatMap f := by
  cases h : s.get? i with
  | none => rw [modify_of_get?_eq_none h]
  | some b =>
    obtain ⟨l, r, h₁, -, h₂⟩ := toList_split h
    simp [h₁, h₂, hg]

theorem toList_eq_filterMap {s : Slab β} {n : Nat} (hn : s.next ≤ n) :
    s.toList = (List.range n).filterMap s.get? := by
  obtain ⟨cells⟩ := s
  obtain ⟨d, rfl⟩ := Nat.exists_eq_add_of_le hn
  have hcells : cells.toList = (List.range cells.size).map fun i => cells[i]?.join := by
    apply List.ext_getElem
    · simp
    · intro i h₁ h₂
      have hi : i < cells.size := by simpa using h₁
      simp [Array.getElem?_eq_getElem hi]
  have hrest : ((List.range d).map (cells.size + ·)).filterMap (get? ⟨cells⟩) = [] := by
    refine List.filterMap_eq_nil_iff.2 fun i hi => ?_
    obtain ⟨j, -, rfl⟩ := List.mem_map.1 hi
    exact get?_eq_none_of_next_le (Nat.le_add_right _ _)
  show cells.toList.filterMap id = (List.range (cells.size + d)).filterMap (get? ⟨cells⟩)
  rw [List.range_add, List.filterMap_append, hrest, List.append_nil, hcells, List.filterMap_map]
  rfl

/-- The list of elements depends on the cells alone, not on the next number. -/
theorem toList_congr {s t : Slab β} (h : ∀ i, s.get? i = t.get? i) : s.toList = t.toList := by
  rw [toList_eq_filterMap (Nat.le_max_left s.next t.next),
    toList_eq_filterMap (Nat.le_max_right s.next t.next)]
  exact congrArg (fun f => List.filterMap f _) (funext h)

/-- How many elements there are depends on which cells are filled. -/
theorem size_congr {γ : Type} {s : Slab β} {t : Slab γ}
    (h : ∀ i, (s.get? i).isSome = (t.get? i).isSome) : s.size = t.size := by
  rw [size, size, toList_eq_filterMap (Nat.le_max_left s.next t.next),
    toList_eq_filterMap (Nat.le_max_right s.next t.next), List.length_filterMap_eq_countP,
    List.length_filterMap_eq_countP]
  exact List.countP_congr fun i _ => by rw [h]

end Slab

end Custody
