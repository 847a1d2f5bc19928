import Mathlib.Data.Finset.Card
import Mathlib.Data.Set.List
import Custody.Roster

/-!
# Rosters as finite maps

The entries of a roster are the pairs that its lookups show (`mem_entries_iff`).  The names stand in
it once and in order, so a list of things by whose names it is ordered is known from its members
(`eq_of_ascending`), and the size of a roster is the number of its names (`size_eq_card`).
-/

namespace Custody.Roster

variable {β γ : Type} {r : Roster β} {k : String} {b : β}

theorem find_eq_some_iff {l : List (String × β)} (hl : (l.map Prod.fst).Nodup) :
    find k l = some b ↔ (k, b) ∈ l := by
  induction l with
  | nil => simp [find]
  | cons e l ih =>
    obtain ⟨hne, hl⟩ := List.nodup_cons.1 hl
    rw [find]
    split
    · next he =>
      subst he
      have hno : (e.1, b) ∉ l := fun hm => hne (List.mem_map.2 ⟨_, hm, rfl⟩)
      rw [List.mem_cons, or_iff_left hno, Prod.ext_iff, Option.some_inj]
      exact ⟨fun e => ⟨rfl, e.symm⟩, fun e => e.2.symm⟩
    · next he =>
      rw [ih hl, List.mem_cons, or_iff_right]
      exact fun e' => he (congrArg Prod.fst e').symm

theorem nodup_of_ascending {l : List String} (hl : l.Pairwise (· < ·)) : l.Nodup :=
  hl.imp fun hlt => by
    rintro rfl
    exact String.lt_irrefl _ hlt

theorem nodup_keys (r : Roster β) : r.keys.Nodup := nodup_of_ascending r.ascending

theorem nodup_entries (r : Roster β) : r.entries.Nodup := r.nodup_keys.of_map Prod.fst

/-- The entries are what the lookups show. -/
theorem mem_entries_iff : (k, b) ∈ r.entries ↔ r.get? k = some b :=
  (find_eq_some_iff r.nodup_keys).symm

theorem mem_keys_iff : k ∈ r.keys ↔ ∃ b, r.get? k = some b := by
  simp only [keys, List.mem_map, Prod.exists, exists_and_right, exists_eq_right, mem_entries_iff]

theorem mem_values_iff : b ∈ r.values ↔ ∃ k, r.get? k = some b := by
  simp only [values, List.mem_map, Prod.exists, exists_eq_right, mem_entries_iff]

/-- A value that stands under one name only is listed once. -/
theorem count_values_eq_one [DecidableEq β] (hk : r.get? k = some b)
    (hone : ∀ k', r.get? k' = some b → k' = k) : r.values.count b = 1 := by
  have hiff : ∀ e ∈ r.entries, (e.2 == b) = true ↔ (e == (k, b)) = true := by
    rintro ⟨k', b'⟩ he
    simp only [beq_iff_eq, Prod.mk.injEq]
    constructor
    · rintro rfl
      exact ⟨hone k' (mem_entries_iff.1 he), rfl⟩
    · exact And.right
  classical
  rw [values, List.count, List.countP_map]
  calc r.entries.countP ((· == b) ∘ Prod.snd) = r.entries.count (k, b) := List.countP_congr hiff
    _ = 1 := List.count_eq_one_of_mem r.nodup_entries (mem_entries_iff.2 hk)

/-- How often a value is listed is under how many names it stands. -/
theorem count_values [DecidableEq β] (r : Roster β) (b : β) :
    r.values.count b = (r.keys.filter fun k => r.get? k = some b).length := by
  rw [← List.countP_eq_length_filter, values, keys, List.count, List.countP_map, List.countP_map]
  refine List.countP_congr fun e he => ?_
  have hget : r.get? e.1 = some e.2 := mem_entries_iff.1 he
  simp [hget]

/-- A list whose members have names, and in the order of their names, is known from its members. -/
theorem eq_of_ascending {α : Type} {f : α → String} {l l' : List α}
    (hl : (l.map f).Pairwise (· < ·)) (hl' : (l'.map f).Pairwise (· < ·))
    (h : ∀ a, a ∈ l ↔ a ∈ l') : l = l' := by
  have hp : l.Perm l' := (List.perm_ext_iff_of_nodup (nodup_of_ascending hl).of_map
    (nodup_of_ascending hl').of_map).2 h
  rw [List.pairwise_map] at hl hl'
  exact hp.eq_of_pairwise (fun a b _ _ hab hba => absurd hba (String.lt_asymm hab)) hl hl'

/-- A roster is known from its lookups. -/
theorem eq_of_get? {r' : Roster β} (h : ∀ k, r.get? k = r'.get? k) : r = r' := by
  have he : r.entries = r'.entries := by
    apply eq_of_ascending (f := Prod.fst) r.ascending r'.ascending
    rintro ⟨k, b⟩
    rw [mem_entries_iff, mem_entries_iff, h]
  cases r
  cases r'
  simp_all

/-- What stands under a name already changes nothing. -/
theorem insert_of_get? (hk : r.get? k = some b) : r.insert k b = r := by
  apply eq_of_get?
  intro k'
  rw [get?_insert]
  split
  · next e => rw [← e, hk]
  · rfl

theorem insert_insert (r : Roster β) (k : String) (b b' : β) :
    (r.insert k b).insert k b' = r.insert k b' := by
  apply eq_of_get?
  intro k'
  simp only [get?_insert]
  split <;> rfl

/-- If every name in a roster is made from something, the names are listed as a list of such things
is. -/
theorem exists_map_eq_keys {α : Type} {f : α → String}
    (h : ∀ k b, r.get? k = some b → ∃ a, f a = k) : ∃ l : List α, l.map f = r.keys := by
  have hmem : r.keys ∈ {l | ∀ k ∈ l, k ∈ Set.range f} := fun k hk => by
    obtain ⟨b, hb⟩ := mem_keys_iff.1 hk
    exact h k b hb
  rwa [← Set.range_list_map] at hmem

theorem size_eq_card {S : Finset String} (h : ∀ k, k ∈ S ↔ ∃ b, r.get? k = some b) :
    r.size = S.card := by
  have hS : r.keys.toFinset = S := by
    ext k
    rw [List.mem_toFinset, mem_keys_iff, h]
  rw [← hS, List.toFinset_card_of_nodup r.nodup_keys, keys, List.length_map, size]

theorem size_ne_zero_of_get? {k : String} {b : β} (hk : r.get? k = some b) : r.size ≠ 0 := by
  have hlen := List.length_pos_of_mem (mem_keys_iff.2 ⟨b, hk⟩)
  rw [keys, List.length_map] at hlen
  exact hlen.ne'

/-- A new name makes a roster larger by one. -/
theorem size_insert (hk : r.get? k = none) (b : β) : (r.insert k b).size = r.size + 1 := by
  have hno : k ∉ r.keys.toFinset := by simp [mem_keys_iff, hk]
  have hS : ∀ k', k' ∈ Finset.cons k r.keys.toFinset hno ↔
      ∃ b', (r.insert k b).get? k' = some b' := by
    intro k'
    rw [Finset.mem_cons, List.mem_toFinset, mem_keys_iff, get?_insert]
    by_cases e : k = k'
    · simp [e]
    · simp [e, Ne.symm e]
  rw [size_eq_card hS, Finset.card_cons, List.toFinset_card_of_nodup r.nodup_keys, keys,
    List.length_map, size]

end Custody.Roster
