import Mathlib.Data.List.Count
import Custody.Ownership.Registry
import Custody.Proofs.Ownership.Course

/-!
# Rosters that hold handles keep the books

The handles of a roster after an entry is stored or discarded are those before, less the ones of the
entry that was there, and with the ones of the new entry.  So `Roster.store`, `Roster.discard` and
`Roster.releaseAll` leave a sound heap sound, whatever else is held, and never stop.
-/

namespace Custody

variable {α β : Type}

namespace Heap

variable {h : Heap α}

theorem Sound.release_passes {pending rest : List Handle} (hs : h.Sound (pending ++ rest)) :
    ∃ h' log, h.release pending = .ok (h', log) ∧ h'.Sound rest ∧ h.Passes (dropped log) h' := by
  obtain ⟨h', log, e, hs', hw, -⟩ := hs.release
  exact ⟨h', log, e, hs', .of_without hs hs' hw fun c hm => List.mem_append_right _ hm⟩

end Heap

namespace Roster

variable [Holder β]

/-! ### The handles of a roster -/

/-- The handles of the entry under a name. -/
def handlesAt (r : Roster β) (k : String) : List Handle :=
  (r.get? k).toList.flatMap Holder.handles

theorem handles_eq (r : Roster β) : r.handles = r.entries.flatMap fun e => Holder.handles e.2 := by
  rw [handles, values, List.flatMap_map]

theorem perm_place (k : String) (b : β) {l : List (String × β)}
    (hl : (l.map Prod.fst).Pairwise (· < ·)) :
    ((place k b l).flatMap (fun e => Holder.handles e.2) ++
      (find k l).toList.flatMap Holder.handles).Perm
        (Holder.handles b ++ l.flatMap fun e => Holder.handles e.2) := by
  induction l with
  | nil => simp [place, find]
  | cons a l ih =>
    rw [List.map_cons, List.pairwise_cons] at hl
    have later : ∀ e ∈ l, a.1 < e.1 := fun e he => hl.1 e.1 (List.mem_map_of_mem he)
    rw [place]
    split
    · next hk =>
      have hnone : find k (a :: l) = none := find_eq_none fun e he => by
        rcases List.mem_cons.1 he with rfl | he
        · exact fun e => String.lt_irrefl _ (e ▸ hk)
        · exact fun e' => String.lt_asymm hk (e' ▸ later e he)
      simp [hnone]
    · split
      · next e =>
        rw [find, if_pos e]
        simpa using List.Perm.append_left (Holder.handles b) List.perm_append_comm
      · next e =>
        rw [find, if_neg e, List.flatMap_cons, List.flatMap_cons, List.append_assoc]
        exact ((ih hl.2).append_left _).trans (List.perm_append_comm_assoc _ _ _)

theorem perm_filter (k : String) {l : List (String × β)}
    (hl : (l.map Prod.fst).Pairwise (· < ·)) :
    ((l.filter (·.1 ≠ k)).flatMap (fun e => Holder.handles e.2) ++
      (find k l).toList.flatMap Holder.handles).Perm
        (l.flatMap fun e => Holder.handles e.2) := by
  induction l with
  | nil => simp [find]
  | cons a l ih =>
    rw [List.map_cons, List.pairwise_cons] at hl
    rw [find]
    split
    · next e =>
      have hsame : l.filter (·.1 ≠ k) = l := List.filter_eq_self.2 fun x hx => by
        have := hl.1 x.1 (List.mem_map_of_mem hx)
        exact decide_eq_true fun e' => String.lt_irrefl _ (e' ▸ e ▸ this)
      rw [List.filter_cons_of_neg (by simpa using e), hsame]
      simpa using List.perm_append_comm
    · next e =>
      rw [List.filter_cons_of_pos (by simpa using e), List.flatMap_cons, List.flatMap_cons,
        List.append_assoc]
      exact (ih hl.2).append_left _

theorem perm_handles_insert (r : Roster β) (k : String) (b : β) :
    (r.handlesAt k ++ (r.insert k b).handles).Perm (Holder.handles b ++ r.handles) := by
  rw [handles_eq, handles_eq]
  exact List.perm_append_comm.trans (perm_place k b r.ascending)

theorem perm_handles_erase (r : Roster β) (k : String) :
    (r.handlesAt k ++ (r.erase k).handles).Perm r.handles := by
  rw [handles_eq, handles_eq]
  exact List.perm_append_comm.trans (perm_filter k r.ascending)

theorem mem_handles {r : Roster β} {k : String} {b : β} {t : Handle} (hk : r.get? k = some b)
    (ht : t ∈ Holder.handles b) : t ∈ r.handles := by
  refine (r.perm_handles_erase k).mem_iff.1 (List.mem_append_left _ ?_)
  rw [handlesAt, hk]
  simpa using ht

theorem handlesAt_of_get? {r : Roster β} {k : String} {b : β} (hk : r.get? k = some b) :
    r.handlesAt k = Holder.handles b := by
  simp [handlesAt, hk]

theorem handlesAt_of_get?_eq_none {r : Roster β} {k : String} (hk : r.get? k = none) :
    r.handlesAt k = [] := by
  simp [handlesAt, hk]

theorem mem_handles_of_mem_handlesAt {r : Roster β} {k : String} {t : Handle}
    (ht : t ∈ r.handlesAt k) : t ∈ r.handles :=
  (r.perm_handles_erase k).mem_iff.1 (List.mem_append_left _ ht)

theorem count_handles (r : Roster Strong) (o : ObjectId) :
    r.handles.count (.holding o) = r.values.count ⟨some o⟩ := by
  have e : r.handles = r.values.map .strong := by
    rw [handles, List.map_eq_flatMap]
    rfl
  rw [e]
  exact List.count_map_of_injective _ _ (fun _ _ h => Handle.strong.inj h) _

theorem count_handles_weak (r : Roster Weak) (o : ObjectId) :
    r.handles.count (.holding o) = 0 := by
  refine List.count_eq_zero.2 fun hm => ?_
  obtain ⟨w, -, hw⟩ := List.mem_flatMap.1 hm
  cases List.mem_singleton.1 hw

theorem count_handles_owned (r : Roster Owned) (o : ObjectId) :
    r.handles.count (.holding o) = 0 := by
  refine List.count_eq_zero.2 fun hm => ?_
  obtain ⟨b, -, hb⟩ := List.mem_flatMap.1 hm
  cases List.mem_singleton.1 hb

/-! ### Storing, discarding, releasing -/

variable {r : Roster β} {h : Heap α} {others : List Handle}

theorem sound_insert (k : String) {b : β}
    (hs : h.Sound (Holder.handles b ++ (r.handles ++ others))) :
    h.Sound (r.handlesAt k ++ ((r.insert k b).handles ++ others)) := by
  have hp := ((r.perm_handles_insert k b).append_right others).symm
  rw [List.append_assoc, List.append_assoc] at hp
  exact hs.perm hp

theorem sound_erase (k : String) (hs : h.Sound (r.handles ++ others)) :
    h.Sound (r.handlesAt k ++ ((r.erase k).handles ++ others)) := by
  have hp := ((r.perm_handles_erase k).append_right others).symm
  rw [List.append_assoc] at hp
  exact hs.perm hp

theorem store_eq {k : String} {b : β} {h' : Heap α} {log : List (DropRecord α)}
    (e : h.release (r.handlesAt k) = .ok (h', log)) :
    r.store h k b = .ok (r.insert k b, h', log) := by
  rw [handlesAt] at e
  simp [store, e, bind, Except.bind]

theorem discard_eq {k : String} {h' : Heap α} {log : List (DropRecord α)}
    (e : h.release (r.handlesAt k) = .ok (h', log)) : r.discard h k = .ok (r.erase k, h', log) := by
  rw [handlesAt] at e
  simp [discard, e, bind, Except.bind]

theorem releaseAll_passes (hs : h.Sound (r.handles ++ others)) :
    ∃ h' log, r.releaseAll h = .ok (h', log) ∧ h'.Sound others ∧ h.Passes (Heap.dropped log) h' :=
  hs.release_passes

end Roster

/-! ### Registries that share their entries -/

namespace Roster

variable {r : Roster Strong} {h : Heap α} {others : List Handle} {k : String}

theorem lend_of_get? {s : Strong} (hk : r.get? k = some s) (hs : h.Sound (r.handles ++ others)) :
    ∃ h', r.lend h k = .ok (h', some s) ∧
      h.Takes (r.handles ++ others ++ h.stored) (.strong s) h' := by
  have hm : .strong s ∈ r.handles ++ others ++ h.stored :=
    List.mem_append_left _ (List.mem_append_left _ (mem_handles hk List.mem_cons_self))
  obtain ⟨h', e, ht⟩ := Heap.Balanced.clone hs hm
  exact ⟨h', by simp [lend, hk, e, bind, Except.bind], ht⟩

theorem lend_of_get?_eq_none (hk : r.get? k = none) : r.lend h k = .ok (h, none) := by
  simp [lend, hk]

/-- Enlisting a handle under a key that is free. -/
theorem enlist_of_get?_eq_none {s : Strong} (hk : r.get? k = none) (hm : .strong s ∈ others)
    (hs : h.Sound (r.handles ++ others)) :
    ∃ h', r.enlist h k s = .ok (r.insert k s, h', []) ∧
      h'.Sound ((r.insert k s).handles ++ others) ∧ h.Passes [] h' ∧ h'.objects = h.objects := by
  obtain ⟨h', e, ht⟩ :=
    Heap.Balanced.clone hs (List.mem_append_left _ (List.mem_append_right _ hm))
  have hk' : r.handlesAt k = [] := by simp [handlesAt, hk]
  have e' : h'.release (r.handlesAt k) = .ok (h', []) := by rw [hk', Heap.release_nil]
  have hs' := sound_insert k (b := s) ht.sound
  rw [hk'] at hs'
  refine ⟨h', ?_, hs', .of_takes ht, ht.objects⟩
  simp [enlist, e, store_eq e', bind, Except.bind]

theorem lendOrMake_of_get? {s : Strong} {x : Object α} (hk : r.get? k = some s)
    (hs : h.Sound (r.handles ++ others)) :
    ∃ h', r.lendOrMake h k x = .ok (r, h', s, false, []) ∧
      h.Takes (r.handles ++ others ++ h.stored) (.strong s) h' := by
  obtain ⟨h', e, ht⟩ := lend_of_get? hk hs
  exact ⟨h', by simp [lendOrMake, e, bind, Except.bind], ht⟩

/-- The object `x` is put under a counter, and a handle on it is enlisted besides the one that is
given out. -/
theorem lendOrMake_of_get?_eq_none {x : Object α} (hk : r.get? k = none) (hx : x.slot = none)
    (hh : x.handles = []) (hs : h.Sound (r.handles ++ others)) :
    ∃ h', r.lendOrMake h k x = .ok (r.insert k ⟨some h.objects.next⟩, h',
        ⟨some h.objects.next⟩, true, []) ∧
      h'.Sound (.holding h.objects.next ::
        ((r.insert k ⟨some h.objects.next⟩).handles ++ others)) ∧ (h.adopt x).Passes [] h' ∧
      h'.objects = (h.adopt x).objects := by
  have hs₁ : (h.adopt x).Sound (r.handles ++ (.holding h.objects.next :: others)) :=
    (hs.adopt hh).perm List.perm_middle.symm
  obtain ⟨h', e, hs', hl, ho⟩ := enlist_of_get?_eq_none hk List.mem_cons_self hs₁
  refine ⟨h', ?_, hs'.perm List.perm_middle, hl, ho⟩
  simp [lendOrMake, lend_of_get?_eq_none hk, Heap.manage_eq h hx, e, bind, Except.bind]

end Roster

end Custody
