import Custody.Proofs.Roster
import Custody.Proofs.Ownership.Reach

/-!
# Where strong handles are kept

A strong handle is kept in a spot: under a name, under a key of the registry that shares its
entries, or inside an object.  `Session.handleAt?` reads a spot, and `Session.put` writes one and
counts and releases nothing.  Writing is an exchange of handles (`perm_handles_put`, `sound_put`);
nothing else changes (`put_withHeap_put`, `get?_put_of_ne`), and no copy of a handle depends on it
(`clone_put`).
-/

namespace Custody

namespace Heap

variable {α : Type} {h h' : Heap α} {o : ObjectId} {y z : Strong} {f : Object α → Object α}

/-- A change of an object that keeps its slot makes no difference to a copy. -/
theorem clone_setObject (hf : ∀ x, (f x).slot = x.slot) (e : h.clone y = .ok (h', z)) :
    (h.setObject o f).clone y = .ok (h'.setObject o f, z) := by
  obtain ⟨_ | p⟩ := y
  · cases e
    rfl
  · obtain ⟨w, hw, e⟩ := bind_eq_ok_iff.1 e
    obtain ⟨w', hw', hslot⟩ := get?_setObject (o := o) hf (object_eq_ok_iff.1 hw)
    rw [← object_eq_ok_iff] at hw'
    have hcounter : (h.setObject o f).slotCounter p w.slot = h.slotCounter p w.slot := by
      cases w.slot <;> rfl
    simp only [share, attached, hw, bind, Except.bind] at e
    simp only [clone, share, attached, hw', hslot, hcounter, bind, Except.bind]
    cases hc : h.slotCounter p w.slot with
    | error => grind
    | ok c => grind [setObject, countStrong, setCounter]

end Heap

/-! ### Spots -/

/-- Where a strong handle is kept: under a name, under a key of the registry that shares its
entries, or inside an object, among the handles stored there. -/
inductive Spot where
  | name (n : String)
  | entry (key : String)
  | kid (o : ObjectId) (i : Nat)

/-- The object that stores what is kept in a spot. -/
def Spot.host : Spot → Option ObjectId
  | .kid o _ => some o
  | _ => none

namespace Session

def handleAt? (s : Session) : Spot → Option Strong
  | .name n => s.strong.get? n
  | .entry key => s.shared.get? key
  | .kid o i => (s.heap.objects.get? o).bind fun z => z.kids[i]?

/-- Writes a handle into a spot; nothing is counted and nothing is released. -/
def put (s : Session) : Spot → Strong → Session
  | .name n, x => { s with strong := s.strong.insert n x }
  | .entry key, x => { s with shared := s.shared.insert key x }
  | .kid o i, x => s.withHeap (s.heap.setObject o fun z => { z with kids := z.kids.set i x })

/-- A spot inside a managed object is used through a handle on the object, so a path leads there
from what is held outside. -/
def Accessible (s : Session) (p : Spot) : Prop :=
  ∀ o, p.host = some o → s.heap.Managed o → s.heap.Reachable s.held o

variable {s : Session} {p : Spot} {x y a b : Strong} {h : Heap Label} {o q : ObjectId}

/-- A handle inside an object is there as long as the object is. -/
theorem handleAt?_kid {i : Nat} (hp : s.handleAt? (.kid o i) = some x) :
    ∃ z, s.heap.objects.get? o = some z ∧ z.kids[i]? = some x := Option.bind_eq_some_iff.1 hp

theorem put_put (s : Session) (p : Spot) (a b : Strong) : (s.put p a).put p b = s.put p b := by
  cases p with
  | name n => simp [put, Roster.insert_insert]
  | entry key => simp [put, Roster.insert_insert]
  | kid o i => simp [put, withHeap, Heap.setObject, Slab.modify_modify]

/-- Writing what is there changes nothing. -/
theorem put_self (hp : s.handleAt? p = some x) : s.put p x = s := by
  cases p with
  | name n => rw [put, Roster.insert_of_get? hp]
  | entry key => rw [put, Roster.insert_of_get? hp]
  | kid o i =>
    obtain ⟨z, hz, hi⟩ := handleAt?_kid hp
    obtain ⟨hlt, rfl⟩ := List.getElem?_eq_some_iff.1 hi
    simp only [put, withHeap, Heap.setObject]
    rw [Slab.modify_eq_self hz]
    simp

theorem handleAt?_put (hp : s.handleAt? p = some x) (a : Strong) :
    (s.put p a).handleAt? p = some a := by
  cases p with
  | name n => exact (s.strong.get?_insert n a n).trans (if_pos rfl)
  | entry key => exact (s.shared.get?_insert key a key).trans (if_pos rfl)
  | kid o i =>
    obtain ⟨z, hz, hi⟩ := handleAt?_kid hp
    have hlt := (List.getElem?_eq_some_iff.1 hi).1
    simp [handleAt?, put, withHeap, Heap.setObject, Slab.get?_modify, hz, hlt]

/-- What is in a spot stays there while the heap changes, if the object that stores it does. -/
theorem handleAt?_withHeap
    (hh : ∀ o, p.host = some o → h.objects.get? o = s.heap.objects.get? o) :
    (s.withHeap h).handleAt? p = s.handleAt? p := by
  cases p with
  | name n => rfl
  | entry key => rfl
  | kid o i => simp [handleAt?, withHeap, hh o rfl]

/-- Writing into a spot leaves every other object as it is. -/
theorem get?_put_of_ne (hq : p.host ≠ some q) (a : Strong) :
    (s.put p a).heap.objects.get? q = s.heap.objects.get? q := by
  cases p with
  | name n => rfl
  | entry key => rfl
  | kid o i =>
    have hne : o ≠ q := fun e => hq (congrArg some e)
    exact (Slab.get?_modify ..).trans (if_neg hne)

theorem managed_put : (s.put p a).heap.Managed q ↔ s.heap.Managed q := by
  cases p with
  | name n => rfl
  | entry key => rfl
  | kid o i =>
    simp only [Heap.Managed, put, withHeap, Heap.setObject, Slab.get?_modify]
    split <;> simp

theorem held_put_of_host (ho : p.host = some o) : (s.put p a).held = s.held := by
  cases p with
  | kid => rfl
  | _ => cases ho

theorem perm_handles_set {z : Object Label} {i : Nat} (hi : z.kids[i]? = some x) (a : Strong) :
    (.strong x :: Object.handles { z with kids := z.kids.set i a }).Perm
      (.strong a :: z.handles) := by
  obtain ⟨hlt, rfl⟩ := List.getElem?_eq_some_iff.1 hi
  have hset := ((List.set_perm_cons_eraseIdx hlt a).cons z.kids[i]).trans
    ((List.Perm.swap _ _ _).trans ((List.getElem_cons_eraseIdx_perm hlt).cons a))
  exact (hset.map Handle.strong).append_right _

/-- Writing into a spot is an exchange of handles. -/
theorem perm_handles_put (hp : s.handleAt? p = some x) (a : Strong) :
    (.strong x :: (s.put p a).handles).Perm (.strong a :: s.handles) := by
  cases p with
  | name n => exact (perm_held_exchange hp a).append_right _
  | entry key =>
    have hk := s.perm_held_insert_shared key a
    rw [Roster.handlesAt_of_get? hp] at hk
    exact hk.append_right _
  | kid o i =>
    obtain ⟨z, hz, hi⟩ := handleAt?_kid hp
    have hobject := perm_handles_set hi a
    have hstored := Heap.perm_stored_setObject hz fun z => { z with kids := z.kids.set i a }
    rw [List.perm_iff_count] at hobject hstored ⊢
    intro u
    have h₁ := hobject u
    have h₂ := hstored u
    simp only [handles, put, withHeap, held, List.count_cons, List.count_append] at h₁ h₂ ⊢
    omega

theorem balanced_put {hs : List Handle} (hb : s.heap.Balanced hs) :
    (s.put p a).heap.Balanced hs := by
  cases p with
  | name n => exact hb
  | entry key => exact hb
  | kid o i => exact hb.modify fun _ => rfl

theorem sound_put (hp : s.handleAt? p = some x) (hs : s.heap.Sound (.strong a :: s.held)) :
    (s.put p a).heap.Sound (.strong x :: (s.put p a).held) :=
  (balanced_put hs).perm (perm_handles_put hp a).symm

theorem get?_put_congr (hq : h.objects.get? q = s.heap.objects.get? q) :
    ((s.withHeap h).put p a).heap.objects.get? q = (s.put p a).heap.objects.get? q := by
  cases p with
  | name n => exact hq
  | entry key => exact hq
  | kid o i => simp [put, withHeap, Heap.setObject, Slab.get?_modify, hq]

/-- Writing into a spot changes nothing but the spot and the heap. -/
theorem put_withHeap_put (s : Session) (p : Spot) (h : Heap Label) (a b : Strong) :
    ((s.put p a).withHeap h).put p b =
      (s.put p b).withHeap (((s.put p a).withHeap h).put p b).heap := by
  cases p with
  | name n => simp [put, withHeap, Roster.insert_insert]
  | entry key => simp [put, withHeap, Roster.insert_insert]
  | kid o i => rfl

/-- It makes no difference whether a handle is copied before or after a spot is written. -/
theorem clone_put {z : Strong} (e : s.heap.clone y = .ok (h, z)) :
    (s.put p a).heap.clone y = .ok (((s.withHeap h).put p a).heap, z) := by
  cases p with
  | name n => exact e
  | entry key => exact e
  | kid o i =>
    exact Heap.clone_setObject (f := fun w => { w with kids := w.kids.set i a }) (fun _ => rfl) e

end Session

end Custody
