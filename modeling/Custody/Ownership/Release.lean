import Custody.Ownership.Handle

/-!
# Releasing handles

`Heap.release h pending` releases the pending handles in order.  The last strong handle on an object
retires its counter (freed at once, or marked and left to the weak handles) and then drops the
object: the object leaves a `DropRecord`, is freed, and the handles stored inside it are released
before anything else that is pending.

`Heap.releaseOne` is one such release, and `perm_stored_releaseOne` is why the work ends: every step
takes one handle out of existence, and the handles of a dropped object only move from the heap to
the pending ones.
-/

namespace Custody

/-- What a dropped object finds out about an object it watches. -/
inductive Sighting (α : Type) where
  /-- The object could be held for a moment; its value is `value`. -/
  | held (value : α)
  /-- The object could not be held; `existing` says whether it was reported as existing. -/
  | missed (existing : Bool)
  deriving DecidableEq, Repr

/-- What an object reports while it is dropped. -/
structure DropRecord (α : Type) where
  /-- The number of the object. -/
  object : ObjectId
  value : α
  /-- Whether the object could take a strong handle on itself. -/
  rewrapped : Bool
  /-- Whether the object could take a weak handle on itself. -/
  observed : Bool
  /-- What became of each object it watches, in order. -/
  seen : List (Sighting α)
  deriving DecidableEq, Repr

namespace Heap

variable {α : Type}

/-! ### Counting down -/

/-- Counts one strong handle less; gives what is left. -/
def discountStrong (h : Heap α) (c : CounterId) : Except Fault (Heap α × Nat) := do
  match (← h.counter c).strong with
  | 0 => .error .strongUnderflow
  | n + 1 => .ok (h.setCounter c fun k => { k with strong := n }, n)

/-- Counts one weak handle less; gives what is left. -/
def discountWeak (h : Heap α) (c : CounterId) : Except Fault (Heap α × Nat) := do
  match (← h.counter c).weak with
  | 0 => .error .weakUnderflow
  | n + 1 => .ok (h.setCounter c fun k => { k with weak := n }, n)

def freeCounter (h : Heap α) (c : CounterId) : Except Fault (Heap α) := do
  let k ← h.counter c
  if k.strong = 0 ∧ k.weak = 0 then .ok { h with counters := h.counters.erase c }
  else .error (.freedInUse k.strong k.weak)

/-! ### What an object sees while it is dropped -/

/-- Gives back a strong handle that was taken while others are held. -/
def giveBack (h : Heap α) (s : Strong) : Except Fault (Heap α) :=
  match s.target with
  | none => .ok h
  | some o => do
    match ← h.attached o with
    | none => .ok h
    | some c => do
      let (h, left) ← h.discountStrong c
      if left = 0 then .error .lastBorrow else .ok h

/-- Gives back a weak handle that was taken while others are held. -/
def giveBackWeak (h : Heap α) (w : Weak) : Except Fault (Heap α) :=
  match w.counter with
  | none => .ok h
  | some c => do
    let (h, left) ← h.discountWeak c
    if left = 0 ∧ (← h.counter c).strong = 0 then .error .lastBorrow else .ok h

/-- Tries to hold the object behind `w` for a moment. -/
def look (h : Heap α) (w : Weak) : Except Fault (Heap α × Sighting α) := do
  let (h, s) ← h.upgrade w
  match s.target with
  | some o =>
    let x ← h.object o
    let h ← h.giveBack s
    .ok (h, .held x.value)
  | none =>
    let existing ← h.objectExists w
    .ok (h, .missed existing)

/-- Tries each of the objects behind `ws` in order. -/
def lookAll (h : Heap α) : List Weak → Except Fault (Heap α × List (Sighting α))
  | [] => .ok (h, [])
  | w :: ws => do
    let (h, s) ← h.look w
    let (h, ss) ← h.lookAll ws
    .ok (h, s :: ss)

/-- What the object `x` at `o` reports while it is dropped. -/
def lastWords (h : Heap α) (o : ObjectId) (x : Object α) :
    Except Fault (Heap α × DropRecord α) := do
  let (h, seen) ← h.lookAll x.watch
  let (h, s) ← h.share o
  let h ← h.giveBack s
  let (h, w) ← h.observe o
  let h ← h.giveBackWeak w
  .ok (h, ⟨o, x.value, s.target.isSome, w.counter.isSome, seen⟩)

/-! ### Releasing -/

/-- What one release leaves: the heap, the handles that are to be released next, and the record of
the object that was dropped, if one was. -/
structure Released (α : Type) where
  heap : Heap α
  freed : List Handle := []
  record : Option (DropRecord α) := none

/-- Drops the object at `o`: it reports, it is freed, and its handles are left to be released. -/
def destroy (h : Heap α) (o : ObjectId) : Except Fault (Released α) := do
  let x ← h.object o
  let (h, record) ← h.lastWords o x
  if x.slot.isSome then .error .droppedAttached
  else .ok ⟨{ h with objects := h.objects.erase o }, x.handles, some record⟩

def detach (h : Heap α) (o : ObjectId) : Heap α :=
  h.setObject o fun x => { x with slot := none }

/-- Retires the counter of an object whose last strong handle is gone: freed if nothing observes the
object, else marked and left to the weak handles.  Either way the slot is emptied, so that nothing
finds the counter through the object while the object is dropped. -/
def retire (h : Heap α) (o : ObjectId) (c : CounterId) : Except Fault (Heap α) := do
  let k ← h.counter c
  if k.weak = 0 then (h.detach o).freeCounter c
  else .ok ((h.setCounter c fun k => { k with deleted := true, object := none }).detach o)

def releaseOne (h : Heap α) : Handle → Except Fault (Released α)
  | .strong ⟨none⟩ => .ok ⟨h, [], none⟩
  | .strong ⟨some o⟩ => do
    match ← h.attached o with
    | none => .ok ⟨h, [], none⟩
    | some c => do
      let (h, left) ← h.discountStrong c
      if left > 0 then .ok ⟨h, [], none⟩ else (← h.retire o c).destroy o
  | .weak ⟨none⟩ => .ok ⟨h, [], none⟩
  | .weak ⟨some c⟩ => do
    let (h, left) ← h.discountWeak c
    let k ← h.counter c
    if left > 0 ∨ k.strong > 0 then .ok ⟨h, [], none⟩
    else if k.living.isSome then .error .ownerless
    else do
      let h ← h.freeCounter c
      .ok ⟨h, [], none⟩
  | .owner o => h.destroy o

/-! ### Why the work ends -/

theorem discountStrong_objects {h h' : Heap α} {c : CounterId} {n : Nat}
    (e : h.discountStrong c = .ok (h', n)) : h'.objects = h.objects := by
  grind [discountStrong, = bind_eq_ok_iff, setCounter_objects]

theorem discountWeak_objects {h h' : Heap α} {c : CounterId} {n : Nat}
    (e : h.discountWeak c = .ok (h', n)) : h'.objects = h.objects := by
  grind [discountWeak, = bind_eq_ok_iff, setCounter_objects]

theorem freeCounter_objects {h h' : Heap α} {c : CounterId}
    (e : h.freeCounter c = .ok h') : h'.objects = h.objects := by
  grind [freeCounter, = bind_eq_ok_iff]

theorem giveBack_objects {h h' : Heap α} {s : Strong} (e : h.giveBack s = .ok h') :
    h'.objects = h.objects := by
  grind [giveBack, = bind_eq_ok_iff, → discountStrong_objects]

theorem giveBackWeak_objects {h h' : Heap α} {w : Weak} (e : h.giveBackWeak w = .ok h') :
    h'.objects = h.objects := by
  grind [giveBackWeak, = bind_eq_ok_iff, → discountWeak_objects]

theorem look_objects {h h' : Heap α} {w : Weak} {s : Sighting α} (e : h.look w = .ok (h', s)) :
    h'.objects = h.objects := by
  grind [look, = bind_eq_ok_iff, → upgrade_objects, → giveBack_objects]

theorem lookAll_objects {h h' : Heap α} {ws : List Weak} {ss : List (Sighting α)}
    (e : h.lookAll ws = .ok (h', ss)) : h'.objects = h.objects := by
  induction ws generalizing h ss with
  | nil => simp_all [lookAll]
  | cons w ws ih =>
    grind [lookAll, = bind_eq_ok_iff, → look_objects]

theorem lastWords_objects {h h' : Heap α} {o : ObjectId} {x : Object α} {r : DropRecord α}
    (e : h.lastWords o x = .ok (h', r)) : h'.objects = h.objects := by
  grind [lastWords, = bind_eq_ok_iff, → lookAll_objects, → share_objects, → giveBack_objects,
    → observe_objects, → giveBackWeak_objects]

theorem stored_eq_of_objects {h h' : Heap α} (e : h'.objects = h.objects) :
    h'.stored = h.stored := by
  rw [stored, e, stored]

theorem perm_stored_destroy {h : Heap α} {o : ObjectId} {r : Released α}
    (e : h.destroy o = .ok r) : h.stored.Perm (r.freed ++ r.heap.stored) := by
  simp only [destroy, bind_eq_ok_iff, object_eq_ok_iff] at e
  obtain ⟨x, hx, ⟨h', rec⟩, hw, e⟩ := e
  split at e
  · cases e
  · cases e
    have := lastWords_objects hw
    simp only [stored, this]
    exact h.objects.perm_flatMap_erase hx Object.handles

theorem stored_detach (h : Heap α) (o : ObjectId) : (h.detach o).stored = h.stored :=
  stored_setObject h o _ fun _ => rfl

theorem stored_retire {h h' : Heap α} {o : ObjectId} {c : CounterId}
    (e : h.retire o c = .ok h') : h'.stored = h.stored := by
  simp only [retire, bind_eq_ok_iff] at e
  obtain ⟨k, -, e⟩ := e
  split at e
  · rw [stored_eq_of_objects (freeCounter_objects e), stored_detach]
  · cases e
    rw [stored_detach]
    rfl

/-- A release makes and loses no other handle: those of a dropped object move from the heap to the
handles that are released next. -/
theorem perm_stored_releaseOne {h : Heap α} {t : Handle} {r : Released α}
    (e : h.releaseOne t = .ok r) : h.stored.Perm (r.freed ++ r.heap.stored) := by
  unfold releaseOne at e
  split at e
  · cases e; rfl
  · simp only [bind_eq_ok_iff] at e
    obtain ⟨c, -, e⟩ := e
    split at e
    · cases e; rfl
    · simp only [bind_eq_ok_iff] at e
      obtain ⟨⟨h', n⟩, hd, e⟩ := e
      have := stored_eq_of_objects (discountStrong_objects hd)
      split at e
      · cases e; simp [this]
      · obtain ⟨h'', hr, e⟩ := bind_eq_ok_iff.1 e
        simpa [stored_retire hr, this] using perm_stored_destroy e
  · cases e; rfl
  · simp only [bind_eq_ok_iff] at e
    obtain ⟨⟨h', n⟩, hd, k, -, e⟩ := e
    have := stored_eq_of_objects (discountWeak_objects hd)
    split at e
    · cases e; simp [this]
    · split at e
      · cases e
      · obtain ⟨h'', hf, e⟩ := bind_eq_ok_iff.1 e
        cases e
        have := stored_eq_of_objects (freeCounter_objects hf)
        simp_all
  · exact perm_stored_destroy e

/-- Releases the pending handles in order, and with each dropped object the handles stored inside
it; gives the records of the dropped objects in order. -/
def release (h : Heap α) (pending : List Handle) :
    Except Fault (Heap α × List (DropRecord α)) :=
  match pending with
  | [] => .ok (h, [])
  | t :: ts =>
    match e : h.releaseOne t with
    | .error f => .error f
    | .ok r =>
      have := (perm_stored_releaseOne e).length_eq
      match r.heap.release (r.freed ++ ts) with
      | .error f => .error f
      | .ok (h', log) => .ok (h', r.record.toList ++ log)
termination_by h.stored.length + pending.length
decreasing_by simp only [List.length_append, List.length_cons] at *; omega

/-- Points the handle `s` at the object of `t`: the new target is held before the old one is let go.
Pointing a handle at the object it names already changes nothing. -/
def assign (h : Heap α) (s t : Strong) :
    Except Fault (Heap α × Strong × List (DropRecord α)) :=
  if s.target = t.target then .ok (h, s, [])
  else do
    let (h, next) ← h.clone t
    let (h, log) ← h.release [.strong s]
    .ok (h, next, log)

end Heap

end Custody
