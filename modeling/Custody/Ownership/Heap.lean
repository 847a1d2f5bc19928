import Custody.Slab
import Custody.Ownership.Fault

/-!
# The heap of shared objects

A `Heap α` holds objects and counters.  An `Object` carries a value, the slot that names its
counter while it is managed, and the handles stored inside it: `kids` own other objects and `watch`
observes them.  A `Counter` keeps the number of strong and of weak handles on its object, whether
the object is gone, and a reference back to the object.  A `Strong` handle is unset or names an
object; a `Weak` handle is unbound or names a counter.

Objects and counters are reached through `Heap.object` and `Heap.counter`, for which a freed one is
a fault.
-/

namespace Custody

/-- The number of an object in its heap. -/
abbrev ObjectId := Nat

/-- The number of a counter in its heap. -/
abbrev CounterId := Nat

/-- A handle that keeps its object alive; unset when it names none. -/
structure Strong where
  target : Option ObjectId := none
  deriving DecidableEq, Repr

/-- A handle that observes an object through its counter; unbound when it names none. -/
structure Weak where
  counter : Option CounterId := none
  deriving DecidableEq, Repr

/-- A handle of either kind, or the sole owner of an object that is not managed. -/
inductive Handle where
  | strong (s : Strong)
  | weak (w : Weak)
  | owner (o : ObjectId)
  deriving DecidableEq, Repr

/-- The counts kept for one managed object. -/
structure Counter where
  strong : Nat := 0
  weak : Nat := 0
  deleted : Bool := false
  object : Option ObjectId := none
  deriving DecidableEq, Repr

def Counter.living (c : Counter) : Option ObjectId := if c.deleted then none else c.object

/-- An object of the heap. -/
structure Object (α : Type) where
  value : α
  slot : Option CounterId := none
  kids : List Strong := []
  watch : List Weak := []

/-- The handles stored in the object, in the order in which they are released. -/
def Object.handles {α : Type} (x : Object α) : List Handle :=
  x.kids.map .strong ++ x.watch.map .weak

/-- Objects and counters that are not freed. -/
structure Heap (α : Type) where
  objects : Slab (Object α) := {}
  counters : Slab Counter := {}

namespace Heap

variable {α : Type}

def object (h : Heap α) (o : ObjectId) : Except Fault (Object α) :=
  match h.objects.get? o with
  | some x => .ok x
  | none => .error .freedObject

def counter (h : Heap α) (c : CounterId) : Except Fault Counter :=
  match h.counters.get? c with
  | some k => .ok k
  | none => .error .freedCounter

def live (h : Heap α) : Nat := h.counters.size

def stored (h : Heap α) : List Handle := h.objects.toList.flatMap Object.handles

def setObject (h : Heap α) (o : ObjectId) (f : Object α → Object α) : Heap α :=
  { h with objects := h.objects.modify o f }

/-- Changes the object numbered `o`, which must not be freed. -/
def amend (h : Heap α) (o : ObjectId) (f : Object α → Object α) : Except Fault (Heap α) := do
  let _ ← h.object o
  .ok (h.setObject o f)

def setCounter (h : Heap α) (c : CounterId) (f : Counter → Counter) : Heap α :=
  { h with counters := h.counters.modify c f }

/-- Adds an object that no counter manages, and gives its number. -/
def place (h : Heap α) (x : Object α) : Heap α × ObjectId :=
  ({ h with objects := h.objects.insert x }, h.objects.next)

/-- The counter in a slot, which has to name the object at `o`, the owner of the slot. -/
def slotCounter (h : Heap α) (o : ObjectId) : Option CounterId → Except Fault (Option CounterId)
  | none => .ok none
  | some c => do
    let k ← h.counter c
    if k.living = some o then .ok (some c) else .error .foreignSlot

/-- The counter that manages the object numbered `o`, if one does. -/
def attached (h : Heap α) (o : ObjectId) : Except Fault (Option CounterId) := do
  let x ← h.object o
  h.slotCounter o x.slot

theorem object_eq_ok_iff {h : Heap α} {o : ObjectId} {x : Object α} :
    h.object o = .ok x ↔ h.objects.get? o = some x := by
  unfold object
  split <;> simp_all

theorem counter_eq_ok_iff {h : Heap α} {c : CounterId} {k : Counter} :
    h.counter c = .ok k ↔ h.counters.get? c = some k := by
  unfold counter
  split <;> simp_all

@[simp] theorem setCounter_objects (h : Heap α) (c : CounterId) (f : Counter → Counter) :
    (h.setCounter c f).objects = h.objects := rfl

@[simp] theorem setObject_counters (h : Heap α) (o : ObjectId) (f : Object α → Object α) :
    (h.setObject o f).counters = h.counters := rfl

/-- A change that keeps the handles stored in an object keeps those stored in the heap. -/
theorem stored_setObject (h : Heap α) (o : ObjectId) (f : Object α → Object α)
    (hf : ∀ x, (f x).handles = x.handles) : (h.setObject o f).stored = h.stored :=
  h.objects.flatMap_modify_eq o f Object.handles hf

end Heap

end Custody
