/-!
# Faults of shared ownership

A `Fault` stops an operation on handles: a name under which nothing is kept (`notFound`), or a
breach of the ownership rules, such as a count that would go below zero, a slot that names another
object's counter, or an object or counter that is touched after it was freed.  `Fault.message` is
its wording.  Work that may be stopped is done one step after another (`bind_eq_ok_iff`).
-/

namespace Custody

/-- Why an operation on handles is stopped. -/
inductive Fault where
  /-- Nothing is kept under a name, key or position that is asked for. -/
  | notFound
  /-- The slot holds a counter that names another object. -/
  | foreignSlot
  /-- An object put under a new counter already has one. -/
  | alreadyManaged
  /-- A counter is attached to a slot that holds one. -/
  | slotTaken
  /-- An object is dropped while its slot still holds its counter. -/
  | droppedAttached
  /-- A strong handle is released that was not counted. -/
  | strongUnderflow
  /-- A weak handle is released that was not counted. -/
  | weakUnderflow
  /-- A counter is freed while it counts handles. -/
  | freedInUse (strong weak : Nat)
  /-- A freed object is touched. -/
  | freedObject
  /-- A freed counter is touched. -/
  | freedCounter
  /-- The last weak handle is released over an object that no strong handle owns. -/
  | ownerless
  /-- A handle taken for a moment turns out to be the last one when it is given back. -/
  | lastBorrow
  deriving DecidableEq, Repr

def Fault.message : Fault → String
  | notFound => "nothing there"
  | foreignSlot => "counter slot does not belong to this object"
  | alreadyManaged => "boxed object is already attached to a reference counter"
  | slotTaken => "counter slot already attached to a reference counter"
  | droppedAttached => "managed object dropped while still attached to its reference counter"
  | strongUnderflow => "strong reference count underflow"
  | weakUnderflow => "weak reference count underflow"
  | freedInUse s w =>
    "reference counter freed with live handles (strong " ++ s.repr ++ ", weak " ++ w.repr ++ ")"
  | freedObject => "freed object touched"
  | freedCounter => "freed reference counter touched"
  | ownerless => "object left to its last weak handle"
  | lastBorrow => "object left to a borrowed handle"

/-- A step after another comes to a result exactly if both do. -/
theorem bind_eq_ok_iff {α β ε : Type} {x : Except ε α} {f : α → Except ε β} {b : β} :
    (x >>= f) = .ok b ↔ ∃ a, x = .ok a ∧ f a = .ok b := by
  cases x <;> simp [Bind.bind, Except.bind]

theorem bind_eq_error_iff {α β ε : Type} {x : Except ε α} {f : α → Except ε β} {e : ε} :
    (x >>= f) = .error e ↔ x = .error e ∨ ∃ a, x = .ok a ∧ f a = .error e := by
  cases x <;> simp [Bind.bind, Except.bind]

end Custody
