import Custody.Roster
import Custody.Ownership.Release

/-!
# Rosters that hold handles

A `Holder` is a type whose values hold handles: a handle itself, the sole owner of an object
(`Owned`), or anything built from these.  `Roster.store`, `Roster.discard` and `Roster.releaseAll`
keep holders under names and release what is overwritten, discarded or cleared.

A registry is a roster whose names are keys.  One that owns its entries is used through `store`
and `Roster.get?` as it stands.  One that shares its entries is a roster of strong handles: `lend`
gives out a further handle on an entry, `enlist` keeps a further handle on an object, and
`lendOrMake` does the one or the other.
-/

namespace Custody

variable {α β : Type}

/-- The sole owner of an object that no counter manages. -/
structure Owned where
  object : ObjectId
  deriving DecidableEq, Repr

/-- Types whose values hold handles. -/
class Holder (β : Type) where
  /-- The handles that are released when the value is given up, in order. -/
  handles : β → List Handle

instance : Holder Strong := ⟨fun s => [.strong s]⟩

instance : Holder Weak := ⟨fun w => [.weak w]⟩

instance : Holder Owned := ⟨fun b => [.owner b.object]⟩

namespace Roster

/-- All handles held by the entries, in the order of their names. -/
def handles [Holder β] (r : Roster β) : List Handle := r.values.flatMap Holder.handles

/-- Puts `b` under `k`, then releases what stood there. -/
def store [Holder β] (r : Roster β) (h : Heap α) (k : String) (b : β) :
    Except Fault (Roster β × Heap α × List (DropRecord α)) := do
  let (h, log) ← h.release ((r.get? k).toList.flatMap Holder.handles)
  .ok (r.insert k b, h, log)

/-- Forgets the entry under `k` and releases what stood there. -/
def discard [Holder β] (r : Roster β) (h : Heap α) (k : String) :
    Except Fault (Roster β × Heap α × List (DropRecord α)) := do
  let (h, log) ← h.release ((r.get? k).toList.flatMap Holder.handles)
  .ok (r.erase k, h, log)

def releaseAll [Holder β] (r : Roster β) (h : Heap α) :
    Except Fault (Heap α × List (DropRecord α)) :=
  h.release r.handles

/-! ### Registries that share their entries -/

def lend (r : Roster Strong) (h : Heap α) (k : String) :
    Except Fault (Heap α × Option Strong) :=
  match r.get? k with
  | none => .ok (h, none)
  | some s => do
    let (h, t) ← h.clone s
    .ok (h, some t)

theorem lend_objects {r : Roster Strong} {h h' : Heap α} {k : String} {s : Option Strong}
    (e : r.lend h k = .ok (h', s)) : h'.objects = h.objects := by
  grind [lend, = bind_eq_ok_iff, → Heap.clone_objects]

/-- Keeps a further handle on the object of `s` under `k`, then releases what stood there. -/
def enlist (r : Roster Strong) (h : Heap α) (k : String) (s : Strong) :
    Except Fault (Roster Strong × Heap α × List (DropRecord α)) := do
  let (h, t) ← h.clone s
  r.store h k t

/-- A further handle on the entry under `k`; if there is none, the object `x` is put under a counter
and enlisted first.  The flag says whether that was done. -/
def lendOrMake (r : Roster Strong) (h : Heap α) (k : String) (x : Object α) :
    Except Fault (Roster Strong × Heap α × Strong × Bool × List (DropRecord α)) := do
  match ← r.lend h k with
  | (h, some s) => .ok (r, h, s, false, [])
  | (h, none) =>
    let (h, s) ← h.manage x
    let (r, h, log) ← r.enlist h k s
    .ok (r, h, s, true, log)

end Roster

end Custody
