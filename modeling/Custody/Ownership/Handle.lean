import Custody.Ownership.Heap

/-!
# Taking handles

The operations that make a handle and count it.  `Heap.manage` puts a new object under a counter;
`Heap.share`, `Heap.pin` and `Heap.clone` take further strong handles, `Heap.observe`,
`Heap.downgrade` and `Heap.cloneWeak` weak ones, and `Heap.upgrade` goes from weak to strong.  None
of them frees anything, and none but `manage` touches an object.

`Heap.visible` is what a weak handle still sees: it asks the counter every time.
-/

namespace Custody

namespace Heap

variable {α : Type}

def countStrong (h : Heap α) (c : CounterId) : Heap α :=
  h.setCounter c fun k => { k with strong := k.strong + 1 }

def countWeak (h : Heap α) (c : CounterId) : Heap α :=
  h.setCounter c fun k => { k with weak := k.weak + 1 }

/-- Writes the counter `c` into the empty slot of the object at `o`. -/
def attach (h : Heap α) (o : ObjectId) (c : CounterId) : Except Fault (Heap α) := do
  let x ← h.object o
  if x.slot.isSome then .error .slotTaken
  else .ok (h.setObject o fun x => { x with slot := some c })

/-! ### Strong handles -/

/-- Adds an object under a counter of its own and takes the first strong handle on it. -/
def manage (h : Heap α) (x : Object α) : Except Fault (Heap α × Strong) :=
  if x.slot.isSome then .error .alreadyManaged
  else do
    let (h, o) := h.place x
    let c := h.counters.next
    let h ← { h with counters := h.counters.insert { object := some o } }.attach o c
    .ok (h.countStrong c, ⟨some o⟩)

/-- Takes another strong handle on an object; unset if no counter manages it, for then nothing says
who owns it. -/
def share (h : Heap α) (o : ObjectId) : Except Fault (Heap α × Strong) := do
  match ← h.attached o with
  | some c => .ok (h.countStrong c, ⟨some o⟩)
  | none => .ok (h, ⟨none⟩)

/-- Takes a handle on an object that outlives every handle; it is counted if the object is
managed. -/
def pin (h : Heap α) (o : ObjectId) : Except Fault (Heap α × Strong) := do
  match ← h.attached o with
  | some c => .ok (h.countStrong c, ⟨some o⟩)
  | none => .ok (h, ⟨some o⟩)

/-- Copies a strong handle; the copy is counted if the object is managed. -/
def clone (h : Heap α) (s : Strong) : Except Fault (Heap α × Strong) :=
  match s.target with
  | none => .ok (h, ⟨none⟩)
  | some o => do
    let x ← h.object o
    if x.slot.isSome then h.share o else .ok (h, s)

/-- The counter of the object a handle names; absent for an unset handle and for an object that is
not managed. -/
def counterOf (h : Heap α) (s : Strong) : Except Fault (Option Counter) :=
  match s.target with
  | none => .ok none
  | some o => do
    match ← h.attached o with
    | some c => some <$> h.counter c
    | none => .ok none

/-- How many strong handles are counted for the object of `s`. -/
def strongCount (h : Heap α) (s : Strong) : Except Fault Nat := do
  let k ← h.counterOf s
  .ok ((k.map Counter.strong).getD 0)

/-- How many weak handles are counted for the object of `s`. -/
def weakCount (h : Heap α) (s : Strong) : Except Fault Nat := do
  let k ← h.counterOf s
  .ok ((k.map Counter.weak).getD 0)

/-! ### Weak handles -/

/-- Takes a weak handle on a counter; unbound once the object is gone. -/
def observeCounter (h : Heap α) (c : CounterId) : Except Fault (Heap α × Weak) := do
  let k ← h.counter c
  if k.deleted then .ok (h, ⟨none⟩) else .ok (h.countWeak c, ⟨some c⟩)

/-- Takes a weak handle on an object; unbound if no counter manages it. -/
def observe (h : Heap α) (o : ObjectId) : Except Fault (Heap α × Weak) := do
  match ← h.attached o with
  | some c => h.observeCounter c
  | none => .ok (h, ⟨none⟩)

/-- Takes a weak handle on the object of a strong one. -/
def downgrade (h : Heap α) (s : Strong) : Except Fault (Heap α × Weak) :=
  match s.target with
  | some o => h.observe o
  | none => .ok (h, ⟨none⟩)

/-- Copies a weak handle; the copy is unbound once the object is gone. -/
def cloneWeak (h : Heap α) (w : Weak) : Except Fault (Heap α × Weak) :=
  match w.counter with
  | some c => h.observeCounter c
  | none => .ok (h, ⟨none⟩)

def boundTo (h : Heap α) (w : Weak) : Except Fault (Option Counter) :=
  match w.counter with
  | some c => some <$> h.counter c
  | none => .ok none

def visible (h : Heap α) (w : Weak) : Except Fault (Option ObjectId) := do
  let k ← h.boundTo w
  .ok (k.bind Counter.living)

/-- Whether a weak handle is bound and its object is not gone. -/
def objectExists (h : Heap α) (w : Weak) : Except Fault Bool := do
  let k ← h.boundTo w
  .ok ((k.map fun k => !k.deleted).getD false)

/-- Takes a strong handle on the object a weak one sees; unset if it sees none. -/
def upgrade (h : Heap α) (w : Weak) : Except Fault (Heap α × Strong) := do
  match ← h.visible w with
  | some o => h.share o
  | none => .ok (h, ⟨none⟩)

/-! ### What taking a handle leaves alone -/

theorem share_objects {h h' : Heap α} {o : ObjectId} {s : Strong}
    (e : h.share o = .ok (h', s)) : h'.objects = h.objects := by
  simp only [share, Bind.bind, Except.bind] at e
  grind [countStrong, setCounter_objects]

theorem observeCounter_objects {h h' : Heap α} {c : CounterId} {w : Weak}
    (e : h.observeCounter c = .ok (h', w)) : h'.objects = h.objects := by
  simp only [observeCounter, Bind.bind, Except.bind] at e
  grind [countWeak, setCounter_objects]

theorem observe_objects {h h' : Heap α} {o : ObjectId} {w : Weak}
    (e : h.observe o = .ok (h', w)) : h'.objects = h.objects := by
  simp only [observe, Bind.bind, Except.bind] at e
  grind [observeCounter_objects]

theorem upgrade_objects {h h' : Heap α} {w : Weak} {s : Strong}
    (e : h.upgrade w = .ok (h', s)) : h'.objects = h.objects := by
  simp only [upgrade, Bind.bind, Except.bind] at e
  grind [share_objects]

theorem pin_objects {h h' : Heap α} {o : ObjectId} {s : Strong}
    (e : h.pin o = .ok (h', s)) : h'.objects = h.objects := by
  grind [pin, countStrong, setCounter_objects, = bind_eq_ok_iff]

theorem clone_objects {h h' : Heap α} {s t : Strong}
    (e : h.clone s = .ok (h', t)) : h'.objects = h.objects := by
  grind [clone, = bind_eq_ok_iff, → share_objects]

theorem downgrade_objects {h h' : Heap α} {s : Strong} {w : Weak}
    (e : h.downgrade s = .ok (h', w)) : h'.objects = h.objects := by
  grind [downgrade, → observe_objects]

theorem cloneWeak_objects {h h' : Heap α} {v w : Weak}
    (e : h.cloneWeak v = .ok (h', w)) : h'.objects = h.objects := by
  grind [cloneWeak, → observeCounter_objects]

end Heap

end Custody
