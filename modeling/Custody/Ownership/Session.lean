import Custody.Ownership.Registry

/-!
# Sessions

A `Session` is a heap of labelled objects together with everything that holds handles on it from
outside: strong and weak handles kept under names, a registry that shares its entries and one that
owns them.  A `Command` is one operation on it.  `Session.step` runs a command and gives its reply
and the records of the objects dropped by it; a command that is stopped by a fault changes nothing.
`Session.close` releases everything that is left.
-/

namespace Custody

/-- The label an object carries. -/
abbrev Label := Int

/-- The records of dropped objects, in the order in which they were dropped. -/
abbrev DropLog := List (DropRecord Label)

/-- A heap and everything that holds handles on it from outside. -/
structure Session where
  heap : Heap Label := {}
  strong : Roster Strong := .empty
  weak : Roster Weak := .empty
  /-- The registry that shares its entries. -/
  shared : Roster Strong := .empty
  /-- The registry that owns its entries. -/
  owned : Roster Owned := .empty

/-- One operation on a session.  `dst` names the handle that is made, `src` the one it is made
from. -/
inductive Command where
  /-- Puts a new object under a counter. -/
  | create (dst : String) (label : Label)
  /-- An unset handle. -/
  | unset (dst : String)
  /-- A handle on a new object that is never managed and never dropped. -/
  | leak (dst : String) (label : Label)
  | pin (dst src : String)
  | clone (dst src : String)
  | share (dst src : String)
  | upgrade (dst src : String)
  /-- Points the handle `dst` at the object of `src`, or unsets it. -/
  | assign (dst : String) (src : Option String)
  | reset (name : String)
  | drop (name : String)
  | swap (a b : String)
  | compare (a b : String)
  | inspect (name : String)
  /-- An unbound weak handle. -/
  | unbound (dst : String)
  | downgrade (dst src : String)
  | observe (dst src : String)
  | cloneWeak (dst src : String)
  | resetWeak (name : String)
  | dropWeak (name : String)
  | inspectWeak (name : String)
  /-- Whether a weak and a strong handle see the same object. -/
  | meets (weak strong : String)
  /-- Stores a further handle on `src`'s object inside the object of `name`. -/
  | link (name src : String)
  /-- Stores a weak handle on `src`'s object inside the object of `name`. -/
  | watch (name src : String)
  | kid (dst src : String) (index : Nat)
  | unlink (name : String) (index : Nat)
  | unwatch (name : String)
  /-- An object that is never managed, looked at and dropped. -/
  | plain (label : Label)
  /-- Shares, observes or manages a second object that reports the slot of the first as its own. -/
  | aliasShare (name : String)
  | aliasObserve (name : String)
  | aliasManage (name : String)
  /-- Replaces the slot of an object by an empty one. -/
  | tear (name : String)
  | sharedSet (key src : String)
  | sharedGet (dst key : String)
  | sharedMake (dst key : String) (label : Label)
  | sharedInfo (key : String)
  | sharedShutdown
  | sharedDrop
  | ownedSet (key : String) (label : Label)
  | ownedGet (key : String)
  | ownedMake (key : String) (label : Label)
  | ownedShare (dst key : String)
  | ownedLink (key src : String)
  | ownedInfo (key : String)
  | ownedShutdown
  | ownedDrop
  deriving Repr

/-- What can be read off a strong handle. -/
structure StrongInfo where
  set : Bool
  counter : Option Counter
  /-- Whether the object's slot holds a counter, and whether a copy of that slot does. -/
  slot : Option (Bool × Bool)

/-- What can be read off a weak handle. -/
structure WeakInfo where
  counter : Option Counter
  existing : Bool
  sees : Bool

/-- What can be read off a registry. -/
structure RegistryInfo where
  has : Bool
  size : Nat
  isEmpty : Bool
  keys : List String

/-- The answer to a command. -/
inductive Reply where
  | nothing
  | flag (b : Bool)
  | flags (bs : List Bool)
  | count (n : Nat)
  /-- The label of the object a handle names. -/
  | label (id : Option Label)
  /-- The label of an object and the number of strong handles on it. -/
  | held (id : Option Label) (strong : Nat)
  /-- The label of an entry, and whether it had to be made. -/
  | entry (id : Label) (made : Bool)
  | strongInfo (i : StrongInfo)
  | weakInfo (i : WeakInfo)
  | registryInfo (i : RegistryInfo)
  | fault (f : Fault)

/-- The answer to a command and the records of the objects dropped by it. -/
structure Outcome where
  reply : Reply
  drops : DropLog := []

/-- A copy of a slot is empty: a copied object is a new object. -/
def copiedSlot (_ : Option CounterId) : Option CounterId := none

namespace Session

/-! ### Names -/

def strongAt (s : Session) (name : String) : Except Fault Strong :=
  (s.strong.get? name).elim (.error .notFound) .ok

def weakAt (s : Session) (name : String) : Except Fault Weak :=
  (s.weak.get? name).elim (.error .notFound) .ok

/-- The object of the strong handle kept under a name. -/
def objectAt (s : Session) (name : String) : Except Fault ObjectId := do
  let x ← s.strongAt name
  x.target.elim (.error .notFound) .ok

def ownedAt (s : Session) (key : String) : Except Fault ObjectId :=
  (s.owned.get? key).elim (.error .notFound) fun b => .ok b.object

def labelOf (h : Heap Label) (x : Strong) : Except Fault (Option Label) :=
  match x.target with
  | none => .ok none
  | some o => do
    let y ← h.object o
    .ok (some y.value)

/-- Keeps the strong handle `x`, just taken in `h`, under a name. -/
def keep (s : Session) (name : String) (taken : Heap Label × Strong) :
    Except Fault (Session × Outcome) := do
  let id ← labelOf taken.1 taken.2
  let (strong, heap, log) ← s.strong.store taken.1 name taken.2
  .ok ({ s with heap, strong }, ⟨.label id, log⟩)

/-- Keeps the weak handle `w`, just taken in `h`, under a name. -/
def keepWeak (s : Session) (name : String) (taken : Heap Label × Weak) :
    Except Fault (Session × Outcome) := do
  let (weak, heap, log) ← s.weak.store taken.1 name taken.2
  .ok ({ s with heap, weak }, ⟨.flag taken.2.counter.isSome, log⟩)

/-- Releases handles that nothing in the session keeps any more. -/
def release (s : Session) (hs : List Handle) (reply : Reply) :
    Except Fault (Session × Outcome) := do
  let (heap, log) ← s.heap.release hs
  .ok ({ s with heap }, ⟨reply, log⟩)

/-- Orders the records of objects whose order means nothing by their labels. -/
def sortDrops (log : DropLog) : DropLog := log.mergeSort fun a b => a.value ≤ b.value

/-! ### Single commands -/

/-- Stores a further handle on `src`'s object inside the object at `o`. -/
def linkTo (s : Session) (o : ObjectId) (src : String) : Except Fault (Session × Outcome) := do
  let (h, x) ← s.heap.clone (← s.strongAt src)
  let heap ← h.amend o fun y => { y with kids := y.kids ++ [x] }
  .ok ({ s with heap }, ⟨.nothing, []⟩)

/-- Stores a weak handle on `src`'s object inside the object at `o`. -/
def watchFrom (s : Session) (o : ObjectId) (src : String) : Except Fault (Session × Outcome) := do
  let (h, w) ← s.heap.downgrade (← s.strongAt src)
  let heap ← h.amend o fun y => { y with watch := y.watch ++ [w] }
  .ok ({ s with heap }, ⟨.nothing, []⟩)

/-- Removes one of the strong handles stored in the object at `o` and releases it. -/
def unlinkFrom (s : Session) (o : ObjectId) (index : Nat) :
    Except Fault (Session × Outcome) := do
  let x ← s.heap.object o
  match x.kids[index]? with
  | none => .error .notFound
  | some k =>
    let heap := s.heap.setObject o fun y => { y with kids := y.kids.eraseIdx index }
    { s with heap }.release [.strong k] .nothing

/-- Removes all weak handles stored in the object at `o` and releases them. -/
def unwatchFrom (s : Session) (o : ObjectId) : Except Fault (Session × Outcome) := do
  let x ← s.heap.object o
  let heap := s.heap.setObject o fun y => { y with watch := [] }
  { s with heap }.release (x.watch.map .weak) (.count x.watch.length)

/-- Looks at an object that is never managed, then drops it. -/
def lookAtPlain (s : Session) (label : Label) : Except Fault (Session × Outcome) := do
  let (h, o) := s.heap.place { value := label }
  let (h, x) ← h.share o
  let (h, w) ← h.observe o
  { s with heap := h }.release [.strong x, .weak w, .owner o]
    (.flags [x.target.isSome, w.counter.isSome])

/-- A second object, labelled -1, that reports the slot of the object at `o` as its own. -/
def impostor (s : Session) (o : ObjectId) : Except Fault (Object Label) := do
  let x ← s.heap.object o
  .ok { value := -1, slot := x.slot }

/-- Runs `act` on an impostor of the object at `o`, which is then taken away unseen. -/
def withImpostor (s : Session) (o : ObjectId)
    (act : Heap Label → ObjectId → Except Fault (Heap Label × Reply × Handle)) :
    Except Fault (Session × Outcome) := do
  let (h, a) := s.heap.place (← s.impostor o)
  let (h, reply, t) ← act h a
  let (h, _) ← h.release [t]
  .ok ({ s with heap := { h with objects := h.objects.erase a } }, ⟨reply, []⟩)

/-- Puts an impostor of the object at `o` under a counter and releases the handle at once. -/
def manageImpostor (s : Session) (o : ObjectId) : Except Fault (Session × Outcome) := do
  let (h, x) ← s.heap.manage (← s.impostor o)
  let id ← labelOf h x
  let (h, _) ← h.release [.strong x]
  .ok ({ s with heap := h }, ⟨.label id, []⟩)

/-- Replaces the slot of the object at `o` by an empty one.  An attached slot must not be dropped,
so this is reported as a fault; the object is unmanaged from then on all the same. -/
def tearAt (s : Session) (o : ObjectId) : Except Fault (Session × Outcome) := do
  let x ← s.heap.object o
  .ok ({ s with heap := s.heap.detach o },
    ⟨if x.slot.isSome then .fault .droppedAttached else .nothing, []⟩)

def strongInfo (h : Heap Label) (x : Strong) : Except Fault StrongInfo := do
  let counter ← h.counterOf x
  match x.target with
  | none => .ok ⟨false, counter, none⟩
  | some o =>
    let y ← h.object o
    .ok ⟨true, counter, some (y.slot.isSome, (copiedSlot y.slot).isSome)⟩

def weakInfo (h : Heap Label) (w : Weak) : Except Fault WeakInfo := do
  let counter ← h.boundTo w
  let existing ← h.objectExists w
  let target ← h.visible w
  .ok ⟨counter, existing, target.isSome⟩

def registryInfo {β : Type} (r : Roster β) (key : String) : RegistryInfo :=
  ⟨r.contains key, r.size, r.isEmpty, r.keys⟩

/-- Keeps the object labelled `label` under `key` in the registry that owns its entries. -/
def ownNew (s : Session) (key : String) (label : Label) (reply : Reply) :
    Except Fault (Session × Outcome) := do
  let (h, o) := s.heap.place { value := label }
  let (owned, heap, log) ← s.owned.store h key ⟨o⟩
  .ok ({ s with heap, owned }, ⟨reply, log⟩)

def clearShared (s : Session) (reply : Reply) : Except Fault (Session × Outcome) := do
  let (heap, log) ← s.shared.releaseAll s.heap
  .ok ({ s with heap, shared := .empty }, ⟨reply, sortDrops log⟩)

def clearOwned (s : Session) (reply : Reply) : Except Fault (Session × Outcome) := do
  let (heap, log) ← s.owned.releaseAll s.heap
  .ok ({ s with heap, owned := .empty }, ⟨reply, sortDrops log⟩)

/-! ### Steps -/

def exec (s : Session) : Command → Except Fault (Session × Outcome)
  | .create dst label => do s.keep dst (← s.heap.manage { value := label })
  | .unset dst => s.keep dst (s.heap, ⟨none⟩)
  | .leak dst label => do
    let (h, o) := s.heap.place { value := label }
    s.keep dst (← h.pin o)
  | .pin dst src => do s.keep dst (← s.heap.pin (← s.objectAt src))
  | .clone dst src => do s.keep dst (← s.heap.clone (← s.strongAt src))
  | .share dst src => do s.keep dst (← s.heap.share (← s.objectAt src))
  | .upgrade dst src => do s.keep dst (← s.heap.upgrade (← s.weakAt src))
  | .assign dst src => do
    let x ← s.strongAt dst
    let y ← src.elim (.ok ⟨none⟩) s.strongAt
    let (heap, z, log) ← s.heap.assign x y
    let id ← labelOf heap z
    .ok ({ s with heap, strong := s.strong.insert dst z }, ⟨.label id, log⟩)
  | .reset name => do
    let x ← s.strongAt name
    { s with strong := s.strong.insert name ⟨none⟩ }.release [.strong x] (.flag false)
  | .drop name => do
    let (strong, heap, log) ← s.strong.discard s.heap name
    .ok ({ s with heap, strong }, ⟨.flag (s.strong.contains name), log⟩)
  | .swap a b => do
    let x ← s.strongAt a
    let y ← s.strongAt b
    .ok ({ s with strong := (s.strong.insert a y).insert b x }, ⟨.nothing, []⟩)
  | .compare a b => do
    let x ← s.strongAt a
    let y ← s.strongAt b
    let same := x.target.isSome && decide (x.target = y.target)
    .ok (s, ⟨.flags [same, !same, same, decide (x.target = y.target)], []⟩)
  | .inspect name => do
    let i ← strongInfo s.heap (← s.strongAt name)
    .ok (s, ⟨.strongInfo i, []⟩)
  | .unbound dst => s.keepWeak dst (s.heap, ⟨none⟩)
  | .downgrade dst src => do s.keepWeak dst (← s.heap.downgrade (← s.strongAt src))
  | .observe dst src => do s.keepWeak dst (← s.heap.observe (← s.objectAt src))
  | .cloneWeak dst src => do s.keepWeak dst (← s.heap.cloneWeak (← s.weakAt src))
  | .resetWeak name => do
    let w ← s.weakAt name
    { s with weak := s.weak.insert name ⟨none⟩ }.release [.weak w] (.flag false)
  | .dropWeak name => do
    let (weak, heap, log) ← s.weak.discard s.heap name
    .ok ({ s with heap, weak }, ⟨.flag (s.weak.contains name), log⟩)
  | .inspectWeak name => do
    let i ← weakInfo s.heap (← s.weakAt name)
    .ok (s, ⟨.weakInfo i, []⟩)
  | .meets weak strong => do
    let o ← s.heap.visible (← s.weakAt weak)
    let x ← s.strongAt strong
    .ok (s, ⟨.flag (decide (o = x.target)), []⟩)
  | .link name src => do s.linkTo (← s.objectAt name) src
  | .watch name src => do s.watchFrom (← s.objectAt name) src
  | .kid dst src index => do
    let x ← s.heap.object (← s.objectAt src)
    let k ← x.kids[index]?.elim (.error .notFound) .ok
    s.keep dst (← s.heap.clone k)
  | .unlink name index => do s.unlinkFrom (← s.objectAt name) index
  | .unwatch name => do s.unwatchFrom (← s.objectAt name)
  | .plain label => s.lookAtPlain label
  | .aliasShare name => do
    s.withImpostor (← s.objectAt name) fun h a => do
      let (h, x) ← h.share a
      .ok (h, .label (← labelOf h x), .strong x)
  | .aliasObserve name => do
    s.withImpostor (← s.objectAt name) fun h a => do
      let (h, w) ← h.observe a
      .ok (h, .flag w.counter.isSome, .weak w)
  | .aliasManage name => do s.manageImpostor (← s.objectAt name)
  | .tear name => do s.tearAt (← s.objectAt name)
  | .sharedSet key src => do
    let (h, x) ← s.heap.clone (← s.strongAt src)
    let (shared, h, log) ← s.shared.enlist h key x
    let reply := Reply.held (← labelOf h x) (← h.strongCount x)
    let (heap, log') ← h.release [.strong x]
    .ok ({ s with heap, shared }, ⟨reply, log ++ log'⟩)
  | .sharedGet dst key => do
    match ← s.shared.lend s.heap key with
    | (_, none) => .ok (s, ⟨.flag false, []⟩)
    | (h, some x) =>
      let (s, out) ← s.keep dst (h, x)
      .ok (s, { out with reply := .flag true })
  | .sharedMake dst key label => do
    let (shared, h, x, made, log) ← s.shared.lendOrMake s.heap key { value := label }
    let (s, out) ← { s with shared }.keep dst (h, x)
    .ok (s, ⟨.flag made, log ++ out.drops⟩)
  | .sharedInfo key => .ok (s, ⟨.registryInfo (registryInfo s.shared key), []⟩)
  | .sharedShutdown => s.clearShared (.count s.shared.size)
  | .sharedDrop => s.clearShared .nothing
  | .ownedSet key label => s.ownNew key label (.label (some label))
  | .ownedGet key => do
    match s.owned.get? key with
    | none => .ok (s, ⟨.label none, []⟩)
    | some b => .ok (s, ⟨.label (some (← s.heap.object b.object).value), []⟩)
  | .ownedMake key label => do
    match s.owned.get? key with
    | none => s.ownNew key label (.entry label true)
    | some b => .ok (s, ⟨.entry (← s.heap.object b.object).value false, []⟩)
  | .ownedShare dst key => do s.keep dst (← s.heap.share (← s.ownedAt key))
  | .ownedLink key src => do s.linkTo (← s.ownedAt key) src
  | .ownedInfo key => .ok (s, ⟨.registryInfo (registryInfo s.owned key), []⟩)
  | .ownedShutdown => s.clearOwned (.count s.owned.size)
  | .ownedDrop => s.clearOwned .nothing

/-- Runs a command.  One that is stopped by a fault changes nothing. -/
def step (s : Session) (c : Command) : Session × Outcome :=
  match s.exec c with
  | .ok r => r
  | .error f => (s, ⟨.fault f, []⟩)

def run (s : Session) (cs : List Command) : Session := cs.foldl (fun s c => (s.step c).1) s

/-! ### Views -/

/-- What the handles kept under names show between two commands. -/
structure View where
  /-- Label, strong and weak count of each strong handle that is set. -/
  strong : List (String × Option (Label × Nat × Nat))
  /-- Label, if the object is there, and counter of each weak handle that is bound. -/
  weak : List (String × Option (Option Label × Counter))
  live : Nat

def viewStrong (h : Heap Label) (x : Strong) : Except Fault (Option (Label × Nat × Nat)) := do
  match ← labelOf h x with
  | none => .ok none
  | some id => .ok (some (id, ← h.strongCount x, ← h.weakCount x))

def viewWeak (h : Heap Label) (w : Weak) : Except Fault (Option (Option Label × Counter)) := do
  match ← h.boundTo w with
  | none => .ok none
  | some k => .ok (some (← labelOf h ⟨k.living⟩, k))

def view (s : Session) : Except Fault View := do
  let strong ← s.strong.entries.mapM fun e => do .ok (e.1, ← viewStrong s.heap e.2)
  let weak ← s.weak.entries.mapM fun e => do .ok (e.1, ← viewWeak s.heap e.2)
  .ok ⟨strong, weak, s.heap.live⟩

/-! ### The end of a session -/

/-- What is dropped when everything left in a session is released, and the counters that stay. -/
structure Closing where
  strong : DropLog
  shared : DropLog
  owned : DropLog
  live : Nat

/-- Releases the strong handles, the weak handles and the two registries, in this order. -/
def close (s : Session) : Except Fault Closing := do
  let (h, strong) ← s.strong.releaseAll s.heap
  let (h, _) ← s.weak.releaseAll h
  let (h, shared) ← s.shared.releaseAll h
  let (h, owned) ← s.owned.releaseAll h
  .ok ⟨strong, sortDrops shared, sortDrops owned, h.live⟩

end Session

end Custody
