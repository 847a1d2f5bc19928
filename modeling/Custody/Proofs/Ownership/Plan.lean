import Custody.Ownership.Session
import Custody.Proofs.Ownership.Registry

/-!
# Plans of commands

A command that respects the slots takes the handles that it makes, puts them in their places and
then releases, in one cascade, the handles that lost their places.  `Session.plan` says what it has
done when it comes to that release: the session as it is then, and the handles that are released.
That every command goes by its plan is proved in `Custody.Proofs.Ownership.Runs`.
-/

namespace Custody

namespace Session

/-- The session with another heap. -/
def withHeap (s : Session) (h : Heap Label) : Session := { s with heap := h }

/-- Puts a handle just taken under a name; gives the handles that stood there. -/
def replace (s : Session) (name : String) (taken : Heap Label × Strong) :
    Session × List Handle :=
  ({ s with heap := taken.1, strong := s.strong.insert name taken.2 }, s.strong.handlesAt name)

/-- Puts a weak handle just taken under a name; gives the handles that stood there. -/
def replaceWeak (s : Session) (name : String) (taken : Heap Label × Weak) :
    Session × List Handle :=
  ({ s with heap := taken.1, weak := s.weak.insert name taken.2 }, s.weak.handlesAt name)

/-- Puts a new object under a key of the registry that owns its entries; gives the handles that
stood there. -/
def replaceOwned (s : Session) (key : String) (label : Label) : Session × List Handle :=
  let (h, o) := s.heap.place { value := label }
  ({ s with heap := h, owned := s.owned.insert key ⟨o⟩ }, s.owned.handlesAt key)

/-- What a command comes to before it releases anything, and the handles that it then releases, in
order.  A command that is not listed releases nothing. -/
def plan (s : Session) : Command → Except Fault (Session × List Handle)
  | .create dst label => s.replace dst <$> s.heap.manage { value := label }
  | .unset dst => .ok (s.replace dst (s.heap, ⟨none⟩))
  | .leak dst label =>
    let (h, o) := s.heap.place { value := label }
    s.replace dst <$> h.pin o
  | .pin dst src => do s.replace dst <$> s.heap.pin (← s.objectAt src)
  | .clone dst src => do s.replace dst <$> s.heap.clone (← s.strongAt src)
  | .share dst src => do s.replace dst <$> s.heap.share (← s.objectAt src)
  | .upgrade dst src => do s.replace dst <$> s.heap.upgrade (← s.weakAt src)
  | .assign dst src => do
    let x ← s.strongAt dst
    let y ← src.elim (.ok ⟨none⟩) s.strongAt
    if x.target = y.target then .ok ({ s with strong := s.strong.insert dst x }, [])
    else s.replace dst <$> s.heap.clone y
  | .reset name => do
    let x ← s.strongAt name
    .ok ({ s with strong := s.strong.insert name ⟨none⟩ }, [.strong x])
  | .drop name => .ok ({ s with strong := s.strong.erase name }, s.strong.handlesAt name)
  | .unbound dst => .ok (s.replaceWeak dst (s.heap, ⟨none⟩))
  | .downgrade dst src => do s.replaceWeak dst <$> s.heap.downgrade (← s.strongAt src)
  | .observe dst src => do s.replaceWeak dst <$> s.heap.observe (← s.objectAt src)
  | .cloneWeak dst src => do s.replaceWeak dst <$> s.heap.cloneWeak (← s.weakAt src)
  | .resetWeak name => do
    let w ← s.weakAt name
    .ok ({ s with weak := s.weak.insert name ⟨none⟩ }, [.weak w])
  | .dropWeak name => .ok ({ s with weak := s.weak.erase name }, s.weak.handlesAt name)
  | .kid dst src index => do
    let x ← s.heap.object (← s.objectAt src)
    let k ← x.kids[index]?.elim (.error .notFound) .ok
    s.replace dst <$> s.heap.clone k
  | .unlink name index => do
    let o ← s.objectAt name
    let x ← s.heap.object o
    let k ← x.kids[index]?.elim (.error .notFound) .ok
    .ok (s.withHeap (s.heap.setObject o fun y => { y with kids := y.kids.eraseIdx index }),
      [.strong k])
  | .unwatch name => do
    let o ← s.objectAt name
    let x ← s.heap.object o
    .ok (s.withHeap (s.heap.setObject o fun y => { y with watch := [] }), x.watch.map .weak)
  | .plain label => do
    let (h, o) := s.heap.place { value := label }
    let (h, x) ← h.share o
    let (h, w) ← h.observe o
    .ok (s.withHeap h, [.strong x, .weak w, .owner o])
  | .sharedSet key src => do
    let (h, x) ← s.heap.clone (← s.strongAt src)
    let (h, y) ← h.clone x
    .ok ({ s with heap := h, shared := s.shared.insert key y },
      s.shared.handlesAt key ++ [.strong x])
  | .sharedGet dst key => do
    match ← s.shared.lend s.heap key with
    | (_, none) => .ok (s, [])
    | (h, some x) => .ok (s.replace dst (h, x))
  | .sharedMake dst key label => do
    let (shared, h, x, _, _) ← s.shared.lendOrMake s.heap key { value := label }
    .ok ({ s with shared }.replace dst (h, x))
  | .sharedShutdown | .sharedDrop => .ok ({ s with shared := .empty }, s.shared.handles)
  | .ownedSet key label => .ok (s.replaceOwned key label)
  | .ownedMake key label =>
    match s.owned.get? key with
    | none => .ok (s.replaceOwned key label)
    | some _ => .ok (s, [])
  | .ownedShare dst key => do s.replace dst <$> s.heap.share (← s.ownedAt key)
  | .ownedShutdown | .ownedDrop => .ok ({ s with owned := .empty }, s.owned.handles)
  | c => do
    let (s, _) ← s.exec c
    .ok (s, [])

/-! ### What work comes to -/

/-- Whatever `r` comes to has the property `Q`. -/
def Gives {β : Type} (Q : β → Prop) (r : Except Fault β) : Prop := ∀ b, r = .ok b → Q b

namespace Gives

variable {β γ : Type} {Q : γ → Prop} {x : Except Fault β}

theorem ok {c : γ} (h : Q c) : Gives Q (.ok c) := by
  rintro d ⟨⟩
  exact h

theorem bind_of {f : β → Except Fault γ} (hf : ∀ b, x = .ok b → Gives Q (f b)) :
    Gives Q (x >>= f) := by
  intro c e
  obtain ⟨b, eb, e⟩ := bind_eq_ok_iff.1 e
  exact hf b eb c e

theorem bind {f : β → Except Fault γ} (hf : ∀ b, Gives Q (f b)) : Gives Q (x >>= f) :=
  bind_of fun b _ => hf b

theorem map_of {f : β → γ} (hf : ∀ b, x = .ok b → Q (f b)) : Gives Q (f <$> x) := by
  intro c e
  cases x with
  | error => cases e
  | ok b =>
    cases e
    exact hf b rfl

theorem map {f : β → γ} (hf : ∀ b, Q (f b)) : Gives Q (f <$> x) := map_of fun b _ => hf b

/-- A command that releases nothing comes to what its work comes to. -/
theorem of_exec {R : Session × List Handle → Prop} {r : Except Fault (Session × Outcome)}
    (hr : Gives (fun u => R (u.1, [])) r) : Gives R (r >>= fun u => .ok (u.1, [])) :=
  bind_of fun u e => .ok (hr u e)

end Gives

/-- Whatever session `r` comes to has the property `P`. -/
def Ends {γ : Type} (P : Session → Prop) (r : Except Fault (Session × γ)) : Prop :=
  ∀ u, r = .ok u → P u.1

namespace Ends

variable {β γ : Type} {P : Session → Prop} {x : Except Fault β}

theorem ok {u : Session × γ} (h : P u.1) : Ends P (.ok u) := by
  rintro v ⟨⟩
  exact h

theorem bind {f : β → Except Fault (Session × γ)} (hf : ∀ b, Ends P (f b)) :
    Ends P (x >>= f) := Gives.bind hf

theorem map {f : β → Session × γ} (hf : ∀ b, P (f b).1) : Ends P (f <$> x) := Gives.map hf

/-- A command that releases nothing comes to what its work comes to. -/
theorem of_exec {r : Except Fault (Session × Outcome)} (hr : Ends P r) :
    Ends P (r >>= fun r => .ok (r.1, ([] : List Handle))) := Gives.of_exec hr

end Ends

end Session

end Custody
