import Custody.Proofs.Ownership.Runs

/-!
# The order of releases

What a release leaves does not depend on the order of the handles: the books and the objects that
are left determine the counters (`Balanced.eq_of_objects`), and which objects are left is a matter
of who held them (`Sound.release_perm`).

`Session.discardAll` gives up what stands in several places of a session, one after the other.
`Session.release_order` says that the order of the places makes no difference to the session that is
left, and that the same objects are dropped, each once; clearing a registry is a case of it.
-/

namespace Custody

open Heap (dropped)

namespace Heap

variable {α : Type} {h h' h₁ h₂ : Heap α} {hs pending pending' rest : List Handle} {p : ObjectId}

/-! ### One heap -/

/-- The books and the objects determine the counters. -/
theorem Balanced.counter_of_objects {c : CounterId} {k : Counter} (hb : h.Balanced hs)
    (hb' : h'.Balanced hs) (ho : ∀ p, h'.objects.get? p = h.objects.get? p)
    (hk : h.counters.get? c = some k) : h'.counters.get? c = some k := by
  rcases hb.allocated hk with ⟨p, x, hx, hc⟩ | ⟨hm, rfl⟩
  · obtain rfl := Option.some.inj (hk.symm.trans (hb.attached hx hc).2)
    rw [← ho] at hx
    exact (hb'.attached hx hc).2
  · obtain ⟨k', hk'⟩ := hb'.bound hm
    rcases hb'.allocated hk' with ⟨p, x, hx, hc⟩ | ⟨-, rfl⟩
    · rw [ho] at hx
      have := (hb.attached hx hc).2
      rw [hk] at this
      simp [remnant, tally] at this
    · exact hk'

theorem Balanced.counters_eq (hb : h.Balanced hs) (hb' : h'.Balanced hs)
    (ho : ∀ p, h'.objects.get? p = h.objects.get? p) (c : CounterId) :
    h'.counters.get? c = h.counters.get? c := by
  cases hk : h.counters.get? c with
  | some k => exact hb.counter_of_objects hb' ho hk
  | none =>
    refine Option.eq_none_iff_forall_ne_some.2 fun k hk' => ?_
    rw [hb'.counter_of_objects hb (fun p => (ho p).symm) hk'] at hk
    cases hk

theorem Balanced.eq_of_objects (hb : h.Balanced hs) (hb' : h'.Balanced hs)
    (ho : h'.objects = h.objects) (hn : h'.counters.next = h.counters.next) : h' = h := by
  have hc : h'.counters = h.counters :=
    Slab.ext hn (hb.counters_eq hb' fun p => by rw [ho])
  cases h
  cases h'
  simp_all

theorem Doomed.perm (hd : h.Doomed pending rest p) (hp : pending.Perm pending') :
    h.Doomed pending' rest p := by
  induction hd with
  | intro there can_go not_kept _ ih =>
    exact .intro there (can_go.imp_right hp.mem_iff.1) not_kept ih

theorem Without.objects_eq {gone₁ gone₂ : List ObjectId} (w₁ : h.Without gone₁ h₁)
    (w₂ : h.Without gone₂ h₂) (hg : ∀ p, p ∈ gone₁ ↔ p ∈ gone₂) : h₁.objects = h₂.objects := by
  refine Slab.ext (w₁.next_objects.trans w₂.next_objects.symm) fun p => ?_
  simp only [w₁.objects, w₂.objects, hg]

/-- Releasing the same handles in another order leaves the same heap and drops the same objects. -/
theorem Sound.release_perm (hs : h.Sound (pending ++ rest)) (hp : pending.Perm pending') :
    ∃ h' log log', h.release pending = .ok (h', log) ∧ h.release pending' = .ok (h', log') ∧
      (dropped log).Perm (dropped log') ∧ (dropped log).Nodup := by
  obtain ⟨h₁, log₁, e₁, hs₁, w₁, hd₁⟩ := hs.release
  obtain ⟨h₂, log₂, e₂, hs₂, w₂, hd₂⟩ := (hs.perm (hp.append_right rest)).release
  have hg : ∀ p, p ∈ dropped log₁ ↔ p ∈ dropped log₂ := fun p => by
    rw [hd₁, hd₂]
    exact ⟨fun hd => hd.perm hp, fun hd => hd.perm hp.symm⟩
  have ho := w₁.objects_eq w₂ hg
  have hb₂ : h₂.Balanced (rest ++ h₁.stored) := stored_eq_of_objects ho ▸ hs₂
  obtain rfl := hb₂.eq_of_objects hs₁ ho (w₁.next_counters.trans w₂.next_counters.symm)
  exact ⟨h₁, log₁, log₂, e₁, e₂, (List.perm_ext_iff_of_nodup w₁.nodup w₂.nodup).2 hg, w₁.nodup⟩

end Heap

/-! ### Rosters without some of their entries -/

namespace Roster

variable {β : Type}

theorem eq_of_entries {r r' : Roster β} (e : r.entries = r'.entries) : r = r' := by
  cases r
  cases r'
  simp_all

theorem erase_comm (r : Roster β) (k k' : String) : (r.erase k).erase k' = (r.erase k').erase k :=
  eq_of_entries (by simp [erase, List.filter_filter, Bool.and_comm])

/-- A roster without all of its entries is empty. -/
theorem foldl_erase_keys (r : Roster β) {ks : List String} (hk : ∀ k ∈ r.keys, k ∈ ks) :
    ks.foldl erase r = empty := by
  have h : ∀ (ks : List String) (r : Roster β),
      (ks.foldl erase r).entries = r.entries.filter fun e => e.1 ∉ ks := by
    intro ks
    induction ks with
    | nil => simp
    | cons k ks ih => simp [ih, erase, List.filter_filter, Bool.and_comm]
  refine eq_of_entries ((h ks r).trans (List.filter_eq_nil_iff.2 fun e he => ?_))
  simpa using hk e.1 (List.mem_map_of_mem he)

end Roster

/-! ### Places of a session -/

/-- A place outside the heap where a session keeps something. -/
inductive Place where
  | strong (name : String)
  | weak (name : String)
  | shared (key : String)
  | owned (key : String)
  deriving DecidableEq, Repr

namespace Session

variable {s : Session} {p : Place} {ps qs : List Place}

/-- Gives up what stands in a place. -/
def discard (s : Session) : Place → Except Fault (Session × DropLog)
  | .strong name => do
    let (s, out) ← s.exec (.drop name)
    .ok (s, out.drops)
  | .weak name => do
    let (s, out) ← s.exec (.dropWeak name)
    .ok (s, out.drops)
  | .shared key => do
    let (shared, heap, log) ← s.shared.discard s.heap key
    .ok ({ s with heap, shared }, log)
  | .owned key => do
    let (owned, heap, log) ← s.owned.discard s.heap key
    .ok ({ s with heap, owned }, log)

/-- Gives up what stands in the places, one after the other. -/
def discardAll (s : Session) : List Place → Except Fault (Session × DropLog)
  | [] => .ok (s, [])
  | p :: ps => do
    let (s, log) ← s.discard p
    let (s, log') ← s.discardAll ps
    .ok (s, log ++ log')

/-- The session without what stands in a place, which is not released. -/
def forget (s : Session) : Place → Session
  | .strong name => { s with strong := s.strong.erase name }
  | .weak name => { s with weak := s.weak.erase name }
  | .shared key => { s with shared := s.shared.erase key }
  | .owned key => { s with owned := s.owned.erase key }

def handlesAt (s : Session) : Place → List Handle
  | .strong name => s.strong.handlesAt name
  | .weak name => s.weak.handlesAt name
  | .shared key => s.shared.handlesAt key
  | .owned key => s.owned.handlesAt key

theorem discard_eq (s : Session) (p : Place) :
    s.discard p = (do
      let (h, log) ← s.heap.release (s.handlesAt p)
      .ok ((s.forget p).withHeap h, log)) := by
  cases p <;>
    simp only [discard, exec, Roster.discard, handlesAt, Roster.handlesAt, bind, Except.bind] <;>
    generalize s.heap.release _ = r <;> cases r <;> rfl

theorem perm_held_forget (s : Session) (p : Place) :
    s.held.Perm (s.handlesAt p ++ (s.forget p).held) := by
  cases p with
  | strong name =>
    have hp := (s.strong.perm_handles_erase name).symm.append_right
      (s.weak.handles ++ (s.shared.handles ++ s.owned.handles))
    rwa [List.append_assoc] at hp
  | weak name =>
    have hp := (s.weak.perm_handles_erase name).symm.append_right
      (s.strong.handles ++ (s.shared.handles ++ s.owned.handles))
    rw [List.append_assoc] at hp
    exact (s.perm_held_weak.trans hp).trans
      ((s.forget (.weak name)).perm_held_weak.symm.append_left _)
  | shared key =>
    have hp := (s.shared.perm_handles_erase key).symm.append_right
      (s.strong.handles ++ (s.weak.handles ++ s.owned.handles))
    rw [List.append_assoc] at hp
    exact (s.perm_held_shared.trans hp).trans
      ((s.forget (.shared key)).perm_held_shared.symm.append_left _)
  | owned key =>
    have hp := (s.owned.perm_handles_erase key).symm.append_right
      (s.strong.handles ++ (s.weak.handles ++ s.shared.handles))
    rw [List.append_assoc] at hp
    exact (s.perm_held_owned.trans hp).trans
      ((s.forget (.owned key)).perm_held_owned.symm.append_left _)

theorem forget_comm (s : Session) (p q : Place) :
    (s.forget p).forget q = (s.forget q).forget p := by
  cases p <;> cases q <;> simp only [forget, Roster.erase_comm]

instance : RightCommutative forget := ⟨forget_comm⟩

theorem foldl_forget_withHeap (s : Session) (h : Heap Label) (ps : List Place) :
    ps.foldl forget (s.withHeap h) = (ps.foldl forget s).withHeap h := by
  induction ps generalizing s with
  | nil => rfl
  | cons p ps ih =>
    rw [List.foldl_cons, List.foldl_cons, ← ih]
    cases p <;> rfl

/-- Giving up several places is one release of what stands there. -/
theorem discardAll_eq (hs : s.Sound) (ps : List Place) :
    ∃ pending h log, s.held.Perm (pending ++ (ps.foldl forget s).held) ∧
      s.heap.release pending = .ok (h, log) ∧
      s.discardAll ps = .ok ((ps.foldl forget s).withHeap h, log) := by
  induction ps generalizing s with
  | nil => exact ⟨[], s.heap, [], .refl _, Heap.release_nil _, rfl⟩
  | cons p ps ih =>
    obtain ⟨h₁, log₁, e₁, hs₁, -⟩ := (hs.perm (s.perm_held_forget p)).release_passes
    obtain ⟨pending, h, log, hp, e, e'⟩ := ih (s := (s.forget p).withHeap h₁) hs₁
    rw [foldl_forget_withHeap] at hp e'
    refine ⟨s.handlesAt p ++ pending, h, log₁ ++ log, ?_, Heap.release_append e₁ e, ?_⟩
    · rw [List.append_assoc]
      exact (s.perm_held_forget p).trans (hp.append_left _)
    · simp only [discardAll, discard_eq, e₁, e', bind, Except.bind]
      rfl

/-- Giving up several places leaves what one release, in any order, of what stands there leaves. -/
theorem discardAll_release (hs : s.Sound) {pending : List Handle}
    (hp : s.held.Perm (pending ++ (ps.foldl forget s).held)) :
    ∃ h log log', s.discardAll ps = .ok ((ps.foldl forget s).withHeap h, log) ∧
      s.heap.release pending = .ok (h, log') ∧
      (dropped log).Perm (dropped log') ∧ (dropped log).Nodup := by
  obtain ⟨pending', h, log, hp', e, e'⟩ := discardAll_eq hs ps
  have hpend : pending'.Perm pending := (List.perm_append_right_iff _).1 (hp'.symm.trans hp)
  obtain ⟨h', l, log', e₁, e₂, hlog, hnd⟩ := Heap.Sound.release_perm (hs.perm hp') hpend
  cases e.symm.trans e₁
  exact ⟨h, log, log', e', e₂, hlog, hnd⟩

/-- Giving up the same places in another order. -/
theorem discardAll_perm (hs : s.Sound) (hp : ps.Perm qs) :
    ∃ s' log log', s.discardAll ps = .ok (s', log) ∧ s.discardAll qs = .ok (s', log') ∧
      (dropped log).Perm (dropped log') ∧ (dropped log).Nodup := by
  obtain ⟨pending, h, log', hpend, e, e'⟩ := discardAll_eq hs qs
  rw [← hp.foldl_eq s] at hpend e'
  obtain ⟨h₁, log, l, e₁, e₂, hlog, hnd⟩ := discardAll_release hs hpend
  cases e.symm.trans e₂
  exact ⟨_, log, log', e₁, e', hlog, hnd⟩

/-! ### Clearing a registry -/

theorem foldl_forget_shared (s : Session) (keys : List String) :
    (keys.map Place.shared).foldl forget s =
      { s with shared := keys.foldl Roster.erase s.shared } := by
  induction keys generalizing s with
  | nil => rfl
  | cons k keys ih => exact ih _

theorem foldl_forget_owned (s : Session) (keys : List String) :
    (keys.map Place.owned).foldl forget s =
      { s with owned := keys.foldl Roster.erase s.owned } := by
  induction keys generalizing s with
  | nil => rfl
  | cons k keys ih => exact ih _

/-- Clearing the registry that shares its entries is giving up the entries in any order. -/
theorem discardAll_clearShared (hs : s.Sound) (reply : Reply) {keys : List String}
    (hk : keys.Perm s.shared.keys) :
    ∃ s' log log', s.discardAll (keys.map .shared) = .ok (s', log) ∧
      s.clearShared reply = .ok (s', ⟨reply, log'⟩) ∧
      (dropped log).Perm (dropped log') ∧ (dropped log).Nodup := by
  have hf : (keys.map Place.shared).foldl forget s = { s with shared := .empty } := by
    rw [foldl_forget_shared, s.shared.foldl_erase_keys fun k hm => hk.mem_iff.2 hm]
  have hp : s.held.Perm (s.shared.handles ++ ((keys.map Place.shared).foldl forget s).held) := by
    rw [hf]
    exact s.perm_held_shared
  obtain ⟨h, log, log', e, e', hlog, hnd⟩ := discardAll_release hs hp
  rw [hf] at e
  refine ⟨_, log, sortDrops log', e, ?_, hlog.trans (dropped_sortDrops log'), hnd⟩
  simp only [clearShared, Roster.releaseAll, e', bind, Except.bind]
  rfl

/-- Clearing the registry that owns its entries is giving up the entries in any order. -/
theorem discardAll_clearOwned (hs : s.Sound) (reply : Reply) {keys : List String}
    (hk : keys.Perm s.owned.keys) :
    ∃ s' log log', s.discardAll (keys.map .owned) = .ok (s', log) ∧
      s.clearOwned reply = .ok (s', ⟨reply, log'⟩) ∧
      (dropped log).Perm (dropped log') ∧ (dropped log).Nodup := by
  have hf : (keys.map Place.owned).foldl forget s = { s with owned := .empty } := by
    rw [foldl_forget_owned, s.owned.foldl_erase_keys fun k hm => hk.mem_iff.2 hm]
  have hp : s.held.Perm (s.owned.handles ++ ((keys.map Place.owned).foldl forget s).held) := by
    rw [hf]
    exact s.perm_held_clearOwned
  obtain ⟨h, log, log', e, e', hlog, hnd⟩ := discardAll_release hs hp
  rw [hf] at e
  refine ⟨_, log, sortDrops log', e, ?_, hlog.trans (dropped_sortDrops log'), hnd⟩
  simp only [clearOwned, Roster.releaseAll, e', bind, Except.bind]
  rfl

/-! ### Any order -/

/-- In every state that a run of commands reaches that respect the slots, what stands in some places
can be given up in any order: the sessions that are left are the same, with the same objects,
counters and counts, and the same objects were dropped, each of them once. Shutting a registry down
leaves the same as giving up its entries one by one, in any order. -/
theorem release_order (cs : List Command) (hcs : ∀ c ∈ cs, c.lawful = true) :
    (∀ ps qs : List Place, ps.Perm qs → ∃ s' log log',
      (run {} cs).discardAll ps = .ok (s', log) ∧ (run {} cs).discardAll qs = .ok (s', log') ∧
      (dropped log).Perm (dropped log') ∧ (dropped log).Nodup) ∧
    (∀ keys : List String, keys.Perm (run {} cs).shared.keys → ∃ s' log log',
      (run {} cs).discardAll (keys.map .shared) = .ok (s', log) ∧
      (run {} cs).exec .sharedShutdown = .ok (s', ⟨.count (run {} cs).shared.size, log'⟩) ∧
      (dropped log).Perm (dropped log') ∧ (dropped log).Nodup) ∧
    ∀ keys : List String, keys.Perm (run {} cs).owned.keys → ∃ s' log log',
      (run {} cs).discardAll (keys.map .owned) = .ok (s', log) ∧
      (run {} cs).exec .ownedShutdown = .ok (s', ⟨.count (run {} cs).owned.size, log'⟩) ∧
      (dropped log).Perm (dropped log') ∧ (dropped log).Nodup := by
  have hs := (run_leads sound_empty hcs).1
  exact ⟨fun ps qs hp => discardAll_perm hs hp,
    fun keys hk => discardAll_clearShared hs _ hk, fun keys hk => discardAll_clearOwned hs _ hk⟩

/-- A run that leaves a named handle, a weak handle and a registry entry on an object which stores
the only handle on another. -/
def heldRun : List Command := pairRun ++ [.downgrade "w" "a", .sharedSet "k" "a"]

theorem release_order_held :
    ∃ s' log log',
      (run {} heldRun).discardAll [.shared "k", .weak "w", .strong "a"] = .ok (s', log) ∧
      (run {} heldRun).discardAll [.strong "a", .weak "w", .shared "k"] = .ok (s', log') ∧
      (dropped log).Perm (dropped log') ∧ (dropped log).Nodup ∧ s'.heap.live = 0 := by
  obtain ⟨s', log, log', e, e', hlog, hnd⟩ := (release_order heldRun (by decide)).1 _ _
    (List.reverse_perm [Place.strong "a", .weak "w", .shared "k"])
  refine ⟨s', log, log', e, e', hlog, hnd, ?_⟩
  have hlive : ((run {} heldRun).discardAll [.strong "a", .weak "w", .shared "k"]).toOption.map
      (·.1.heap.live) = some 0 := by decide +kernel
  rw [e'] at hlive
  exact Option.some.inj hlive

end Session

end Custody
