import Custody.Proofs.Ownership.Extent
import Custody.Proofs.Ownership.Lookups
import Custody.Proofs.Ownership.Growth

/-!
# What a registry takes and gives

A command that deals with a registry lets some handles come (`Session.came`): an entry, a handle
that is given out, or both; and it lets some go (`Session.went`): the entry that it overwrites, all
entries of a registry that is cleared, or what stood under the name of the handle that is given out.
`Session.Exchanges` is the whole account.  The handles that were there and those that came are those
that are there, those that went and those stored in the objects that were dropped with them; and an
object is dropped exactly if, besides the handles that went, nothing holds it but what is dropped.
`step_exchanges` says that every such command does just that.
-/

namespace Custody

open Heap (dropped)

/-- Whether a command deals with one of the registries. -/
def Command.onRegistry : Command → Bool
  | .sharedSet .. | .sharedGet .. | .sharedMake .. | .sharedInfo .. | .sharedShutdown | .sharedDrop
  | .ownedSet .. | .ownedGet .. | .ownedMake .. | .ownedInfo .. | .ownedShutdown | .ownedDrop =>
    true
  | _ => false

theorem Command.lawful_of_onRegistry {c : Command} (h : c.onRegistry = true) :
    c.lawful = true := by
  cases c with
  | aliasShare | aliasObserve | aliasManage | tear => cases h
  | _ => rfl

namespace Session

/-! ### Handles that come and go -/

/-- The handles that a command on a registry makes and leaves in place. -/
def came (s : Session) : Command → List Handle
  | .sharedSet _ src => s.strong.handlesAt src
  | .sharedGet _ key => s.shared.handlesAt key
  | .sharedMake _ key _ =>
    if s.shared.contains key then s.shared.handlesAt key
    else [.holding s.heap.objects.next, .holding s.heap.objects.next]
  | .ownedSet .. => [.owner s.heap.objects.next]
  | .ownedMake key _ => if s.owned.contains key then [] else [.owner s.heap.objects.next]
  | _ => []

/-- The handles that a command on a registry takes from their places and releases. -/
def went (s : Session) : Command → List Handle
  | .sharedSet key src => if s.strong.contains src then s.shared.handlesAt key else []
  | .sharedGet dst key => if s.shared.contains key then s.strong.handlesAt dst else []
  | .sharedMake dst _ _ => s.strong.handlesAt dst
  | .sharedShutdown | .sharedDrop => s.shared.handles
  | .ownedSet key _ => s.owned.handlesAt key
  | .ownedShutdown | .ownedDrop => s.owned.handles
  | _ => []

/-- The session `s` became `t` by the command `c`, and the objects `gone` were dropped. -/
structure Exchanges (s : Session) (c : Command) (t : Session) (gone : List ObjectId) : Prop where
  /-- No handle is made or lost but those that came, those that went and those in what went. -/
  handles : (s.went c ++ (gone.flatMap s.heap.handlesOf ++ t.handles)).Perm (s.came c ++ s.handles)
  once : gone.Nodup
  /-- The dropped objects are the least set that has an object as a member if and only if it can go
  and every handle on it went or is stored in a member. -/
  least : IsLeast {D : Set ObjectId | ∀ p, p ∈ D ↔ s.heap.Leavable (s.went c) p ∧
    .holding p ∉ t.held ∧
    ∀ q y, s.heap.objects.get? q = some y → ⟨some p⟩ ∈ y.kids → q ∈ D} {p | p ∈ gone}
  /-- The other objects stay as they are. -/
  objects : ∀ p < s.heap.objects.next,
    t.heap.objects.get? p = if p ∈ gone then none else s.heap.objects.get? p
  /-- The strong count of a managed object that stays changes by the handles on it that came and
  those that went. -/
  kept : ∀ p x i, p ∉ gone → s.heap.objects.get? p = some x → x.slot = some i → ∃ n n',
    s.heap.strongCount ⟨some p⟩ = .ok n ∧ t.heap.strongCount ⟨some p⟩ = .ok n' ∧
    (s.went c).count (.holding p) + ((gone.flatMap s.heap.handlesOf).count (.holding p) + n') =
      (s.came c).count (.holding p) + n
  /-- That of a new one is the number of handles on it that came. -/
  made : ∀ p x i, s.heap.objects.next ≤ p → t.heap.objects.get? p = some x → x.slot = some i →
    t.heap.strongCount ⟨some p⟩ = .ok ((s.came c).count (.holding p))
  /-- An object whose owner went is dropped. -/
  owners : ∀ p, .owner p ∈ s.went c → p ∈ gone
  /-- Nothing is dropped if the objects of all handles that went are held elsewhere. -/
  spares : (∀ p, .holding p ∈ s.went c → .holding p ∈ t.held) → (∀ p, .owner p ∉ s.went c) →
    gone = []

/-- The session `t` is `s` after the command `c`, but for the handles `pending`, which are still to
be released. -/
structure Arranges (s : Session) (c : Command) (t : Session) (pending : List Handle) : Prop where
  held : (s.went c ++ t.held).Perm (s.came c ++ s.held)
  stored : t.heap.stored = s.heap.stored
  owners : ∀ p, .owner p ∈ pending ↔ .owner p ∈ s.went c
  objects : ∀ p < s.heap.objects.next, t.heap.objects.get? p = s.heap.objects.get? p
  /-- A new object stores nothing and is kept. -/
  fresh : ∀ p x, s.heap.objects.next ≤ p → t.heap.objects.get? p = some x →
    x.handles = [] ∧ (.holding p ∈ t.held ∨ .owner p ∈ t.held)

variable {s t : Session} {c : Command} {pending : List Handle} {p : ObjectId} {k dst : String}

theorem mem_held_of_mem_went {u : Handle} (hu : u ∈ s.went c) : u ∈ s.held := by
  have shared {v : Handle} (hv : v ∈ s.shared.handles) : v ∈ s.held :=
    s.perm_held_shared.mem_iff.2 (List.mem_append_left _ hv)
  have owned {v : Handle} (hv : v ∈ s.owned.handles) : v ∈ s.held :=
    s.perm_held_owned.mem_iff.2 (List.mem_append_left _ hv)
  cases c with
  | sharedSet key src =>
    rw [went] at hu
    split at hu
    · exact shared (Roster.mem_handles_of_mem_handlesAt hu)
    · cases hu
  | sharedGet dst key =>
    rw [went] at hu
    split at hu
    · exact List.mem_append_left _ (Roster.mem_handles_of_mem_handlesAt hu)
    · cases hu
  | sharedMake dst key label =>
    exact List.mem_append_left _ (Roster.mem_handles_of_mem_handlesAt hu)
  | sharedShutdown | sharedDrop => exact shared hu
  | ownedSet key label => exact owned (Roster.mem_handles_of_mem_handlesAt hu)
  | ownedShutdown | ownedDrop => exact owned hu
  | _ => cases hu

theorem lt_next_of_holding (hs : s.Sound) (hm : .holding p ∈ s.handles) :
    p < s.heap.objects.next := by
  obtain ⟨x, hx⟩ := Heap.Balanced.named hs hm
  exact Slab.lt_next_of_get? hx

/-- No handle that was there is on a new object. -/
theorem count_of_next_le (hs : s.Sound) (hp : s.heap.objects.next ≤ p) {ts : List Handle}
    (hts : ts ⊆ s.handles) : ts.count (.holding p) = 0 :=
  List.count_eq_zero.2 fun hm =>
    absurd (lt_next_of_holding hs (hts hm)) (Nat.not_lt.2 hp)

theorem went_subset (c : Command) : s.went c ⊆ s.handles := fun _ hu =>
  List.mem_append_left _ (mem_held_of_mem_went hu)

theorem lost_subset (s : Session) (gone : List ObjectId) :
    gone.flatMap s.heap.handlesOf ⊆ s.handles := fun _ hu => by
  obtain ⟨q, -, hq⟩ := List.mem_flatMap.1 hu
  exact List.mem_append_right _ (s.heap.handlesOf_subset_stored q hq)

/-- The strong count of a managed object is the number of handles on it. -/
theorem Sound.strongCount_eq (hs : s.Sound) {x : Object Label} {i : CounterId}
    (hx : s.heap.objects.get? p = some x) (hslot : x.slot = some i) :
    s.heap.strongCount ⟨some p⟩ = .ok (s.handles.count (.holding p)) := by
  rw [handles, List.count_append]
  exact Heap.Sound.strongCount_eq hs hx hslot

/-! ### Releasing what went -/

namespace Arranges

theorem there_iff (ha : s.Arranges c t pending) {x : Object Label}
    (hp : p < s.heap.objects.next ∨ x.handles ≠ []) :
    t.heap.objects.get? p = some x ↔ s.heap.objects.get? p = some x := by
  by_cases hlt : p < s.heap.objects.next
  · rw [ha.objects p hlt]
  · constructor
    · intro hx
      exact absurd (ha.fresh p x (Nat.le_of_not_lt hlt) hx).1 (hp.resolve_left hlt)
    · exact fun hx => absurd (Slab.lt_next_of_get? hx) hlt

theorem not_doomed_of_fresh (ha : s.Arranges c t pending)
    (hs : t.heap.Sound (pending ++ t.held)) (hp : s.heap.objects.next ≤ p) :
    ¬ t.heap.Doomed pending t.held p := by
  rintro ⟨hx, hc, hr, -⟩
  rcases (ha.fresh p _ hp hx).2 with hm | hm
  · exact hr hm
  · -- an owner that is kept is the only one, and its object is not managed
    obtain ⟨hone, -, y, hy, hslot⟩ :=
      Heap.Balanced.owned hs (List.mem_append_left _ (List.mem_append_right _ hm))
    obtain rfl := Option.some.inj (hx.symm.trans hy)
    have howner := hc.resolve_left (not_not.2 hslot)
    have h₁ := List.count_pos_iff.2 howner
    have h₂ := List.count_pos_iff.2 hm
    rw [List.count_append, List.count_append] at hone
    omega

/-- What is doomed can be told from the session before the command. -/
theorem doomed_iff (ha : s.Arranges c t pending) (hs : t.heap.Sound (pending ++ t.held)) :
    t.heap.Doomed pending t.held p ↔ s.heap.Doomed (s.went c) t.held p := by
  constructor
  · intro hd
    have hnew (q : ObjectId) (hq : t.heap.Doomed pending t.held q) :
        q < s.heap.objects.next :=
      Nat.lt_of_not_le fun hle => ha.not_doomed_of_fresh hs hle hq
    induction hd with
    | @intro p x there can_go not_kept holders ih =>
      have hlt := hnew p (.intro there can_go not_kept holders)
      refine .intro ((ha.there_iff (.inl hlt)).1 there) (can_go.imp_right (ha.owners p).1)
        not_kept fun {q y} hy hk => ?_
      exact ih ((ha.there_iff (.inl (Slab.lt_next_of_get? hy))).2 hy) hk
  · intro hd
    induction hd with
    | @intro p x there can_go not_kept holders ih =>
      refine .intro ((ha.there_iff (.inl (Slab.lt_next_of_get? there))).2 there)
        (can_go.imp_right (ha.owners p).2) not_kept fun {q y} hy hk => ?_
      refine ih ((ha.there_iff (.inr ?_)).1 hy) hk
      exact List.ne_nil_of_mem (List.mem_append_left _ (List.mem_map_of_mem hk))

/-- What is there, what went and what was stored in the dropped objects is what was there and what
came. -/
theorem perm_handles (ha : s.Arranges c t pending) {h : Heap Label} {gone : List ObjectId}
    (hw : t.heap.Without gone h) (hlt : ∀ p ∈ gone, p < s.heap.objects.next) :
    (s.went c ++ (gone.flatMap s.heap.handlesOf ++ (t.withHeap h).handles)).Perm
      (s.came c ++ s.handles) := by
  have hstored : s.heap.stored.Perm (gone.flatMap s.heap.handlesOf ++ h.stored) := by
    rw [← ha.stored, ← Heap.flatMap_handlesOf_congr fun p hp => ha.objects p (hlt p hp)]
    exact hw.perm_stored
  have hall := ha.held.append hstored.symm
  rw [List.append_assoc, List.append_assoc] at hall
  exact ((List.perm_append_comm_assoc _ _ _).append_left _).trans hall

theorem exchanges (ha : s.Arranges c t pending) (hs : s.Sound)
    (hs' : t.heap.Sound (pending ++ t.held)) {h : Heap Label} {log : DropLog}
    {gone : List ObjectId} (e : t.heap.release pending = .ok (h, log))
    (hlog : (dropped log).Perm gone) : s.Exchanges c (t.withHeap h) gone := by
  obtain ⟨h₁, log₁, e₁, hsound, hw, hgone⟩ := hs'.release
  cases e.symm.trans e₁
  replace hw := hw.perm hlog
  have hsound : (t.withHeap h).Sound := hsound
  have hdoomed (p : ObjectId) : p ∈ gone ↔ s.heap.Doomed (s.went c) t.held p := by
    rw [← hlog.mem_iff, hgone, ha.doomed_iff hs']
  have hlt (p : ObjectId) (hp : p ∈ gone) : p < s.heap.objects.next := by
    obtain ⟨hx, -⟩ := (hdoomed p).1 hp
    exact Slab.lt_next_of_get? hx
  have hobjects (p : ObjectId) (hp : p < s.heap.objects.next) :
      h.objects.get? p = if p ∈ gone then none else s.heap.objects.get? p := by
    rw [hw.objects, ha.objects p hp]
  have hhandles := ha.perm_handles hw hlt
  have hcount (p : ObjectId) : (s.went c).count (.holding p) +
      ((gone.flatMap s.heap.handlesOf).count (.holding p) +
        (t.withHeap h).handles.count (.holding p)) =
      (s.came c).count (.holding p) + s.handles.count (.holding p) := by
    rw [← List.count_append, ← List.count_append, ← List.count_append, hhandles.count_eq]
  refine ⟨hhandles, hw.nodup, ?_, hobjects, ?_, ?_, ?_, ?_⟩
  · have hleast := s.heap.isLeast_doomed (s.went c) t.held
    simp only [← hdoomed] at hleast
    exact hleast
  · intro p x i hp hx hslot
    have hx' : (t.withHeap h).heap.objects.get? p = some x := by
      rw [← hx]
      exact (hobjects p (Slab.lt_next_of_get? hx)).trans (if_neg hp)
    exact ⟨_, _, hs.strongCount_eq hx hslot, hsound.strongCount_eq hx' hslot, hcount p⟩
  · intro p x i hp hx hslot
    have hsum := hcount p
    rw [count_of_next_le hs hp (went_subset c), count_of_next_le hs hp (lost_subset s gone),
      count_of_next_le hs hp (List.Subset.refl _), Nat.zero_add, Nat.zero_add, Nat.add_zero] at hsum
    rw [hsound.strongCount_eq hx hslot, hsum]
  · intro p hm
    obtain ⟨_, _, e₂, -, -, -, howner⟩ := hs'.release_spec
    cases e.symm.trans e₂
    exact hlog.mem_iff.1 (howner p ((ha.owners p).2 hm))
  · intro hheld howner
    refine List.eq_nil_iff_forall_not_mem.2 fun p hp => ?_
    refine Heap.not_doomed (fun {o _ _} hx hslot => ?_) howner ((hdoomed p).1 hp)
    refine (List.mem_append.1 (Heap.Balanced.attached hs hx hslot).1).elim (fun ho => ?_)
      (List.mem_append_right _)
    have hm := ha.held.mem_iff.2 (List.mem_append_right _ ho)
    exact List.mem_append_left _ ((List.mem_append.1 hm).elim (hheld o) id)

/-- A command by which nothing comes or goes. -/
theorem same (hcame : s.came c = []) (hwent : s.went c = []) : s.Arranges c s [] where
  held := by rw [hcame, hwent]
  stored := rfl
  owners p := by rw [hwent]
  objects _ _ := rfl
  fresh p x hp hx := absurd (Slab.lt_next_of_get? hx) (Nat.not_lt.2 hp)

/-- A command that makes no object. -/
theorem of_objects (held : (s.went c ++ t.held).Perm (s.came c ++ s.held))
    (ho : t.heap.objects = s.heap.objects)
    (owners : ∀ p, .owner p ∈ pending ↔ .owner p ∈ s.went c) : s.Arranges c t pending where
  held := held
  stored := Heap.stored_eq_of_objects ho
  owners := owners
  objects _ _ := by rw [ho]
  fresh p x hp hx := by
    rw [ho] at hx
    exact absurd (Slab.lt_next_of_get? hx) (Nat.not_lt.2 hp)

/-- A command that makes one object, which stores nothing and is kept. -/
theorem of_insert {x : Object Label} (held : (s.went c ++ t.held).Perm (s.came c ++ s.held))
    (ho : t.heap.objects = s.heap.objects.insert x) (hx : x.handles = [])
    (kept : .holding s.heap.objects.next ∈ t.held ∨ .owner s.heap.objects.next ∈ t.held)
    (owners : ∀ p, .owner p ∈ pending ↔ .owner p ∈ s.went c) : s.Arranges c t pending where
  held := held
  stored := by rw [Heap.stored, ho, Slab.toList_insert, List.flatMap_append, Heap.stored]; simp [hx]
  owners := owners
  objects p hp := by rw [ho, Slab.get?_insert, if_neg (Nat.ne_of_lt hp)]
  fresh p y hp hy := by
    rw [ho, Slab.get?_insert] at hy
    split at hy
    · next e =>
      obtain rfl := Option.some.inj hy
      exact ⟨hx, e ▸ kept⟩
    · exact absurd (Slab.lt_next_of_get? hy) (Nat.not_lt.2 hp)

end Arranges

/-! ### The commands -/

theorem arranges_replace {h : Heap Label} {x : Strong} (hcame : s.came c = [.strong x])
    (hwent : s.went c = s.strong.handlesAt dst) (ho : h.objects = s.heap.objects) :
    s.Arranges c (s.replace dst (h, x)).1 (s.replace dst (h, x)).2 := by
  refine .of_objects ?_ ho fun p => by rw [hwent]; rfl
  rw [hcame, hwent]
  exact s.perm_held_insert_strong dst x

theorem arranges_sharedSet {key src : String} (hs : s.Sound)
    (ep : s.plan (.sharedSet key src) = .ok (t, pending)) :
    s.Arranges (.sharedSet key src) t pending := by
  rcases s.strongAt_cases src with ⟨x, -, hk⟩ | e
  · obtain ⟨h₁, h₂, -, ht, -, ht₂, ep'⟩ := sharedSet_clones hs hk key
    cases ep.symm.trans ep'
    have hwent : s.went (.sharedSet key src) = s.shared.handlesAt key := by
      simp [went, Roster.contains, hk]
    have hcame : s.came (.sharedSet key src) = [.strong x] := Roster.handlesAt_of_get? hk
    refine .of_objects ?_ (ht₂.objects.trans ht.objects) fun p => ?_
    · rw [hwent, hcame]
      exact s.perm_held_insert_shared key x
    · rw [hwent]
      simp
  · simp [plan, e, bind, Except.bind] at ep

theorem arranges_sharedGet (hs : s.Sound) {key : String}
    (ep : s.plan (.sharedGet dst key) = .ok (t, pending)) :
    s.Arranges (.sharedGet dst key) t pending := by
  cases hk : s.shared.get? key with
  | none =>
    simp only [plan, Roster.lend_of_get?_eq_none hk, bind, Except.bind] at ep
    cases ep
    exact .same (Roster.handlesAt_of_get?_eq_none hk) (by simp [went, Roster.contains, hk])
  | some x =>
    obtain ⟨h, e, ht⟩ := Roster.lend_of_get? hk (hs.perm s.perm_held_shared)
    simp only [plan, e, bind, Except.bind] at ep
    cases ep
    have hwent : s.went (.sharedGet dst key) = s.strong.handlesAt dst := by
      simp [went, Roster.contains, hk]
    exact arranges_replace (Roster.handlesAt_of_get? hk) hwent ht.objects

theorem arranges_sharedMake (hs : s.Sound) {key : String} {label : Label}
    (ep : s.plan (.sharedMake dst key label) = .ok (t, pending)) :
    s.Arranges (.sharedMake dst key label) t pending := by
  have hs₀ := hs.perm s.perm_held_shared
  cases hk : s.shared.get? key with
  | some x =>
    obtain ⟨h, e, ht⟩ := Roster.lendOrMake_of_get? (x := { value := label }) hk hs₀
    simp only [plan, e, bind, Except.bind] at ep
    cases ep
    refine arranges_replace ?_ rfl ht.objects
    simp [came, Roster.contains, hk, Roster.handlesAt_of_get? hk, Holder.handles]
  | none =>
    obtain ⟨h, e, -, -, ho⟩ :=
      Roster.lendOrMake_of_get?_eq_none (x := { value := label }) hk rfl rfl hs₀
    simp only [plan, e, bind, Except.bind] at ep
    cases ep
    let u : Session := { s with shared := s.shared.insert key ⟨some s.heap.objects.next⟩ }
    have hcame : s.came (.sharedMake dst key label) =
        [.holding s.heap.objects.next, .holding s.heap.objects.next] := by
      simp [came, Roster.contains, hk]
    have hentry : u.held.Perm (.holding s.heap.objects.next :: s.held) := by
      have hp := s.perm_held_insert_shared key ⟨some s.heap.objects.next⟩
      rwa [Roster.handlesAt_of_get?_eq_none hk, List.nil_append] at hp
    refine .of_insert ?_ ho rfl (.inl holding_mem_replace) fun p => .rfl
    rw [hcame]
    exact (u.perm_held_insert_strong dst _).trans (hentry.cons _)

theorem arranges_replaceOwned {key : String} {label : Label}
    (hcame : s.came c = [.owner s.heap.objects.next]) (hwent : s.went c = s.owned.handlesAt key) :
    s.Arranges c (s.replaceOwned key label).1 (s.replaceOwned key label).2 := by
  refine .of_insert (x := { value := label }) ?_ rfl rfl (.inr ?_) fun p => ?_
  · rw [hcame, hwent]
    exact s.perm_held_insert_owned key ⟨s.heap.objects.next⟩
  · exact owner_mem_held ((s.owned.get?_insert key _ key).trans (if_pos rfl))
  · rw [hwent]
    rfl

/-- What every command on a registry comes to before it releases anything. -/
theorem arranges_of_plan (hs : s.Sound) (hc : c.onRegistry = true)
    (ep : s.plan c = .ok (t, pending)) : s.Arranges c t pending := by
  cases c with
  | sharedSet key src => exact arranges_sharedSet hs ep
  | sharedGet dst key => exact arranges_sharedGet hs ep
  | sharedMake dst key label => exact arranges_sharedMake hs ep
  | sharedShutdown | sharedDrop =>
    cases ep
    exact .of_objects s.perm_held_shared.symm rfl fun _ => .rfl
  | ownedSet key label =>
    cases ep
    exact arranges_replaceOwned rfl rfl
  | ownedMake key label =>
    cases hk : s.owned.get? key with
    | none =>
      simp only [plan, hk] at ep
      cases ep
      refine arranges_replaceOwned ?_ (Roster.handlesAt_of_get?_eq_none hk).symm
      simp [came, Roster.contains, hk]
    | some b =>
      simp only [plan, hk] at ep
      cases ep
      exact .same (by simp [came, Roster.contains, hk]) rfl
  | ownedShutdown | ownedDrop =>
    cases ep
    exact .of_objects s.perm_held_clearOwned.symm rfl fun _ => .rfl
  | sharedInfo | ownedInfo =>
    cases ep
    exact .same rfl rfl
  | ownedGet key =>
    have hsame : (t, pending) = (s, []) := by
      simp only [plan, exec, bind_eq_ok_iff] at ep
      obtain ⟨r, er, ep⟩ := ep
      split at er
      · cases er
        exact (Except.ok.inj ep).symm
      · obtain ⟨y, -, er⟩ := bind_eq_ok_iff.1 er
        cases er
        exact (Except.ok.inj ep).symm
    cases hsame
    exact .same rfl rfl
  | _ => cases hc

/-- A command that does not find what it names is one by which nothing comes or goes. -/
theorem arranges_of_not_resolves (hc : c.onRegistry = true) (hn : ¬ s.Resolves c) :
    s.Arranges c s [] := by
  cases c with
  | sharedSet key src =>
    cases hk : s.strong.get? src with
    | none =>
      have hwent : s.went (.sharedSet key src) = [] := by simp [went, Roster.contains, hk]
      exact .same (Roster.handlesAt_of_get?_eq_none hk) hwent
    | some x => exact absurd ⟨x, by simp [strongAt, hk]⟩ hn
  | sharedGet | sharedMake | sharedInfo | sharedShutdown | sharedDrop | ownedSet | ownedGet
  | ownedMake | ownedInfo | ownedShutdown | ownedDrop => exact absurd trivial hn
  | _ => cases hc

/-- Every command on a registry exchanges handles for handles. -/
theorem step_exchanges (hs : s.Sound) (hc : c.onRegistry = true) :
    s.Exchanges c (s.step c).1 (dropped (s.step c).2.drops) := by
  rcases exec_follows hs (Command.lawful_of_onRegistry hc) with
    ⟨t, pending, ep, hr, hend⟩ | ⟨-, er, hn⟩
  · obtain ⟨h, log, e, hs', -⟩ := hr.sound.release_passes
    obtain ⟨out, er, hlog⟩ := hend h log e hs'
    rw [step, er]
    exact (arranges_of_plan hs hc ep).exchanges hs hr.sound e (hlog.map _)
  · rw [step, er]
    exact (arranges_of_not_resolves hc hn).exchanges hs hs (Heap.release_nil _) (.refl _)

/-! ### An object under several keys -/

/-- The names of the strong handles on an object. -/
def namesOf (s : Session) (p : ObjectId) : List String :=
  s.strong.keys.filter fun name => s.strong.get? name = some ⟨some p⟩

/-- The keys under which an object stands in the registry that shares its entries. -/
def keysOf (s : Session) (p : ObjectId) : List String :=
  s.shared.keys.filter fun key => s.shared.get? key = some ⟨some p⟩

/-- A managed object is counted once for each name and each key, and for each handle on it that an
object stores. -/
theorem Sound.strongCount_places (hs : s.Sound) {x : Object Label} {i : CounterId}
    (hx : s.heap.objects.get? p = some x) (hslot : x.slot = some i) :
    s.heap.strongCount ⟨some p⟩ = .ok ((s.namesOf p).length + (s.keysOf p).length +
      s.heap.stored.count (.holding p)) := by
  rw [hs.strongCount_eq hx hslot]
  simp only [handles, held, List.count_append, Roster.count_handles, Roster.count_handles_weak,
    Roster.count_handles_owned, Roster.count_values, namesOf, keysOf]
  exact congrArg Except.ok (by omega)

/-- Storing under a key what stands there already changes nothing. -/
theorem sharedSet_again (hs : s.Sound) {key src : String} {x : Strong}
    (hkey : s.shared.get? key = some x) (hsrc : s.strong.get? src = some x) :
    (s.step (.sharedSet key src)).1 = s ∧ (s.step (.sharedSet key src)).2.drops = [] := by
  obtain ⟨h₁, h₂, -, ht₁, -, ht₂, ep'⟩ := sharedSet_clones hs hsrc key
  -- the entry that goes and the handle that was lent are given back one after the other
  have hback₂ : h₂.release [.strong x] = .ok (h₁, []) :=
    ht₂.release ht₁.sound List.mem_cons_self
  have hback₁ : h₁.release [.strong x] = .ok (s.heap, []) :=
    ht₁.release hs (strong_mem_held hsrc)
  obtain ⟨t, pending, ep, -, hend⟩ := sharedSet_performs hs hsrc key
  cases ep.symm.trans ep'
  simp only [Roster.handlesAt_of_get? hkey, Roster.insert_of_get? hkey] at hend
  obtain ⟨out, er, hlog⟩ := hend _ _ (Heap.release_append hback₂ hback₁) hs
  rw [step, er]
  exact ⟨rfl, List.perm_nil.1 hlog.symm⟩

end Session

end Custody
