import Custody.Proofs.Ownership.Tenure

/-!
# Objects that no counter manages

Some commands put the object that they make under a counter (`Command.manages`), and it is managed
as long as it is there.  The slot of every other object is empty at all moments of the run
(`MadeBy.slot_at`), so that nothing counts the handles on it, and no release of such a handle drops
it: only a command that evicts it from the registry that owns it does (`MadeBy.evicts_of_dropped`).
-/

namespace Custody

open Heap (dropped)

/-- Whether a command puts the object that it makes, if it makes one, under a counter. -/
def Command.manages : Command → Bool
  | .create .. | .sharedMake .. => true
  | _ => false

namespace Heap

variable {α : Type} {h h' : Heap α} {n o : ObjectId} {x : Object α}

/-! ### Bare objects -/

/-- The objects of `h` numbered `n` and above have empty slots. -/
def Bare (h : Heap α) (n : ObjectId) : Prop :=
  ∀ p x, n ≤ p → h.objects.get? p = some x → x.slot = none

theorem bare_next (h : Heap α) : h.Bare h.objects.next := fun _ _ hp hx =>
  absurd (Slab.lt_next_of_get? hx) (Nat.not_lt.2 hp)

namespace Bare

theorem of_objects (hb : h.Bare n) (ho : h'.objects = h.objects) : h'.Bare n := fun p x hp hx =>
  hb p x hp (ho ▸ hx)

theorem setObject {f : Object α → Object α} (hb : h.Bare n) (hf : ∀ x, (f x).slot = x.slot) :
    (h.setObject o f).Bare n := fun p x hp hx => by
  obtain ⟨y, hy, e⟩ := get?_of_setObject hf hx
  exact e ▸ hb p y hp hy

theorem amend {f : Object α → Object α} (hb : h.Bare n) (e : h.amend o f = .ok h')
    (hf : ∀ x, (f x).slot = x.slot) : h'.Bare n := by
  obtain ⟨y, -, e⟩ := bind_eq_ok_iff.1 e
  cases e
  exact hb.setObject hf

theorem place (hb : h.Bare n) (hx : x.slot = none) : (h.place x).1.Bare n := fun p y hp hy => by
  rw [Heap.place, Slab.get?_insert] at hy
  split at hy
  · cases hy
    exact hx
  · exact hb p y hp hy

theorem without {gone : List ObjectId} (hb : h.Bare n) (hw : h.Without gone h') : h'.Bare n :=
  fun p x hp hx => hb p x hp (hw.get?_of_get? hx).1

end Bare

end Heap

namespace Session

variable {s t : Session} {c d : Command} {cs pre : List Command} {o p : ObjectId}
  {x : Object Label} {m : Moment}

/-! ### What a command makes -/

theorem linkTo_bare (s : Session) (o : ObjectId) (src : String) :
    Gives (fun u => u.1.heap.Bare s.heap.objects.next) (s.linkTo o src) :=
  .bind fun _ => .bind_of fun _ e => .bind_of fun _ e' =>
    .ok (((Heap.bare_next _).of_objects (Heap.clone_objects e)).amend e' fun _ => rfl)

theorem watchFrom_bare (s : Session) (o : ObjectId) (src : String) :
    Gives (fun u => u.1.heap.Bare s.heap.objects.next) (s.watchFrom o src) :=
  .bind fun _ => .bind_of fun _ e => .bind_of fun _ e' =>
    .ok (((Heap.bare_next _).of_objects (Heap.downgrade_objects e)).amend e' fun _ => rfl)

/-- A command that does not manage makes an object with an empty slot, if it makes one. -/
theorem plan_bare (hc : c.lawful = true) (hm : c.manages = false) :
    Gives (fun u => u.1.heap.Bare s.heap.objects.next) (s.plan c) := by
  have old := s.heap.bare_next
  cases c with
  | create | sharedMake => cases hm
  | aliasShare | aliasObserve | aliasManage | tear => cases hc
  | unset | drop | unbound | dropWeak | sharedShutdown | sharedDrop | ownedShutdown | ownedDrop =>
    exact .ok old
  | leak => exact .map_of fun _ e => (old.place rfl).of_objects (Heap.pin_objects e)
  | pin => exact .bind fun _ => .map_of fun _ e => old.of_objects (Heap.pin_objects e)
  | clone => exact .bind fun _ => .map_of fun _ e => old.of_objects (Heap.clone_objects e)
  | share | ownedShare =>
    exact .bind fun _ => .map_of fun _ e => old.of_objects (Heap.share_objects e)
  | upgrade => exact .bind fun _ => .map_of fun _ e => old.of_objects (Heap.upgrade_objects e)
  | downgrade => exact .bind fun _ => .map_of fun _ e => old.of_objects (Heap.downgrade_objects e)
  | observe => exact .bind fun _ => .map_of fun _ e => old.of_objects (Heap.observe_objects e)
  | cloneWeak => exact .bind fun _ => .map_of fun _ e => old.of_objects (Heap.cloneWeak_objects e)
  | assign dst src =>
    refine .bind fun _ => .bind fun _ => ?_
    split
    · exact .ok old
    · exact .map_of fun _ e => old.of_objects (Heap.clone_objects e)
  | reset | resetWeak => exact .bind fun _ => .ok old
  | kid =>
    exact .bind fun _ => .bind fun _ => .bind fun _ => .map_of fun _ e =>
      old.of_objects (Heap.clone_objects e)
  | unlink => exact .bind fun _ => .bind fun _ => .bind fun _ => .ok (old.setObject fun _ => rfl)
  | unwatch => exact .bind fun _ => .bind fun _ => .ok (old.setObject fun _ => rfl)
  | plain =>
    exact .bind_of fun _ e => .bind_of fun _ e' => .ok
      (((old.place rfl).of_objects (Heap.share_objects e)).of_objects (Heap.observe_objects e'))
  | sharedSet =>
    exact .bind fun _ => .bind_of fun _ e => .bind_of fun _ e' => .ok
      ((old.of_objects (Heap.clone_objects e)).of_objects (Heap.clone_objects e'))
  | sharedGet dst key =>
    refine .bind_of fun r e => ?_
    split
    · exact .ok old
    · next h y e => exact .ok (old.of_objects (Roster.lend_objects e))
  | ownedSet key label => exact .ok (old.place rfl)
  | ownedMake key label =>
    rw [plan]
    split
    · exact .ok (old.place rfl)
    · exact .ok old
  | swap => exact .of_exec (.bind fun _ => .bind fun _ => .ok old)
  | compare => exact .of_exec (.bind fun _ => .bind fun _ => .ok old)
  | inspect => exact .of_exec (.bind fun _ => .bind fun _ => .ok old)
  | inspectWeak => exact .of_exec (.bind fun _ => .bind fun _ => .ok old)
  | meets => exact .of_exec (.bind fun _ => .bind fun _ => .bind fun _ => .ok old)
  | link => exact .of_exec (.bind fun _ => linkTo_bare s _ _)
  | watch => exact .of_exec (.bind fun _ => watchFrom_bare s _ _)
  | ownedLink => exact .of_exec (.bind fun _ => linkTo_bare s _ _)
  | sharedInfo | ownedInfo => exact .of_exec (.ok old)
  | ownedGet key =>
    refine .of_exec ?_
    rw [exec]
    split
    · exact .ok old
    · exact .bind fun _ => .ok old

/-- A command that manages puts the object that it makes under a counter, and keeps a handle on
it. -/
theorem plan_managed (hs : s.Sound) (hm : c.manages = true) :
    Gives (fun u => ∀ o, s.heap.objects.next ≤ o → o < u.1.heap.objects.next →
      u.1.heap.Managed o ∧ .holding o ∈ u.1.held) (s.plan c) := by
  have adopted {t : Session} {y : Object Label}
      (ho : t.heap.objects = (s.heap.adopt y).objects)
      (kept : .holding s.heap.objects.next ∈ t.held) (o : ObjectId)
      (hle : s.heap.objects.next ≤ o) (hlt : o < t.heap.objects.next) :
      t.heap.Managed o ∧ .holding o ∈ t.held := by
    rw [ho, Heap.adopt, Slab.next_insert] at hlt
    obtain rfl := Nat.le_antisymm (Nat.le_of_lt_succ hlt) hle
    refine ⟨⟨{ y with slot := some s.heap.counters.next }, s.heap.counters.next, ?_, rfl⟩, kept⟩
    rw [ho, Heap.adopt, Slab.get?_insert, if_pos rfl]
  cases c with
  | create dst label =>
    have e := Heap.manage_eq s.heap (x := { value := label }) rfl
    simp only [plan, e]
    exact .ok (adopted rfl holding_mem_replace)
  | sharedMake dst key label =>
    have hs₀ := hs.perm s.perm_held_shared
    cases hk : s.shared.get? key with
    | some y =>
      obtain ⟨h, e, ht⟩ := Roster.lendOrMake_of_get? (x := { value := label }) hk hs₀
      simp only [plan, e, bind, Except.bind]
      refine .ok fun o hle hlt => absurd hlt (Nat.not_lt.2 ?_)
      have hn : h.objects.next = s.heap.objects.next := by rw [ht.objects]
      exact hn.trans_le hle
    | none =>
      obtain ⟨h, e, -, -, ho⟩ :=
        Roster.lendOrMake_of_get?_eq_none (x := { value := label }) hk rfl rfl hs₀
      simp only [plan, e, bind, Except.bind]
      exact .ok (adopted ho holding_mem_replace)
  | _ => cases hm

/-! ### What a command takes from an owner -/

theorem owner_not_mem_strong {r : Roster Strong} {k : String} : .owner p ∉ r.handlesAt k := by
  simp [Roster.handlesAt, Holder.handles]

theorem owner_not_mem_weak {r : Roster Weak} {k : String} : .owner p ∉ r.handlesAt k := by
  simp [Roster.handlesAt, Holder.handles]

theorem owner_mem_owned_iff {r : Roster Owned} {k : String} :
    .owner p ∈ r.handlesAt k ↔ r.get? k = some ⟨p⟩ := by
  cases hk : r.get? k with
  | none => simp [Roster.handlesAt, hk]
  | some b =>
    obtain ⟨q⟩ := b
    simp [Roster.handlesAt, hk, Holder.handles, eq_comm]

theorem owner_mem_handles_iff {r : Roster Owned} :
    .owner p ∈ r.handles ↔ ∃ k, r.get? k = some ⟨p⟩ := by
  simp only [← Roster.mem_values_iff, Roster.handles, Holder.handles, List.mem_flatMap,
    List.mem_singleton, Handle.owner.injEq]
  constructor
  · rintro ⟨⟨q⟩, hm, rfl⟩
    exact hm
  · exact fun hm => ⟨_, hm, rfl⟩

theorem owner_mem_held_iff : .owner p ∈ s.held ↔ ∃ k, s.owned.get? k = some ⟨p⟩ := by
  rw [s.perm_held_owned.mem_iff, ← owner_mem_handles_iff]
  simp [Roster.handles, Holder.handles]

/-- Who the owner of an object was that the command `c` releases: the registry that `c` evicts the
object from, or `c` itself, which made it. -/
def Evicts (s : Session) (c : Command) (p : ObjectId) : Prop :=
  (∃ k, s.owned.get? k = some ⟨p⟩ ∧ c.evicts k = true) ∨
    ∃ label, c = .plain label ∧ p = s.heap.objects.next

theorem plan_owners (hc : c.lawful = true) :
    Gives (fun u => ∀ p, .owner p ∈ u.2 → s.Evicts c p) (s.plan c) := by
  cases c with
  | aliasShare | aliasObserve | aliasManage | tear => cases hc
  | unset | drop => exact .ok fun _ hp => absurd hp owner_not_mem_strong
  | create | leak => exact .map fun _ _ hp => absurd hp owner_not_mem_strong
  | pin | clone | share | upgrade | ownedShare =>
    exact .bind fun _ => .map fun _ _ hp => absurd hp owner_not_mem_strong
  | kid =>
    exact .bind fun _ => .bind fun _ => .bind fun _ => .map fun _ _ hp =>
      absurd hp owner_not_mem_strong
  | assign dst src =>
    refine .bind fun _ => .bind fun _ => ?_
    split
    · exact .ok fun _ hp => absurd hp List.not_mem_nil
    · exact .map fun _ _ hp => absurd hp owner_not_mem_strong
  | unbound | dropWeak => exact .ok fun _ hp => absurd hp owner_not_mem_weak
  | downgrade | observe | cloneWeak =>
    exact .bind fun _ => .map fun _ _ hp => absurd hp owner_not_mem_weak
  | reset | resetWeak => exact .bind fun _ => .ok fun _ hp => by simp at hp
  | unlink =>
    exact .bind fun _ => .bind fun _ => .bind fun _ => .ok fun _ hp => by simp at hp
  | unwatch => exact .bind fun _ => .bind fun _ => .ok fun _ hp => by simp at hp
  | plain label =>
    exact .bind fun _ => .bind fun _ => .ok fun p hp => .inr ⟨label, rfl, by simpa using hp⟩
  | sharedSet =>
    exact .bind fun _ => .bind fun _ => .bind fun _ => .ok fun p hp =>
      absurd ((List.mem_append.1 hp).resolve_right (by simp)) owner_not_mem_strong
  | sharedGet dst key =>
    refine .bind fun _ => ?_
    split
    · exact .ok fun _ hp => absurd hp List.not_mem_nil
    · exact .ok fun _ hp => absurd hp owner_not_mem_strong
  | sharedMake => exact .bind fun _ => .ok fun _ hp => absurd hp owner_not_mem_strong
  | sharedShutdown | sharedDrop =>
    exact .ok fun _ hp => by simp [Roster.handles, Holder.handles] at hp
  | ownedSet key label =>
    exact .ok fun p hp => .inl ⟨key, owner_mem_owned_iff.1 hp, by simp [Command.evicts]⟩
  | ownedMake key label =>
    rw [plan]
    split
    · next hk =>
      refine .ok fun p hp => ?_
      cases hk.symm.trans (owner_mem_owned_iff.1 hp)
    · exact .ok fun _ hp => absurd hp List.not_mem_nil
  | ownedShutdown | ownedDrop =>
    refine .ok fun p hp => ?_
    obtain ⟨k, hk⟩ := owner_mem_handles_iff.1 hp
    exact .inl ⟨k, hk, rfl⟩
  | swap | compare | inspect | inspectWeak | meets | link | watch | ownedLink | ownedGet
  | sharedInfo | ownedInfo =>
    exact .bind fun _ => .ok fun _ hp => absurd hp List.not_mem_nil

/-! ### One command -/

/-- A command that respects the slots releases what its plan leaves to be released, or it changes
nothing. -/
theorem step_releases (hs : s.Sound) (hc : c.lawful = true) :
    (∃ t pending, s.plan c = .ok (t, pending) ∧ Ready s.heap t pending ∧
      (s.step c).1 = t.withHeap (s.step c).1.heap ∧ (s.step c).1.heap.Sound t.held ∧
      t.heap.Without (dropped (s.step c).2.drops) (s.step c).1.heap ∧
      ∀ p, p ∈ dropped (s.step c).2.drops ↔ t.heap.Doomed pending t.held p) ∨
    (s.step c).1 = s ∧ (s.step c).2.drops = [] := by
  rcases exec_follows hs hc with ⟨t, pending, ep, hr, hend⟩ | ⟨-, er, -⟩
  · obtain ⟨h, log, e, hs', hw, hd⟩ := hr.sound.release
    obtain ⟨out, er, hlog⟩ := hend h log e hs'
    left
    rw [step, er]
    refine ⟨t, pending, ep, hr, rfl, hs', hw.perm (hlog.map _), fun p => ?_⟩
    rw [← hd]
    exact (hlog.map _).mem_iff.symm
  · right
    rw [step, er]
    exact ⟨rfl, rfl⟩

theorem step_bare (hs : s.Sound) (hc : c.lawful = true) (hm : c.manages = false) :
    (s.step c).1.heap.Bare s.heap.objects.next := by
  rcases step_releases hs hc with ⟨t, pending, ep, -, -, -, hw, -⟩ | ⟨e, -⟩
  · exact (plan_bare hc hm _ ep).without hw
  · rw [e]
    exact s.heap.bare_next

theorem step_managed (hs : s.Sound) (hc : c.lawful = true) (hm : c.manages = true)
    (hle : s.heap.objects.next ≤ o) (hlt : o < (s.step c).1.heap.objects.next) :
    (s.step c).1.heap.Managed o := by
  rcases step_releases hs hc with ⟨t, pending, ep, -, -, hs', hw, -⟩ | ⟨e, -⟩
  · rw [hw.next_objects] at hlt
    obtain ⟨⟨x, d, hx, hslot⟩, hheld⟩ := plan_managed hs hm _ ep o hle hlt
    -- the session keeps a handle on the object, so the release leaves it
    obtain ⟨y, hy⟩ := Heap.Balanced.named hs' (List.mem_append_left _ hheld)
    obtain rfl := Option.some.inj (hx.symm.trans (hw.get?_of_get? hy).1)
    exact ⟨x, d, hy, hslot⟩
  · rw [e] at hlt
    exact absurd hlt (Nat.not_lt.2 hle)

/-- An object that no counter manages is dropped only with its owner. -/
theorem evicts_of_dropped (hs : s.Sound) (hc : c.lawful = true)
    (hold : ∀ x, s.heap.objects.get? o = some x → x.slot = none)
    (hnew : s.heap.objects.next ≤ o → c.manages = false)
    (hd : o ∈ dropped (s.step c).2.drops) : s.Evicts c o := by
  rcases step_releases hs hc with ⟨t, pending, ep, hr, -, -, -, hdoomed⟩ | ⟨-, e⟩
  · obtain ⟨hx, hgo, -⟩ := (hdoomed o).1 hd
    refine plan_owners hc _ ep o (hgo.resolve_left (not_not.2 ?_))
    rcases Nat.lt_or_ge o s.heap.objects.next with hlt | hle
    · obtain ⟨y, hy⟩ := ((hr.leads.there_iff (Slab.lt_next_of_get? hx)).1 ⟨_, hx⟩).2 hlt
      exact (hr.leads.slot hy hx).trans (hold y hy)
    · exact plan_bare hc (hnew hle) _ ep o _ hle hx
  · rw [e] at hd
    cases hd

/-! ### Runs -/

/-- The command `c` of the run `cs` made the object `o`. -/
def MadeBy (cs : List Command) (c : Command) (o : ObjectId) : Prop :=
  ∃ pre, pre ++ [c] <+: cs ∧ (run {} pre).heap.objects.next ≤ o ∧
    o < (run {} (pre ++ [c])).heap.objects.next

theorem run_concat (cs : List Command) (c : Command) :
    run {} (cs ++ [c]) = ((run {} cs).step c).1 := run_append _ _ _

theorem lawful_concat (hcs : ∀ c ∈ cs, c.lawful = true) (hp : pre ++ [c] <+: cs) :
    (∀ d ∈ pre, d.lawful = true) ∧ c.lawful = true :=
  ⟨fun d hd => hcs d (hp.subset (List.mem_append_left _ hd)),
    hcs c (hp.subset (List.mem_append_right _ List.mem_cons_self))⟩

/-- Numbers of objects are given out in order. -/
theorem next_objects_mono (hcs : ∀ c ∈ cs, c.lawful = true) (hp : pre <+: cs) :
    (run {} pre).heap.objects.next ≤ (run {} cs).heap.objects.next := by
  obtain ⟨gone, hl⟩ := run_leads_of_prefix hcs hp
  exact hl.next_objects

namespace MadeBy

/-- A state that has given out the number of an object comes after the command that made it. -/
theorem of_lt (hm : MadeBy cs c o) (hcs : ∀ c ∈ cs, c.lawful = true) (hp : pre <+: cs)
    (hlt : o < (run {} pre).heap.objects.next) : MadeBy pre c o := by
  obtain ⟨q, hq, hle, hlt'⟩ := hm
  rcases List.prefix_or_prefix_of_prefix hq hp with h | h
  · exact ⟨q, h, hle, hlt'⟩
  rcases List.prefix_concat_iff.1 h with rfl | h
  · exact ⟨q, List.prefix_refl _, hle, hlt'⟩
  · have hq' : q <+: cs := (List.prefix_append q [c]).trans hq
    have hmono := next_objects_mono (fun c hc => hcs c (hq'.subset hc)) h
    exact absurd (Nat.lt_of_lt_of_le hlt (hmono.trans hle)) (Nat.lt_irrefl o)

theorem of_prefix (hm : MadeBy pre c o) (hp : pre <+: cs) : MadeBy cs c o := by
  obtain ⟨q, hq, hle, hlt⟩ := hm
  exact ⟨q, hq.trans hp, hle, hlt⟩

/-- An object is made by one command. -/
theorem unique (hm : MadeBy cs c o) (hm' : MadeBy cs d o) (hcs : ∀ c ∈ cs, c.lawful = true) :
    c = d := by
  obtain ⟨q, hq, hle, hlt⟩ := hm'
  obtain ⟨q', hq', -, hlt'⟩ := hm.of_lt hcs hq hlt
  rcases List.prefix_concat_iff.1 hq' with e | h
  · exact (List.append_inj' e rfl).2 |> List.singleton_inj.1
  · have hmono := next_objects_mono (lawful_concat hcs hq).1 h
    exact absurd (Nat.lt_of_lt_of_le hlt' (hmono.trans hle)) (Nat.lt_irrefl o)

/-- The slot of an object stays empty if the command that made it does not manage. -/
theorem slot_eq_none (hm : MadeBy cs c o) (hcs : ∀ c ∈ cs, c.lawful = true)
    (hc : c.manages = false) (hx : (run {} cs).heap.objects.get? o = some x) : x.slot = none := by
  obtain ⟨q, hq, hle, hlt⟩ := hm
  obtain ⟨hlaw, hclaw⟩ := lawful_concat hcs hq
  obtain ⟨gone, hl⟩ := run_leads_of_prefix hcs hq
  obtain ⟨y, hy⟩ := ((hl.there_iff (Slab.lt_next_of_get? hx)).1 ⟨x, hx⟩).2 hlt
  rw [hl.slot hy hx]
  rw [run_concat] at hy
  exact step_bare (run_leads sound_empty hlaw).1 hclaw hc o y hle hy

/-- An object is ever managed exactly if the command that made it manages. -/
theorem everManaged_iff (hm : MadeBy cs c o) (hcs : ∀ c ∈ cs, c.lawful = true) :
    (∃ d, EverManaged cs o d) ↔ c.manages = true := by
  constructor
  · rintro ⟨d, pre, x, hp, hx, hd⟩
    by_contra hc
    have hpre := hm.of_lt hcs hp (Slab.lt_next_of_get? hx)
    have hlaw : ∀ c ∈ pre, c.lawful = true := fun c hc => hcs c (hp.subset hc)
    cases hd.symm.trans (hpre.slot_eq_none hlaw (eq_false_of_ne_true hc) hx)
  · intro hc
    obtain ⟨q, hq, hle, hlt⟩ := hm
    obtain ⟨hlaw, hclaw⟩ := lawful_concat hcs hq
    rw [run_concat] at hlt
    obtain ⟨x, d, hx, hslot⟩ := step_managed (run_leads sound_empty hlaw).1 hclaw hc hle hlt
    rw [← run_concat] at hx
    exact ⟨d, q ++ [c], x, hq, hx, hslot⟩

/-- The slot is empty at every moment, also while objects are dropped. -/
theorem slot_at (hm : MadeBy cs c o) (hcs : ∀ c ∈ cs, c.lawful = true) (hc : c.manages = false)
    (hmem : m ∈ life cs) (hx : m.heap.objects.get? o = some x) : x.slot = none := by
  by_contra hslot
  obtain ⟨d, hd⟩ := Option.ne_none_iff_exists'.1 hslot
  obtain ⟨hsound, hever⟩ := (life_spec hcs).1 m hmem
  obtain ⟨k, hk, hl⟩ := Heap.Balanced.living_of_slot hsound hx hd
  -- the counter has managed an object, and it is the one that it names
  obtain ⟨p, hp⟩ := hever hk
  obtain rfl := hp.eq_of_living_at hcs hmem hk hl
  rw [(hm.everManaged_iff hcs).1 ⟨d, hp⟩] at hc
  cases hc

end MadeBy

/-! ### Who drops an object -/

/-- What stands in the registry that owns its entries was made by a command on it. -/
theorem madeBy_of_owned {k : String} (hcs : ∀ c ∈ cs, c.lawful = true)
    (hk : (run {} cs).owned.get? k = some ⟨o⟩) : ∃ c, MadeBy cs c o ∧ ∃ key label,
      c = .ownedSet key label ∨ c = .ownedMake key label := by
  obtain ⟨pre, c, post, rfl, hst, -⟩ := (entryAt_run_iff hcs).1 (entryAt_owned_some_iff.2 hk)
  have hlaw : ∀ c ∈ pre, c.lawful = true := fun c hc => hcs c (List.mem_append_left _ hc)
  have hc : c.lawful = true := hcs c (List.mem_append_right _ List.mem_cons_self)
  have hs := (run_leads sound_empty hlaw).1
  obtain ⟨x, hx⟩ := there_of_owned (step_leads hs hc).1 (owned_step_of_stores hs hc hst)
  have hstored : o = (run {} pre).heap.objects.next ∧ ∃ key label,
      c = .ownedSet key label ∨ c = .ownedMake key label := by
    cases c with
    | ownedSet key label =>
      simp only [stores?, ↓reduceIte, Option.some.injEq, Prod.mk.injEq] at hst
      exact ⟨hst.2.symm, key, label, .inl rfl⟩
    | ownedMake key label =>
      simp only [stores?, true_and, Option.ite_none_right_eq_some, Option.some.injEq,
        Prod.mk.injEq] at hst
      exact ⟨hst.2.2.symm, key, label, .inr rfl⟩
    | _ => simp [stores?] at hst
  refine ⟨c, ⟨pre, ⟨post, by simp⟩, hstored.1.ge, ?_⟩, hstored.2⟩
  rw [run_concat]
  exact Slab.lt_next_of_get? hx

/-- An object that is new to the command that drops it was made by that command. -/
theorem madeBy_of_dropped (hcs : ∀ c ∈ cs, c.lawful = true) (hp : pre ++ [d] <+: cs)
    (hle : (run {} pre).heap.objects.next ≤ o)
    (hd : o ∈ dropped ((run {} pre).step d).2.drops) : MadeBy cs d o := by
  obtain ⟨hlaw, hdlaw⟩ := lawful_concat hcs hp
  refine ⟨pre, hp, hle, ?_⟩
  rw [run_concat]
  exact (step_leads (run_leads sound_empty hlaw).1 hdlaw).2.1.dropped_lt hd

theorem mem_dropped_drops_iff : o ∈ dropped (s.drops cs) ↔
    ∃ pre d, pre ++ [d] <+: cs ∧ o ∈ dropped ((s.run pre).step d).2.drops := by
  constructor
  · intro ho
    induction cs generalizing s with
    | nil => cases ho
    | cons c cs ih =>
      rw [drops, Heap.dropped_append, List.mem_append] at ho
      rcases ho with ho | ho
      · exact ⟨[], c, List.cons_prefix_cons.2 ⟨rfl, List.nil_prefix⟩, ho⟩
      · obtain ⟨pre, d, hp, hd⟩ := ih ho
        exact ⟨c :: pre, d, List.cons_prefix_cons.2 ⟨rfl, hp⟩, hd⟩
  · rintro ⟨pre, d, ⟨post, rfl⟩, hd⟩
    rw [List.append_assoc]
    exact mem_dropped_drops s pre post hd

namespace MadeBy

theorem evicts_of_dropped (hm : MadeBy cs c o) (hcs : ∀ c ∈ cs, c.lawful = true)
    (hc : c.manages = false) (hp : pre ++ [d] <+: cs)
    (hd : o ∈ dropped ((run {} pre).step d).2.drops) : (run {} pre).Evicts d o := by
  obtain ⟨hlaw, hdlaw⟩ := lawful_concat hcs hp
  refine Session.evicts_of_dropped (run_leads sound_empty hlaw).1 hdlaw (fun x hx => ?_)
    (fun hle => ?_) hd
  · have hpre := hm.of_lt hcs ((List.prefix_append _ _).trans hp) (Slab.lt_next_of_get? hx)
    exact hpre.slot_eq_none hlaw hc hx
  · obtain rfl := hm.unique (madeBy_of_dropped hcs hp hle hd) hcs
    exact hc

/-- At the end of a session the registry that owns an object drops it. -/
theorem owned_of_closed {r : Closing} (hm : MadeBy cs c o) (hcs : ∀ c ∈ cs, c.lawful = true)
    (hc : c.manages = false) (er : (run {} cs).close = .ok r)
    (hd : o ∈ dropped (r.strong ++ r.shared ++ r.owned)) :
    ∃ k, (run {} cs).owned.get? k = some ⟨o⟩ ∧ o ∈ dropped r.owned := by
  have hs := (run_leads sound_empty hcs).1
  obtain ⟨h, log, r', e, er', -, hlog⟩ := close_spec hs
  cases er.symm.trans er'
  have hs' : (run {} cs).heap.Sound ((run {} cs).held ++ []) := by
    rw [List.append_nil]
    exact hs
  obtain ⟨h', log', e', -, -, hdoomed⟩ := hs'.release
  cases e.symm.trans e'
  obtain ⟨hx, hgo, -⟩ := (hdoomed o).1 ((hlog.map _).mem_iff.2 hd)
  have howner := hgo.resolve_left (not_not.2 (hm.slot_eq_none hcs hc hx))
  obtain ⟨k, hk⟩ := owner_mem_held_iff.1 howner
  exact ⟨k, hk, mem_dropped_of_close hs hk er⟩

/-- An object without an owner is never dropped. -/
theorem not_dropped {dst : String} {label : Label} (hm : MadeBy cs (.leak dst label) o)
    (hcs : ∀ c ∈ cs, c.lawful = true) : ∃ r, (run {} cs).close = .ok r ∧
      o ∉ dropped (drops {} cs ++ (r.strong ++ r.shared ++ r.owned)) := by
  obtain ⟨r, er, -⟩ := close_nodup hcs
  refine ⟨r, er, fun hd => ?_⟩
  rw [Heap.dropped_append, List.mem_append] at hd
  have not_owned {pre : List Command} {k : String} (hp : pre <+: cs)
      (hk : (run {} pre).owned.get? k = some ⟨o⟩) : False := by
    obtain ⟨c, hc, key, label, rfl | rfl⟩ :=
      madeBy_of_owned (fun c hc => hcs c (hp.subset hc)) hk
    · cases hm.unique (hc.of_prefix hp) hcs
    · cases hm.unique (hc.of_prefix hp) hcs
  rcases hd with hd | hd
  · obtain ⟨pre, d, hp, hd⟩ := mem_dropped_drops_iff.1 hd
    rcases hm.evicts_of_dropped hcs rfl hp hd with ⟨k, hk, -⟩ | ⟨label, rfl, ho⟩
    · exact not_owned ((List.prefix_append _ _).trans hp) hk
    · cases hm.unique (madeBy_of_dropped hcs hp ho.ge hd) hcs
  · obtain ⟨k, hk, -⟩ := hm.owned_of_closed hcs rfl er hd
    exact not_owned (List.prefix_refl _) hk

end MadeBy

end Session

end Custody
