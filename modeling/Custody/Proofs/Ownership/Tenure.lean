import Custody.Proofs.Ownership.Exchange
import Custody.Proofs.Ownership.Moments

/-!
# An object and its owner

An object that is put into the registry that owns its entries has one owner, its entry.  It stands
under its key until a command evicts it (`Command.evicts`), which puts another object in its place
or clears the registry; that command drops it, and if there is none, the end of the session does
(`Tenure`).  Nothing is dropped twice over a run and its end (`close_nodup`), so this is the only
time that it is dropped (`tenure_of_entry`).

`registries_own` puts this beside what the commands on the registries do to the handles of all
objects.
-/

namespace Custody

open Heap (dropped)

/-- Whether a command takes away what the registry that owns its entries has under a key: it puts
another object there, or clears the registry. -/
def Command.evicts (k : String) : Command → Bool
  | .ownedSet key _ => key = k
  | .ownedShutdown | .ownedDrop => true
  | _ => false

theorem Command.onRegistry_of_evicts {c : Command} {k : String} (h : c.evicts k = true) :
    c.onRegistry = true := by
  cases c with
  | ownedSet | ownedShutdown | ownedDrop => rfl
  | _ => cases h

namespace Session

variable {s : Session} {c : Command} {cs pre post : List Command} {k : String} {o : ObjectId}
  {r : Closing}

/-- What becomes of an object that the registry that owns its entries has under a key after the run
`pre`, when the commands `post` follow and then the session is closed. -/
inductive Tenure (pre : List Command) (k : String) (o : ObjectId) (post : List Command)
    (r : Closing) : Prop
  /-- It stands there to the end, and is dropped with the registry. -/
  | stays (kept : ∀ d ∈ post, d.evicts k = false)
      (entry : (run {} (pre ++ post)).owned.get? k = some ⟨o⟩) (drop : o ∈ dropped r.owned)
  /-- It stands there until a command evicts it, and is dropped by that command. -/
  | evicted {mid rest : List Command} {d : Command} (split : post = mid ++ d :: rest)
      (kept : ∀ e ∈ mid, e.evicts k = false)
      (entry : (run {} (pre ++ mid)).owned.get? k = some ⟨o⟩) (evicts : d.evicts k = true)
      (drop : o ∈ dropped ((run {} (pre ++ mid)).step d).2.drops)

/-! ### Until it is evicted -/

theorem owned_step_of_stores (hs : s.Sound) (hc : c.lawful = true)
    (h : s.stores? .owned c = some (k, some o)) : (s.step c).1.owned.get? k = some ⟨o⟩ :=
  entryAt_owned_some_iff.1 ((entryAt_step hs hc .owned k).trans (entryAfter_of_stores h))

theorem not_clears_of_not_evicts (he : c.evicts k = false) : Registry.owned.clears c = false := by
  cases c with
  | ownedShutdown | ownedDrop => cases he
  | _ => rfl

/-- Where something stands, only a command that evicts it stores anything. -/
theorem stores_ne_of_not_evicts {x y : Option ObjectId} (hk : s.entryAt k .owned = some x)
    (he : c.evicts k = false) : s.stores? .owned c ≠ some (k, y) := by
  intro hy
  cases c with
  | ownedSet key label =>
    obtain ⟨rfl, -⟩ : key = k ∧ _ := by simpa [stores?] using hy
    simp [Command.evicts] at he
  | ownedMake key label =>
    rw [stores?] at hy
    split at hy
    · next hnone =>
      obtain ⟨rfl, -⟩ := Prod.mk.inj (Option.some.inj hy)
      cases hnone.2.symm.trans hk
    · cases hy
  | _ => simp [stores?] at hy

theorem owned_step_of_not_evicts (hs : s.Sound) (hc : c.lawful = true)
    (hk : s.owned.get? k = some ⟨o⟩) (he : c.evicts k = false) :
    (s.step c).1.owned.get? k = some ⟨o⟩ := by
  have hat := entryAt_owned_some_iff.2 hk
  refine entryAt_owned_some_iff.1 ((entryAt_step hs hc .owned k).trans ?_)
  rw [entryAfter_of_spared (not_clears_of_not_evicts he) fun y => stores_ne_of_not_evicts hat he,
    hat]

theorem owned_run_of_not_evicts (hs : s.Sound) (hcs : ∀ c ∈ cs, c.lawful = true)
    (hk : s.owned.get? k = some ⟨o⟩) (he : ∀ d ∈ cs, d.evicts k = false) :
    (s.run cs).owned.get? k = some ⟨o⟩ := by
  induction cs generalizing s with
  | nil => exact hk
  | cons c cs ih =>
    have hc := hcs c List.mem_cons_self
    exact ih (step_leads hs hc).1 (fun d hd => hcs d (List.mem_cons_of_mem _ hd))
      (owned_step_of_not_evicts hs hc hk (he c List.mem_cons_self))
      fun d hd => he d (List.mem_cons_of_mem _ hd)

/-- The command that evicts an object drops it. -/
theorem mem_dropped_of_evicts (hs : s.Sound) (hk : s.owned.get? k = some ⟨o⟩)
    (he : c.evicts k = true) : o ∈ dropped (s.step c).2.drops := by
  refine (step_exchanges hs (Command.onRegistry_of_evicts he)).owners o ?_
  cases c with
  | ownedSet key label =>
    obtain rfl : key = k := of_decide_eq_true he
    rw [went, Roster.handlesAt_of_get? hk]
    exact List.mem_cons_self
  | ownedShutdown | ownedDrop => exact Roster.mem_handles hk List.mem_cons_self
  | _ => cases he

/-! ### The end of a session -/

/-- Closing a session drops everything that is still owned, with the registry that owns it. -/
theorem mem_dropped_of_close (hs : s.Sound) (hk : s.owned.get? k = some ⟨o⟩)
    (e : s.close = .ok r) : o ∈ dropped r.owned := by
  obtain ⟨_, _, h₃, _, _, _, _, l₄, -, -, -, -, hs₃, e₄, er⟩ := close_stages hs
  cases e.symm.trans er
  rw [← List.append_nil s.owned.handles] at hs₃
  obtain ⟨_, _, e', -, -, -, howner⟩ := hs₃.release_spec
  cases e₄.symm.trans e'
  exact (dropped_sortDrops l₄).mem_iff.1 (howner o (Roster.mem_handles hk List.mem_cons_self))

/-- The end of a session is part of its course. -/
theorem close_leads (hs : s.Sound) : ∃ h r, s.close = .ok r ∧
    s.heap.Leads (dropped (r.strong ++ r.shared ++ r.owned)) h := by
  obtain ⟨h, log, r, e, er, -, hlog⟩ := close_spec hs
  have hs' : s.heap.Sound (s.held ++ []) := by
    rw [List.append_nil]
    exact hs
  obtain ⟨h', log', e', -, hl⟩ := hs'.release_passes
  cases e.symm.trans e'
  exact ⟨h, r, er, hl.toLeads.perm (hlog.map _)⟩

/-- Over a run and its end nothing is dropped twice. -/
theorem close_nodup (hcs : ∀ c ∈ cs, c.lawful = true) : ∃ r, (run {} cs).close = .ok r ∧
    (dropped (drops {} cs ++ (r.strong ++ r.shared ++ r.owned))).Nodup := by
  obtain ⟨hs, hl⟩ := run_leads sound_empty hcs
  obtain ⟨h, r, er, hl'⟩ := close_leads hs
  refine ⟨r, er, ?_⟩
  rw [Heap.dropped_append]
  exact (hl.trans hl').nodup

/-! ### Over a run and its end -/

theorem drops_append (s : Session) (cs ds : List Command) :
    s.drops (cs ++ ds) = s.drops cs ++ (s.run cs).drops ds := by
  induction cs generalizing s with
  | nil => rfl
  | cons c cs ih =>
    rw [List.cons_append, drops, drops, ih, List.append_assoc]
    rfl

/-- What a command in the middle of a run drops is dropped in the run. -/
theorem mem_dropped_drops (s : Session) (cs ds : List Command)
    (h : o ∈ dropped ((s.run cs).step c).2.drops) : o ∈ dropped (s.drops (cs ++ c :: ds)) := by
  rw [drops_append, Heap.dropped_append, drops, Heap.dropped_append]
  exact List.mem_append_right _ (List.mem_append_left _ h)

/-- What becomes of an object that the registry that owns its entries has. Over the whole run and
its end it is dropped once. -/
theorem tenure_of_entry (hcs : ∀ c ∈ pre ++ post, c.lawful = true)
    (hk : (run {} pre).owned.get? k = some ⟨o⟩) :
    ∃ r, (run {} (pre ++ post)).close = .ok r ∧
      (dropped (drops {} (pre ++ post) ++ (r.strong ++ r.shared ++ r.owned))).count o = 1 ∧
      Tenure pre k o post r := by
  have hpost : ∀ c ∈ post, c.lawful = true := fun c hc => hcs c (List.mem_append_right _ hc)
  have hs := (run_leads sound_empty fun c hc => hcs c (List.mem_append_left _ hc)).1
  have stands (ds : List Command) (hds : ∀ d ∈ ds, d.lawful = true)
      (he : ∀ d ∈ ds, d.evicts k = false) :
      (run {} (pre ++ ds)).Sound ∧ (run {} (pre ++ ds)).owned.get? k = some ⟨o⟩ := by
    rw [run_append]
    exact ⟨(run_leads hs hds).1, owned_run_of_not_evicts hs hds hk he⟩
  obtain ⟨r, er, hnd⟩ := close_nodup hcs
  -- nothing is dropped twice, so it is enough to find one place where the object is dropped
  have once (hm : o ∈ dropped (drops {} (pre ++ post)) ∨ o ∈ dropped r.owned) :
      (dropped (drops {} (pre ++ post) ++ (r.strong ++ r.shared ++ r.owned))).count o = 1 := by
    refine List.count_eq_one_of_mem hnd ?_
    simp only [Heap.dropped_append, List.mem_append]
    exact hm.imp_right .inr
  refine ⟨r, er, ?_⟩
  cases hf : post.find? (Command.evicts k) with
  | none =>
    have he : ∀ d ∈ post, d.evicts k = false := by simpa using hf
    obtain ⟨hend, hstands⟩ := stands post hpost he
    have hdrop : o ∈ dropped r.owned := mem_dropped_of_close hend hstands er
    exact ⟨once (.inr hdrop), .stays he hstands hdrop⟩
  | some d =>
    obtain ⟨hd, mid, rest, rfl, he⟩ := List.find?_eq_some_iff_append.1 hf
    replace he : ∀ e ∈ mid, e.evicts k = false := by simpa using he
    obtain ⟨hs', hstands⟩ := stands mid (fun e hm => hpost e (List.mem_append_left _ hm)) he
    have hdrop := mem_dropped_of_evicts hs' hstands hd
    have hrun : o ∈ dropped (drops {} (pre ++ (mid ++ d :: rest))) := by
      rw [← List.append_assoc]
      exact mem_dropped_drops {} (pre ++ mid) rest hdrop
    exact ⟨once (.inl hrun), .evicted rfl he hstands hd hdrop⟩

/-! ### Both registries -/

/-- A lookup gives out a handle on what stands under the key. -/
theorem sharedGet_gives {x : Strong} (hs : s.Sound) (hk : s.shared.get? k = some x)
    (dst : String) : (s.step (.sharedGet dst k)).1.strong.get? dst = some x :=
  (step_finds (g := .shared) hs (entryAt_shared_iff.2 hk) dst).2

theorem sharedMake_gives (hs : s.Sound) (dst k : String) (label : Label) :
    ∃ x, (s.step (.sharedMake dst k label)).1.shared.get? k = some x ∧
      (s.step (.sharedMake dst k label)).1.strong.get? dst = some x := by
  cases hk : s.entryAt k .shared with
  | none =>
    obtain ⟨⟨-, hdst⟩, hplaces⟩ := step_makes hs hk dst label rfl
    exact ⟨_, entryAt_shared_iff.1 hplaces.entry, hdst⟩
  | some x =>
    obtain ⟨⟨-, hdst⟩, hentry, -⟩ := step_lends hs hk dst label rfl
    exact ⟨_, entryAt_shared_iff.1 hentry, hdst⟩

/-- After any run of commands that respect the slots, a command on a registry exchanges handles for
handles, and drops what then nothing holds. A lookup gives out a handle on what stands under the
key. An object is counted once for each name and each key under which a handle on it is kept, and
for each handle on it that an object stores; so storing it where it stands changes nothing. An
object that was put into the registry that owns its entries is dropped once, when it is evicted or
at the end. -/
theorem registries_own (cs : List Command) (hcs : ∀ c ∈ cs, c.lawful = true) :
    (∀ c, c.onRegistry = true → (run {} cs).Exchanges c ((run {} cs).step c).1
      (dropped ((run {} cs).step c).2.drops)) ∧
    (∀ dst key x, (run {} cs).shared.get? key = some x →
      ((run {} cs).step (.sharedGet dst key)).1.strong.get? dst = some x) ∧
    (∀ dst key label, ∃ x,
      ((run {} cs).step (.sharedMake dst key label)).1.shared.get? key = some x ∧
        ((run {} cs).step (.sharedMake dst key label)).1.strong.get? dst = some x) ∧
    (∀ p x i, (run {} cs).heap.objects.get? p = some x → x.slot = some i →
      (run {} cs).heap.strongCount ⟨some p⟩ = .ok (((run {} cs).namesOf p).length +
        ((run {} cs).keysOf p).length + (run {} cs).heap.stored.count (.holding p))) ∧
    (∀ key src x, (run {} cs).shared.get? key = some x → (run {} cs).strong.get? src = some x →
      ((run {} cs).step (.sharedSet key src)).1 = run {} cs ∧
        ((run {} cs).step (.sharedSet key src)).2.drops = []) ∧
    ∀ pre c post k o, cs = pre ++ c :: post →
      (run {} pre).stores? .owned c = some (k, some o) →
      ∃ r, (run {} cs).close = .ok r ∧
        (dropped (drops {} cs ++ (r.strong ++ r.shared ++ r.owned))).count o = 1 ∧
        Tenure (pre ++ [c]) k o post r := by
  have hs := (run_leads sound_empty hcs).1
  refine ⟨fun c hc => step_exchanges hs hc, fun dst key x hk => sharedGet_gives hs hk dst,
    fun dst key label => sharedMake_gives hs dst key label, fun p x i => hs.strongCount_places,
    fun key src x => sharedSet_again hs, fun pre c post k o hsplit hst => ?_⟩
  have hpre : ∀ d ∈ pre, d.lawful = true := fun d hd =>
    hcs d (hsplit ▸ List.mem_append_left _ hd)
  have hc : c.lawful = true := hcs c (hsplit ▸ List.mem_append_right _ List.mem_cons_self)
  have hk : (run {} (pre ++ [c])).owned.get? k = some ⟨o⟩ := by
    rw [run_append]
    exact owned_step_of_stores (run_leads sound_empty hpre).1 hc hst
  rw [List.append_cons] at hsplit
  subst hsplit
  exact tenure_of_entry hcs hk

/-- An object is shared under two keys; one that is owned takes another's place. -/
def owning : List Command :=
  [.create "a" 1, .sharedSet "k" "a", .sharedSet "l" "a", .ownedSet "o" 5, .ownedSet "o" 6]

theorem registries_own_owning :
    (∀ c ∈ owning, c.lawful = true) ∧ (run {} owning).heap.strongCount ⟨some 0⟩ = .ok 3 ∧
      (∀ c, c.onRegistry = true → (run {} owning).Exchanges c ((run {} owning).step c).1
        (dropped ((run {} owning).step c).2.drops)) ∧
      ∃ r, (run {} owning).close = .ok r ∧
        (dropped (drops {} owning ++ (r.strong ++ r.shared ++ r.owned))).count 1 = 1 := by
  have hcs : ∀ c ∈ owning, c.lawful = true := by decide
  obtain ⟨hex, -, -, hcount, -, hown⟩ := registries_own owning hcs
  refine ⟨hcs, ?_, hex, ?_⟩
  · have hmap : ((run {} owning).heap.objects.get? 0).map Object.slot = some (some 0) := by
      decide +kernel
    obtain ⟨x, hx, hslot⟩ := Option.map_eq_some_iff.1 hmap
    exact (hcount 0 x 0 hx hslot).trans (by decide +kernel)
  · obtain ⟨r, er, hone, -⟩ := hown (owning.take 3) (.ownedSet "o" 5) [.ownedSet "o" 6] "o" 1 rfl
      (by decide +kernel)
    exact ⟨r, er, hone⟩

end Session

end Custody
