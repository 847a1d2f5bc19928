import Mathlib.Data.List.Induction
import Custody.Proofs.Ownership.Runs
import Custody.Proofs.Roster

/-!
# One instance for a key

Each registry of a session is a finite map from keys to objects, `Session.entryAt`.  A command
stores an object under a key (`Session.stores?`), clears the registry (`Registry.clears`), or leaves
all entries as they are (`entryAt_step`).  So what stands under a key is what was stored there last,
since the registry was last cleared (`entryAt_run_iff`), and that is what lookups hand out.
-/

namespace Custody

open Heap (dropped)

/-- The registries of a session: one shares its entries, one owns them. -/
inductive Registry where
  | shared
  | owned
  deriving DecidableEq, Repr

namespace Registry

/-- The command that looks a key up, for one registry with a name for the handle that it gives. -/
def get : Registry → (dst key : String) → Command
  | shared, dst, key => .sharedGet dst key
  | owned, _, key => .ownedGet key

/-- The command that looks a key up and stores a new object if there is nothing. -/
def make : Registry → (dst key : String) → Label → Command
  | shared, dst, key, label => .sharedMake dst key label
  | owned, _, key, label => .ownedMake key label

def info : Registry → (key : String) → Command
  | shared, key => .sharedInfo key
  | owned, key => .ownedInfo key

def shutdown : Registry → Command
  | shared => .sharedShutdown
  | owned => .ownedShutdown

/-- Whether a command leaves nothing in the registry. -/
def clears (g : Registry) : Command → Bool
  | .sharedShutdown | .sharedDrop => g = shared
  | .ownedShutdown | .ownedDrop => g = owned
  | _ => false

end Registry

namespace Session

variable {s : Session} {g : Registry} {c : Command} {cs ds : List Command} {k : String}
  {x : Option ObjectId}

/-- What stands under a key of a registry: an object, or an unset handle. -/
def entryAt (s : Session) (k : String) : Registry → Option (Option ObjectId)
  | .shared => (s.shared.get? k).map Strong.target
  | .owned => (s.owned.get? k).map fun b => some b.object

/-- The key under which a command stores something in a registry, and what it stores. -/
def stores? (s : Session) (g : Registry) : Command → Option (String × Option ObjectId)
  | .sharedSet key src =>
    if g = .shared then (s.strong.get? src).map fun x => (key, x.target) else none
  | .sharedMake _ key _ =>
    if g = .shared ∧ s.entryAt key g = none then some (key, some s.heap.objects.next) else none
  | .ownedSet key _ => if g = .owned then some (key, some s.heap.objects.next) else none
  | .ownedMake key _ =>
    if g = .owned ∧ s.entryAt key g = none then some (key, some s.heap.objects.next) else none
  | _ => none

/-- What stands under a key after a command. -/
def entryAfter (s : Session) (g : Registry) (c : Command) (k : String) : Option (Option ObjectId) :=
  if g.clears c then none
  else
    match s.stores? g c with
    | some (key, x) => if key = k then some x else s.entryAt k g
    | none => s.entryAt k g

/-! ### One command -/

theorem entryAt_insert_shared (s : Session) (h : Heap Label) (r : Roster Strong) (key : String)
    (y : Strong) (g : Registry) (k : String) :
    { s with heap := h, strong := r, shared := s.shared.insert key y }.entryAt k g =
      if g = .shared ∧ key = k then some y.target else s.entryAt k g := by
  cases g with
  | shared => by_cases e : key = k <;> simp [entryAt, Roster.get?_insert, e]
  | owned => simp [entryAt]

theorem entryAt_insert_owned (s : Session) (h : Heap Label) (key : String) (b : Owned)
    (g : Registry) (k : String) : { s with heap := h, owned := s.owned.insert key b }.entryAt k g =
      if g = .owned ∧ key = k then some (some b.object) else s.entryAt k g := by
  cases g with
  | shared => simp [entryAt]
  | owned => by_cases e : key = k <;> simp [entryAt, Roster.get?_insert, e]

theorem linkTo_entryAt (s : Session) (o : ObjectId) (src : String) :
    Ends (fun t => ∀ g k, t.entryAt k g = s.entryAt k g) (s.linkTo o src) :=
  .bind fun _ => .bind fun _ => .bind fun _ => .ok fun _ _ => rfl

theorem watchFrom_entryAt (s : Session) (o : ObjectId) (src : String) :
    Ends (fun t => ∀ g k, t.entryAt k g = s.entryAt k g) (s.watchFrom o src) :=
  .bind fun _ => .bind fun _ => .bind fun _ => .ok fun _ _ => rfl

theorem plan_sharedSet (hs : s.Sound) (key src : String) :
    Ends (fun t => ∀ g k, t.entryAt k g = s.entryAfter g (.sharedSet key src) k)
      (s.plan (.sharedSet key src)) := by
  rcases s.strongAt_cases src with ⟨x, -, hk⟩ | e
  · obtain ⟨h₁, h₂, -, -, -, -, ep⟩ := sharedSet_clones hs hk key
    rw [ep]
    refine .ok fun g k => (entryAt_insert_shared s h₂ s.strong key x g k).trans ?_
    cases g <;> simp [entryAfter, stores?, Registry.clears, hk]
  · intro u eu
    simp [plan, e, bind, Except.bind] at eu

theorem plan_sharedMake (hs : s.Sound) (dst key : String) (label : Label) :
    Ends (fun t => ∀ g k, t.entryAt k g = s.entryAfter g (.sharedMake dst key label) k)
      (s.plan (.sharedMake dst key label)) := by
  have hs₀ := hs.perm s.perm_held_shared
  cases hk : s.shared.get? key with
  | some x =>
    obtain ⟨h, e, -⟩ := Roster.lendOrMake_of_get? (x := { value := label }) hk hs₀
    simp only [plan, e, bind, Except.bind]
    refine .ok fun g k => ?_
    have hno : s.stores? g (.sharedMake dst key label) = none := by
      cases g <;> simp [stores?, entryAt, hk]
    rw [entryAfter, hno]
    rfl
  | none =>
    obtain ⟨h, e, -⟩ := Roster.lendOrMake_of_get?_eq_none (x := { value := label }) hk rfl rfl hs₀
    simp only [plan, e, bind, Except.bind]
    refine .ok fun g k => (entryAt_insert_shared s h (s.strong.insert dst _) key
      ⟨some s.heap.objects.next⟩ g k).trans ?_
    cases g <;> simp [entryAfter, stores?, Registry.clears, entryAt, hk]

theorem plan_entryAt (hs : s.Sound) (hc : c.lawful = true) :
    Ends (fun t => ∀ g k, t.entryAt k g = s.entryAfter g c k) (s.plan c) := by
  cases c with
  | unset | drop | unbound | dropWeak => exact .ok fun _ _ => rfl
  | create => exact .map fun _ _ _ => rfl
  | leak => exact .map fun _ _ _ => rfl
  | pin | clone | share | upgrade | ownedShare | downgrade | observe | cloneWeak =>
    exact .bind fun _ => .map fun _ _ _ => rfl
  | assign dst src =>
    refine .bind fun _ => .bind fun _ => ?_
    split
    · exact .ok fun _ _ => rfl
    · exact .map fun _ _ _ => rfl
  | reset | resetWeak => exact .bind fun _ => .ok fun _ _ => rfl
  | kid => exact .bind fun _ => .bind fun _ => .bind fun _ => .map fun _ _ _ => rfl
  | unlink => exact .bind fun _ => .bind fun _ => .bind fun _ => .ok fun _ _ => rfl
  | unwatch => exact .bind fun _ => .bind fun _ => .ok fun _ _ => rfl
  | plain => exact .bind fun _ => .bind fun _ => .ok fun _ _ => rfl
  | sharedGet dst key =>
    refine .bind fun _ => ?_
    split
    · exact .ok fun _ _ => rfl
    · exact .ok fun _ _ => rfl
  | sharedSet key src => exact plan_sharedSet hs key src
  | sharedMake dst key label => exact plan_sharedMake hs dst key label
  | sharedShutdown | sharedDrop | ownedShutdown | ownedDrop =>
    exact .ok fun g _ => by cases g <;> rfl
  | ownedSet key label =>
    refine .ok fun g k => (entryAt_insert_owned s _ key _ g k).trans ?_
    cases g <;> simp [entryAfter, stores?, Registry.clears]
  | ownedMake key label =>
    cases hk : s.owned.get? key with
    | none =>
      simp only [plan, hk]
      refine .ok fun g k => (entryAt_insert_owned s _ key _ g k).trans ?_
      cases g <;> simp [entryAfter, stores?, Registry.clears, entryAt, hk]
    | some b =>
      simp only [plan, hk]
      refine .ok fun g k => ?_
      cases g <;> simp [entryAfter, stores?, Registry.clears, entryAt, hk]
  | swap => exact .of_exec (.bind fun _ => .bind fun _ => .ok fun _ _ => rfl)
  | compare => exact .of_exec (.bind fun _ => .bind fun _ => .ok fun _ _ => rfl)
  | inspect => exact .of_exec (.bind fun _ => .bind fun _ => .ok fun _ _ => rfl)
  | inspectWeak => exact .of_exec (.bind fun _ => .bind fun _ => .ok fun _ _ => rfl)
  | meets => exact .of_exec (.bind fun _ => .bind fun _ => .bind fun _ => .ok fun _ _ => rfl)
  | link => exact .of_exec (.bind fun _ => linkTo_entryAt s _ _)
  | watch => exact .of_exec (.bind fun _ => watchFrom_entryAt s _ _)
  | ownedLink => exact .of_exec (.bind fun _ => linkTo_entryAt s _ _)
  | sharedInfo | ownedInfo => exact .of_exec (.ok fun _ _ => rfl)
  | ownedGet key =>
    refine .of_exec ?_
    rw [exec]
    split
    · exact .ok fun _ _ => rfl
    · exact .bind fun _ => .ok fun _ _ => rfl
  | aliasShare | aliasObserve | aliasManage | tear => cases hc

/-- A command that does not find what it names leaves all entries as they are. -/
theorem entryAfter_of_not_resolves (hn : ¬ s.Resolves c) :
    s.entryAfter g c k = s.entryAt k g := by
  cases c with
  | sharedSet key src =>
    have hnone : s.strong.get? src = none := by
      rcases s.strongAt_cases src with ⟨x, e, -⟩ | e
      · exact absurd ⟨x, e⟩ hn
      · cases hk : s.strong.get? src with
        | none => rfl
        | some x => simp [strongAt, hk] at e
    cases g <;> simp [entryAfter, stores?, Registry.clears, hnone]
  | sharedMake | sharedShutdown | sharedDrop | ownedSet | ownedMake | ownedShutdown | ownedDrop =>
    exact absurd trivial hn
  | _ => rfl

/-- A command changes the entries of a registry as it changes the entries of a finite map. -/
theorem entryAt_step (hs : s.Sound) (hc : c.lawful = true) (g : Registry) (k : String) :
    (s.step c).1.entryAt k g = s.entryAfter g c k := by
  rcases exec_follows hs hc with ⟨t, pending, ep, hr, hend⟩ | ⟨-, er, hn⟩
  · obtain ⟨h, log, e, hs', -⟩ := hr.sound.release_passes
    obtain ⟨out, er, -⟩ := hend h log e hs'
    rw [step, er]
    exact plan_entryAt hs hc _ ep g k
  · rw [step, er]
    exact (entryAfter_of_not_resolves hn).symm

/-! ### Runs -/

/-- The commands `cs`, run from the session `s`, store nothing under a key, and none of them clears
the registry. -/
def Spares (s : Session) (g : Registry) (k : String) : List Command → Prop
  | [] => True
  | c :: cs => g.clears c = false ∧ (∀ x, s.stores? g c ≠ some (k, x)) ∧ (s.step c).1.Spares g k cs

/-- In the run `cs` something was stored under a key; it was the object `x` the last time, and the
registry was not cleared since. -/
def LastStored (cs : List Command) (g : Registry) (k : String) (x : Option ObjectId) : Prop :=
  ∃ pre c post, cs = pre ++ c :: post ∧ (run {} pre).stores? g c = some (k, x) ∧
    (run {} (pre ++ [c])).Spares g k post

theorem entryAfter_of_spared (h₁ : g.clears c = false) (h₂ : ∀ x, s.stores? g c ≠ some (k, x)) :
    s.entryAfter g c k = s.entryAt k g := by
  rw [entryAfter, if_neg (by simp [h₁])]
  split
  · next key x e =>
    rw [if_neg]
    rintro rfl
    exact h₂ x e
  · rfl

theorem not_clears_of_stores (h : s.stores? g c = some (k, x)) : g.clears c = false := by
  cases c with
  | sharedShutdown | sharedDrop | ownedShutdown | ownedDrop => cases h
  | _ => rfl

theorem entryAfter_of_stores (h : s.stores? g c = some (k, x)) :
    s.entryAfter g c k = some x := by
  rw [entryAfter, if_neg (by simp [not_clears_of_stores h]), h]
  exact if_pos rfl

/-- What stands under a key stays while nothing is stored there and the registry is not cleared. -/
theorem entryAt_run_of_spares (hs : s.Sound) (hcs : ∀ c ∈ cs, c.lawful = true)
    (h : s.Spares g k cs) : (s.run cs).entryAt k g = s.entryAt k g := by
  induction cs generalizing s with
  | nil => rfl
  | cons c cs ih =>
    obtain ⟨h₁, h₂, h₃⟩ := h
    have hc := hcs c List.mem_cons_self
    calc (s.run (c :: cs)).entryAt k g = (s.step c).1.entryAt k g :=
          ih (step_leads hs hc).1 (fun d hd => hcs d (List.mem_cons_of_mem _ hd)) h₃
      _ = s.entryAfter g c k := entryAt_step hs hc g k
      _ = s.entryAt k g := entryAfter_of_spared h₁ h₂

theorem spares_concat (h : s.Spares g k cs) (h₁ : g.clears c = false)
    (h₂ : ∀ x, (s.run cs).stores? g c ≠ some (k, x)) : s.Spares g k (cs ++ [c]) := by
  induction cs generalizing s with
  | nil => exact ⟨h₁, h₂, trivial⟩
  | cons d cs ih => exact ⟨h.1, h.2.1, ih h.2.2 h₂⟩

theorem LastStored.concat (h : LastStored cs g k x) (h₁ : g.clears c = false)
    (h₂ : ∀ x, (run {} cs).stores? g c ≠ some (k, x)) : LastStored (cs ++ [c]) g k x := by
  obtain ⟨pre, d, post, rfl, hd, hpost⟩ := h
  refine ⟨pre, d, post ++ [c], by simp, hd, spares_concat hpost h₁ ?_⟩
  rwa [← run_append, List.append_assoc, List.singleton_append]

/-- What stands under a key after a run is what was stored there last, since the registry was last
cleared. -/
theorem entryAt_run_iff (hcs : ∀ c ∈ cs, c.lawful = true) :
    (run {} cs).entryAt k g = some x ↔ LastStored cs g k x := by
  constructor
  · intro h
    induction cs using List.reverseRecOn with
    | nil => cases g <;> cases h
    | append_singleton ds c ih =>
      have hds : ∀ c ∈ ds, c.lawful = true := fun c hc => hcs c (List.mem_append_left _ hc)
      have hc := hcs c (List.mem_append_right _ List.mem_cons_self)
      have hrun : run {} (ds ++ [c]) = ((run {} ds).step c).1 := run_append _ _ _
      rw [hrun, entryAt_step (run_leads sound_empty hds).1 hc] at h
      by_cases hst : ∃ y, (run {} ds).stores? g c = some (k, y)
      · obtain ⟨y, hst⟩ := hst
        rw [entryAfter_of_stores hst] at h
        obtain rfl := Option.some.inj h
        exact ⟨ds, c, [], rfl, hst, trivial⟩
      · have hst := not_exists.1 hst
        have hcl : g.clears c = false := by
          rw [← Bool.not_eq_true]
          intro hcl
          rw [entryAfter, if_pos hcl] at h
          cases h
        rw [entryAfter_of_spared hcl hst] at h
        exact (ih hds h).concat hcl hst
  · rintro ⟨pre, c, post, rfl, hst, hpost⟩
    have hpre : ∀ c ∈ pre, c.lawful = true := fun c hc => hcs c (List.mem_append_left _ hc)
    have hc := hcs c (List.mem_append_right _ List.mem_cons_self)
    have hs := (run_leads sound_empty hpre).1
    have hrun : run {} (pre ++ [c]) = ((run {} pre).step c).1 := run_append _ _ _
    calc (run {} (pre ++ c :: post)).entryAt k g
        = ((run {} (pre ++ [c])).run post).entryAt k g := by
          rw [← run_append, List.append_assoc, List.singleton_append]
      _ = (run {} (pre ++ [c])).entryAt k g := by
          refine entryAt_run_of_spares ?_ (fun d hd => ?_) hpost
          · rw [hrun]
            exact (step_leads hs hc).1
          · exact hcs d (List.mem_append_right _ (List.mem_cons_of_mem _ hd))
      _ = (run {} pre).entryAfter g c k := by rw [hrun, entryAt_step hs hc]
      _ = some x := entryAfter_of_stores hst

end Session

end Custody
