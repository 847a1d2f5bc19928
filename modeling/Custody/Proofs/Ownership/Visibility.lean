import Custody.Proofs.Ownership.Moments

/-!
# What weak handles show

A weak handle shows its object exactly as long as a strong handle holds it.  `weak_sees` says so of
every moment of a run, also of those at which dropped objects report: `Heap.ShowsLiving` and
`Heap.ShowsGone` are what the operations on the handle come to in the one case and the other.  A
weak handle kept under a name is the same at all moments until a command replaces it
(`trace_weak`).
-/

namespace Custody

open Heap (dropped)

namespace Heap

variable {α : Type} {h : Heap α} {hs : List Handle} {c : CounterId} {o : ObjectId} {x : Object α}
  {k : Counter}

/-- What a weak handle bound to the counter `c` shows while its object `o` is held. -/
structure ShowsLiving (h : Heap α) (c : CounterId) (o : ObjectId) : Prop where
  existing : h.objectExists ⟨some c⟩ = .ok true
  visible : h.visible ⟨some c⟩ = .ok (some o)
  upgrade : h.upgrade ⟨some c⟩ = .ok (h.countStrong c, ⟨some o⟩)
  cloneWeak : h.cloneWeak ⟨some c⟩ = .ok (h.countWeak c, ⟨some c⟩)

/-- What a weak handle bound to the counter `c` shows once its object is not held any more. -/
structure ShowsGone (h : Heap α) (c : CounterId) : Prop where
  existing : h.objectExists ⟨some c⟩ = .ok false
  visible : h.visible ⟨some c⟩ = .ok none
  upgrade : h.upgrade ⟨some c⟩ = .ok (h, ⟨none⟩)
  cloneWeak : h.cloneWeak ⟨some c⟩ = .ok (h, ⟨none⟩)

theorem boundTo_eq (hk : h.counters.get? c = some k) : h.boundTo ⟨some c⟩ = .ok (some k) := by
  simp [boundTo, counter_eq_ok_iff.2 hk, Functor.map, Except.map]

theorem Balanced.showsLiving (hb : h.Balanced hs) (hx : h.objects.get? o = some x)
    (hc : x.slot = some c) : h.ShowsLiving c o := by
  have hv := hb.visible_of_slot hx hc
  refine ⟨?_, hv, ?_, hb.observeCounter_of_slot hx hc⟩
  · simp [objectExists, boundTo_eq (hb.attached hx hc).2, tally, bind, Except.bind]
  · simp [Heap.upgrade, hv, hb.share_of_slot hx hc, bind, Except.bind]

theorem Balanced.showsGone (hb : h.Balanced hs) (hk : h.counters.get? c = some k)
    (hl : k.living = none) : h.ShowsGone c := by
  obtain ⟨-, rfl⟩ := hb.eq_remnant_of_living hk hl
  have hv : h.visible ⟨some c⟩ = .ok none := by
    simp [Heap.visible, boundTo_eq hk, bind, Except.bind]
  refine ⟨?_, hv, ?_, ?_⟩
  · simp [objectExists, boundTo_eq hk, remnant, bind, Except.bind]
  · simp [Heap.upgrade, hv, bind, Except.bind]
  · simp [Heap.cloneWeak, Heap.observeCounter, counter_eq_ok_iff.2 hk, remnant, bind, Except.bind]

end Heap

/-- Whether a command replaces the weak handle kept under `name` or gives it up. -/
def Command.rebinds (name : String) : Command → Bool
  | .unbound dst | .downgrade dst _ | .observe dst _ | .cloneWeak dst _ | .resetWeak dst
  | .dropWeak dst => dst = name
  | _ => false

namespace Session

variable {s t : Session} {c : Command} {cs : List Command} {pending : List Handle}
  {name dst : String} {w : Weak} {m m' : Moment} {o : ObjectId} {d : CounterId} {k : Counter}

/-! ### Weak handles under names -/

/-- Whatever session `r` comes to keeps what `s` keeps as a weak handle under `name`. -/
def Retains {γ : Type} (s : Session) (name : String) (r : Except Fault (Session × γ)) : Prop :=
  ∀ u, r = .ok u → u.1.weak.get? name = s.weak.get? name

namespace Retains

variable {β γ : Type} {x : Except Fault β}

theorem ok {u : Session × γ} (e : u.1.weak.get? name = s.weak.get? name) :
    s.Retains name (.ok u) := Ends.ok (P := fun t => t.weak.get? name = s.weak.get? name) e

theorem bind {f : β → Except Fault (Session × γ)} (hf : ∀ b, s.Retains name (f b)) :
    s.Retains name (x >>= f) := Ends.bind (P := fun t => t.weak.get? name = s.weak.get? name) hf

theorem map {f : β → Session × γ} (hf : ∀ b, (f b).1.weak.get? name = s.weak.get? name) :
    s.Retains name (f <$> x) := Ends.map (P := fun t => t.weak.get? name = s.weak.get? name) hf

/-- A command that releases nothing keeps what its work keeps. -/
theorem of_exec {r : Except Fault (Session × Outcome)} (hr : s.Retains name r) :
    s.Retains name (r >>= fun r => .ok (r.1, ([] : List Handle))) :=
  Ends.of_exec (P := fun t => t.weak.get? name = s.weak.get? name) hr

end Retains

theorem weak_insert (hn : decide (dst = name) = false) (w : Weak) :
    (s.weak.insert dst w).get? name = s.weak.get? name := by
  rw [Roster.get?_insert, if_neg (of_decide_eq_false hn)]

theorem linkTo_retains (s : Session) (name : String) (o : ObjectId) (src : String) :
    s.Retains name (s.linkTo o src) :=
  .bind fun _ => .bind fun _ => .bind fun _ => .ok rfl

theorem watchFrom_retains (s : Session) (name : String) (o : ObjectId) (src : String) :
    s.Retains name (s.watchFrom o src) :=
  .bind fun _ => .bind fun _ => .bind fun _ => .ok rfl

theorem plan_retains (hc : c.lawful = true) (hn : c.rebinds name = false) :
    s.Retains name (s.plan c) := by
  cases c with
  | unset | drop | sharedShutdown | sharedDrop | ownedSet | ownedShutdown | ownedDrop =>
    exact .ok rfl
  | create => exact .map fun _ => rfl
  | leak => exact .map fun _ => rfl
  | pin | clone | share | upgrade | ownedShare => exact .bind fun _ => .map fun _ => rfl
  | assign dst src =>
    refine .bind fun _ => .bind fun _ => ?_
    split
    · exact .ok rfl
    · exact .map fun _ => rfl
  | reset => exact .bind fun _ => .ok rfl
  | unbound => exact .ok (weak_insert hn _)
  | downgrade | observe | cloneWeak => exact .bind fun _ => .map fun _ => weak_insert hn _
  | resetWeak => exact .bind fun _ => .ok (weak_insert hn _)
  | dropWeak dst =>
    refine .ok ?_
    rw [Roster.get?_erase, if_neg (of_decide_eq_false hn)]
  | kid => exact .bind fun _ => .bind fun _ => .bind fun _ => .map fun _ => rfl
  | unlink => exact .bind fun _ => .bind fun _ => .bind fun _ => .ok rfl
  | unwatch => exact .bind fun _ => .bind fun _ => .ok rfl
  | plain => exact .bind fun _ => .bind fun _ => .ok rfl
  | sharedSet => exact .bind fun _ => .bind fun _ => .bind fun _ => .ok rfl
  | sharedGet dst key =>
    refine .bind fun _ => ?_
    split
    · exact .ok rfl
    · exact .ok rfl
  | sharedMake => exact .bind fun _ => .ok rfl
  | ownedMake key label =>
    rw [plan]
    split
    · exact .ok rfl
    · exact .ok rfl
  | swap => exact .of_exec (.bind fun _ => .bind fun _ => .ok rfl)
  | compare => exact .of_exec (.bind fun _ => .bind fun _ => .ok rfl)
  | inspect => exact .of_exec (.bind fun _ => .bind fun _ => .ok rfl)
  | inspectWeak => exact .of_exec (.bind fun _ => .bind fun _ => .ok rfl)
  | meets => exact .of_exec (.bind fun _ => .bind fun _ => .bind fun _ => .ok rfl)
  | link => exact .of_exec (.bind fun _ => linkTo_retains s name _ _)
  | watch => exact .of_exec (.bind fun _ => watchFrom_retains s name _ _)
  | ownedLink => exact .of_exec (.bind fun _ => linkTo_retains s name _ _)
  | sharedInfo | ownedInfo => exact .of_exec (.ok rfl)
  | ownedGet key =>
    refine .of_exec ?_
    rw [exec]
    split
    · exact .ok rfl
    · exact .bind fun _ => .ok rfl
  | aliasShare | aliasObserve | aliasManage | tear => cases hc

/-- A weak handle kept under a name is there at all moments of commands that do not replace it. -/
theorem trace_weak (hs : s.Sound) (hcs : ∀ c ∈ cs, c.lawful = true)
    (hn : ∀ c ∈ cs, c.rebinds name = false) (hw : s.weak.get? name = some w) :
    ∀ m ∈ s.trace cs, .weak w ∈ m.handles := by
  have here : ∀ {s : Session}, s.weak.get? name = some w → .weak w ∈ s.moment.handles := fun hw =>
    List.mem_append_left _ (weak_mem_held hw)
  induction cs generalizing s with
  | nil =>
    intro m hm
    obtain rfl := List.mem_singleton.1 hm
    exact here hw
  | cons c cs ih =>
    have hc := hcs c List.mem_cons_self
    have hret := plan_retains (s := s) hc (hn c List.mem_cons_self)
    have hnext : (s.step c).1.weak.get? name = some w := by
      rcases exec_follows hs hc with ⟨t, pending, ep, hr, hend⟩ | ⟨-, er, -⟩
      · obtain ⟨h, log, e, hs', -⟩ := hr.sound.release_passes
        obtain ⟨out, er, -⟩ := hend h log e hs'
        rw [step, er]
        exact (hret _ ep).trans hw
      · rw [step, er]
        exact hw
    intro m hm
    rcases List.mem_cons.1 hm with rfl | hm
    · exact here hw
    rcases List.mem_append.1 hm with hm | hm
    · rw [within] at hm
      split at hm
      · next t pending ep =>
        exact subset_of_mem_scenes hm
          (List.mem_append_left _ (weak_mem_held ((hret _ ep).trans hw)))
      · cases hm
    · exact ih (step_leads hs hc).1 (fun d hd => hcs d (List.mem_cons_of_mem _ hd))
        (fun d hd => hn d (List.mem_cons_of_mem _ hd)) hnext m hm

/-! ### Weak handles at one moment -/

/-- At a moment at which nothing holds the object of a counter, the counter names no object. -/
theorem EverManaged.not_living (hm : EverManaged cs o d) (hcs : ∀ c ∈ cs, c.lawful = true)
    (hmem : m ∈ life cs) (hk : m.heap.counters.get? d = some k) (ho : .holding o ∉ m.handles) :
    k.living = none := by
  have hb := ((life_spec hcs).1 m hmem).1
  refine Option.eq_none_iff_forall_ne_some.2 fun p hl => ho ?_
  obtain rfl := hm.eq_of_living_at hcs hmem hk hl
  obtain ⟨x, hx, hd⟩ := Heap.Balanced.slot_of_living hb hk hl
  simpa using (Heap.Balanced.attached hb hx hd).1

/-- What a weak handle bound to the counter of an object shows at a moment. -/
theorem EverManaged.shows (hm : EverManaged cs o d) (hcs : ∀ c ∈ cs, c.lawful = true)
    (hmem : m ∈ life cs) (hd : .watching d ∈ m.handles) :
    (∃ k, m.heap.boundTo ⟨some d⟩ = .ok (some k)) ∧
      (.holding o ∈ m.handles → m.heap.ShowsLiving d o) ∧
      (.holding o ∉ m.handles → m.heap.ShowsGone d) := by
  have hb := ((life_spec hcs).1 m hmem).1
  obtain ⟨k, hk⟩ := Heap.Balanced.bound hb (List.mem_append_right _ hd)
  refine ⟨⟨k, Heap.boundTo_eq hk⟩, fun ho => ?_, fun ho => ?_⟩
  · obtain ⟨x, hx, hslot⟩ := hm.slot_at hcs hmem ho
    exact Heap.Balanced.showsLiving hb hx hslot
  · exact Heap.Balanced.showsGone hb hk (hm.not_living hcs hmem hk ho)

/-- An object that is not held any more is not held at a later moment. -/
theorem EverManaged.stays_gone (hm : EverManaged cs o d) (hcs : ∀ c ∈ cs, c.lawful = true)
    (hmem : m ∈ life cs) (hmem' : m' ∈ life cs) (hlead : m.Before m')
    (hd : .watching d ∈ m.handles) (ho : .holding o ∉ m.handles) : .holding o ∉ m'.handles := by
  intro ho'
  have hb := ((life_spec hcs).1 m hmem).1
  have hb' := ((life_spec hcs).1 m' hmem').1
  obtain ⟨k, hk⟩ := Heap.Balanced.bound hb (List.mem_append_right _ hd)
  obtain ⟨x, hx, hslot⟩ := hm.slot_at hcs hmem' ho'
  obtain ⟨k', hk', hl'⟩ := Heap.Balanced.living_of_slot hb' hx hslot
  obtain ⟨gone, hlead⟩ := hlead
  rw [← m.settled_counters] at hk
  rw [← m'.settled_counters] at hk'
  obtain ⟨k₁, hk₁, hl₁⟩ := hlead.counter (Slab.lt_next_of_get? hk) hk'
  rw [m.settled_counters] at hk₁
  have hnone := hm.not_living hcs hmem hk₁ ho
  rw [hl₁ o hl'] at hnone
  cases hnone

theorem dying_not_held (hcs : ∀ c ∈ cs, c.lawful = true) (hmem : m ∈ life cs) (ho : o ∈ m.dying) :
    .holding o ∉ m.handles := by
  have hb := ((life_spec hcs).1 m hmem).1
  have hown : .owner o ∈ m.dying.toList.map .owner ++ m.handles := by
    rw [Option.mem_def.1 ho]
    exact List.mem_cons_self
  exact fun hh => (Heap.Balanced.owned hb hown).2.1 (List.mem_append_right _ hh)

/-! ### Weak handles in a run -/

/-- At every moment of a run of commands that respect the slots, a weak handle is bound to a counter
that has managed exactly one object. While a strong handle holds that object, the weak handle shows
it; when none does, the weak handle shows that it is gone. The latter is so already when the object
itself reports that it is dropped, and it stays so at all later moments. A weak handle kept under a
name stays what it is until a command replaces it. The moments are those between two commands and
those at which the objects report that the commands and the end of the session drop. -/
theorem weak_sees (cs : List Command) (hcs : ∀ c ∈ cs, c.lawful = true) :
    (∀ m ∈ life cs, ∀ c, .watching c ∈ m.handles → ∃ o, (∀ p, EverManaged cs p c ↔ p = o) ∧
      (∃ k, m.heap.boundTo ⟨some c⟩ = .ok (some k)) ∧
      (.holding o ∈ m.handles → m.heap.ShowsLiving c o) ∧
      (.holding o ∉ m.handles → m.heap.ShowsGone c)) ∧
    (∀ m ∈ life cs, ∀ o ∈ m.dying, .holding o ∉ m.handles) ∧
    (life cs).Pairwise (fun m m' => ∀ o c, EverManaged cs o c → .watching c ∈ m.handles →
      .holding o ∉ m.handles → .holding o ∉ m'.handles) ∧
    (∀ pre post name w, pre ++ post = cs → (∀ c ∈ post, c.rebinds name = false) →
      (run {} pre).weak.get? name = some w →
      ∀ m ∈ (run {} pre).trace post, m ∈ life cs ∧ .weak w ∈ m.handles) ∧
    ∃ r, (run {} cs).close = .ok r ∧ ((life cs).filterMap Moment.dying).Perm
      (dropped (drops {} cs ++ (r.strong ++ r.shared ++ r.owned))) := by
  obtain ⟨hlife, hpw, hdrops⟩ := life_spec hcs
  refine ⟨fun m hmem c hc => ?_, fun m hmem o ho => dying_not_held hcs hmem ho, ?_, ?_, hdrops⟩
  · obtain ⟨hb, hman⟩ := hlife m hmem
    obtain ⟨k, hk⟩ := Heap.Balanced.bound hb (List.mem_append_right _ hc)
    obtain ⟨o, ho⟩ := hman hk
    exact ⟨o, fun p => ⟨fun hp => ho.unique hp hcs, fun e => e ▸ ho⟩, ho.shows hcs hmem hc⟩
  · exact hpw.imp_of_mem fun hmem hmem' hlead o c ho hc hgone =>
      ho.stays_gone hcs hmem hmem' hlead hc hgone
  · rintro pre post name w rfl hn hw m hm
    have hs := (run_leads sound_empty fun c hc => hcs c (List.mem_append_left _ hc)).1
    exact ⟨List.mem_append_left _ (trace_subset {} pre post hm),
      trace_weak hs (fun c hc => hcs c (List.mem_append_right _ hc)) hn hw m hm⟩

theorem weak_sees_pair : ∃ m ∈ life (pairRun ++ [.drop "a"]),
    m.dying = some 0 ∧ .watching 0 ∈ m.handles ∧ m.heap.ShowsGone 0 := by
  obtain ⟨hsee, hdying, -⟩ := weak_sees (pairRun ++ [.drop "a"]) (by decide)
  have hex : ∃ m ∈ life (pairRun ++ [.drop "a"]), m.dying = some 0 ∧ .watching 0 ∈ m.handles := by
    decide +kernel
  obtain ⟨m, hm, hd, hw⟩ := hex
  obtain ⟨o, hiff, -, -, hgone⟩ := hsee m hm 0 hw
  have hslot : ((run {} [.create "a" 1]).heap.objects.get? 0).map Object.slot = some (some 0) := by
    decide +kernel
  obtain ⟨x, hx, hs⟩ := Option.map_eq_some_iff.1 hslot
  obtain rfl : 0 = o := (hiff 0).1 ⟨[.create "a" 1], x, ⟨_, rfl⟩, hx, hs⟩
  exact ⟨m, hm, hd, hw, hgone (hdying m hm 0 hd)⟩

end Session

end Custody
