import Custody.Proofs.Ownership.Session

/-!
# Commands and runs keep the books

The commands that respect the slots of the objects (`Command.lawful`) go by their plans
(`exec_follows`).  So they keep a session sound, and they come to their end whenever everything they
name is there (`Session.Resolves`): `exec_answers` is the step, `run_leads` the run.
-/

namespace Custody

open Heap (dropped)

/-- Whether the objects that a command deals with respect the slots: none reports the slot of
another as its own, and none gets a new slot. -/
def Command.lawful : Command → Bool
  | .aliasShare _ | .aliasObserve _ | .aliasManage _ | .tear _ => false
  | _ => true

namespace Session

variable {s : Session} {c : Command} {cs : List Command}

/-- The object of the handle under `name` stores a strong handle at the position `i`. -/
def HasKid (s : Session) (name : String) (i : Nat) : Prop :=
  ∃ o x, s.objectAt name = .ok o ∧ s.heap.object o = .ok x ∧ i < x.kids.length

/-- Everything that a command names is there. -/
def Resolves (s : Session) : Command → Prop
  | .clone _ src | .downgrade _ src | .sharedSet _ src | .reset src | .inspect src =>
    ∃ x, s.strongAt src = .ok x
  | .pin _ src | .share _ src | .observe _ src | .unwatch src | .aliasShare src
  | .aliasObserve src | .aliasManage src | .tear src => ∃ o, s.objectAt src = .ok o
  | .upgrade _ src | .cloneWeak _ src | .resetWeak src | .inspectWeak src =>
    ∃ w, s.weakAt src = .ok w
  | .assign dst src => (∃ x, s.strongAt dst = .ok x) ∧ ∀ n ∈ src, ∃ y, s.strongAt n = .ok y
  | .swap a b | .compare a b => (∃ x, s.strongAt a = .ok x) ∧ ∃ y, s.strongAt b = .ok y
  | .meets w x => (∃ v, s.weakAt w = .ok v) ∧ ∃ y, s.strongAt x = .ok y
  | .link name src | .watch name src =>
    (∃ o, s.objectAt name = .ok o) ∧ ∃ x, s.strongAt src = .ok x
  | .kid _ name i | .unlink name i => s.HasKid name i
  | .ownedShare _ key => ∃ o, s.ownedAt key = .ok o
  | .ownedLink key src => (∃ o, s.ownedAt key = .ok o) ∧ ∃ x, s.strongAt src = .ok x
  | .create .. | .unset .. | .leak .. | .drop .. | .unbound .. | .dropWeak .. | .plain ..
  | .sharedGet .. | .sharedMake .. | .sharedInfo .. | .sharedShutdown | .sharedDrop
  | .ownedSet .. | .ownedGet .. | .ownedMake .. | .ownedInfo .. | .ownedShutdown
  | .ownedDrop => True

theorem HasKid.named {name : String} {i : Nat} (hk : s.HasKid name i) :
    ∃ o, s.objectAt name = .ok o := by
  obtain ⟨o, x, e, -⟩ := hk
  exact ⟨o, e⟩

theorem not_hasKid {name : String} {i : Nat} {o : ObjectId} {x : Object Label}
    (e : s.objectAt name = .ok o) (hx : s.heap.objects.get? o = some x) (hi : x.kids[i]? = none) :
    ¬ s.HasKid name i := by
  rintro ⟨p, y, e', ey, hlt⟩
  obtain rfl := Except.ok.inj (e.symm.trans e')
  obtain rfl := Except.ok.inj ((Heap.object_eq_ok_iff.2 hx).symm.trans ey)
  rw [List.getElem?_eq_none_iff] at hi
  omega

/-! ### Looking for what is named -/

/-- Work that started with the heap `h` is done, or it stops because what it names is not there. -/
def Answers (h : Heap Label) (r : Except Fault (Session × Outcome)) (named : Prop) : Prop :=
  Proceeds h r ∨ r = .error .notFound ∧ ¬ named

/-- Work that started with the heap `h` goes by the plan `p`, or both stop because what the work
names is not there. -/
def Follows (h : Heap Label) (p : Except Fault (Session × List Handle))
    (r : Except Fault (Session × Outcome)) (named : Prop) : Prop :=
  Performs h p r ∨ p = .error .notFound ∧ r = .error .notFound ∧ ¬ named

/-- Work that releases nothing is done, or it stops because what it names is not there. -/
def Settles (h : Heap Label) (r : Except Fault (Session × Outcome)) (named : Prop) : Prop :=
  (∃ (t : Session) (reply : Reply), r = .ok (t, ⟨reply, []⟩) ∧ t.Sound ∧ h.Passes [] t.heap) ∨
    r = .error .notFound ∧ ¬ named

variable {h : Heap Label} {p : Except Fault (Session × List Handle)}
  {r : Except Fault (Session × Outcome)} {named : Prop}

theorem Follows.answers (hf : Follows h p r named) : Answers h r named :=
  hf.imp Performs.proceeds fun ⟨_, hr⟩ => hr

theorem Settles.follows (hq : Settles h r named) :
    Follows h (r >>= fun x => .ok (x.1, [])) r named := by
  rcases hq with ⟨t, reply, e, hs, hl⟩ | ⟨e, hn⟩
  · exact .inl (.of_exec e hs hl)
  · exact .inr ⟨by simp [e, bind, Except.bind], e, hn⟩

/-- Work that begins by looking for something it names. -/
theorem Follows.lookup {β : Type} {find : Except Fault β}
    {start : β → Except Fault (Session × List Handle)}
    {act : β → Except Fault (Session × Outcome)} {found : β → Prop}
    (hf : (∃ b, find = .ok b ∧ found b) ∨ find = .error .notFound)
    (hn : named → ∃ b, find = .ok b)
    (ha : ∀ b, find = .ok b → found b → Follows h (start b) (act b) named) :
    Follows h (find >>= start) (find >>= act) named := by
  rcases hf with ⟨b, rfl, hb⟩ | rfl
  · exact ha b rfl hb
  · refine .inr ⟨rfl, rfl, fun hp => ?_⟩
    obtain ⟨b, e⟩ := hn hp
    cases e

theorem Settles.lookup {β : Type} {find : Except Fault β}
    {act : β → Except Fault (Session × Outcome)} {found : β → Prop}
    (hf : (∃ b, find = .ok b ∧ found b) ∨ find = .error .notFound)
    (hn : named → ∃ b, find = .ok b)
    (ha : ∀ b, find = .ok b → found b → Settles h (act b) named) :
    Settles h (find >>= act) named := by
  rcases hf with ⟨b, rfl, hb⟩ | rfl
  · exact ha b rfl hb
  · refine .inr ⟨rfl, fun hp => ?_⟩
    obtain ⟨b, e⟩ := hn hp
    cases e

theorem settles_same (hs : s.Sound) (reply : Reply) :
    Settles s.heap (.ok (s, ⟨reply, []⟩)) named :=
  .inl ⟨s, reply, rfl, hs, .refl _⟩

theorem keep_taken {taken : Except Fault (Heap Label × Strong)} {h : Heap Label} {x : Strong}
    (e : taken = .ok (h, x)) (ht : s.heap.Takes (s.held ++ s.heap.stored) (.strong x) h)
    (dst : String) : Performs s.heap (s.replace dst <$> taken) (taken >>= s.keep dst) := by
  subst e
  exact .of_takes ht (keep_performs ht.sound dst)

theorem keepWeak_taken {taken : Except Fault (Heap Label × Weak)} {h : Heap Label} {w : Weak}
    (e : taken = .ok (h, w)) (ht : s.heap.Takes (s.held ++ s.heap.stored) (.weak w) h)
    (dst : String) : Performs s.heap (s.replaceWeak dst <$> taken) (taken >>= s.keepWeak dst) := by
  subst e
  exact .of_takes ht (keepWeak_performs ht.sound dst)

theorem linkTo_settles {o : ObjectId} {y : Object Label} {src : String} (hs : s.Sound)
    (hy : s.heap.objects.get? o = some y) (hn : named → ∃ x, s.strongAt src = .ok x) :
    Settles s.heap (s.linkTo o src) named := by
  rcases s.strongAt_cases src with ⟨x, -, hk⟩ | e
  · obtain ⟨t, e, hs', hl⟩ := linkTo_ok hs hy hk
    exact .inl ⟨t, _, e, hs', hl⟩
  · refine .inr ⟨by simp [linkTo, e, bind, Except.bind], fun hp => ?_⟩
    obtain ⟨x, e'⟩ := hn hp
    rw [e] at e'
    cases e'

theorem watchFrom_settles {o : ObjectId} {y : Object Label} {src : String} (hs : s.Sound)
    (hy : s.heap.objects.get? o = some y) (hn : named → ∃ x, s.strongAt src = .ok x) :
    Settles s.heap (s.watchFrom o src) named := by
  rcases s.strongAt_cases src with ⟨x, -, hk⟩ | e
  · obtain ⟨t, e, hs', hl⟩ := watchFrom_ok hs hy hk
    exact .inl ⟨t, _, e, hs', hl⟩
  · refine .inr ⟨by simp [watchFrom, e, bind, Except.bind], fun hp => ?_⟩
    obtain ⟨x, e'⟩ := hn hp
    rw [e] at e'
    cases e'

theorem assign_follows (hs : s.Sound) (dst : String) (src : Option String) :
    Follows s.heap (s.plan (.assign dst src)) (s.exec (.assign dst src))
      (s.Resolves (.assign dst src)) := by
  rcases s.strongAt_cases dst with ⟨x, ex, hk⟩ | e
  · cases src with
    | none => exact .inl (assign_performs hs hk rfl (.inr rfl))
    | some n =>
      rcases s.strongAt_cases n with ⟨y, ey, hy⟩ | e
      · exact .inl (assign_performs hs hk ey (.inl (strong_mem_held hy)))
      · exact .inr ⟨by simp [plan, ex, e, bind, Except.bind],
          by simp [exec, ex, e, bind, Except.bind], by simp [Resolves, e]⟩
  · exact .inr ⟨by simp [plan, e, bind, Except.bind], by simp [exec, e, bind, Except.bind],
      by simp [Resolves, e]⟩

theorem kid_follows (hs : s.Sound) (dst src : String) (i : Nat) :
    Follows s.heap (s.plan (.kid dst src i)) (s.exec (.kid dst src i))
      (s.Resolves (.kid dst src i)) := by
  refine .lookup (s.objectAt_cases src) HasKid.named fun o eo ho => ?_
  obtain ⟨y, hy⟩ := there_of_strong hs ho
  have ey := Heap.object_eq_ok_iff.2 hy
  cases hi : y.kids[i]? with
  | none =>
    simp only [ey, hi, bind, Except.bind]
    exact .inr ⟨rfl, rfl, not_hasKid eo hy hi⟩
  | some x =>
    obtain ⟨h, e, ht⟩ := Heap.Balanced.clone hs (List.mem_append_right _
      (Heap.mem_stored_of_mem_kids hy (List.mem_of_getElem? hi)))
    simp only [ey, hi, bind, Except.bind]
    exact .inl (keep_taken e ht dst)

theorem unlink_follows (hs : s.Sound) (name : String) (i : Nat) :
    Follows s.heap (s.plan (.unlink name i)) (s.exec (.unlink name i))
      (s.Resolves (.unlink name i)) := by
  refine .lookup (s.objectAt_cases name) HasKid.named fun o eo ho => ?_
  obtain ⟨y, hy⟩ := there_of_strong hs ho
  have ey := Heap.object_eq_ok_iff.2 hy
  cases hi : y.kids[i]? with
  | none =>
    exact .inr ⟨by simp [ey, hi, bind, Except.bind],
      by simp [unlinkFrom, ey, hi, bind, Except.bind], not_hasKid eo hy hi⟩
  | some x =>
    simp only [ey, hi, bind, Except.bind]
    exact .inl (unlinkFrom_performs hs hy hi)

theorem ownedGet_settles (hs : s.Sound) (key : String) :
    Settles s.heap (s.exec (.ownedGet key)) (s.Resolves (.ownedGet key)) := by
  cases hk : s.owned.get? key with
  | none =>
    simp only [exec, hk]
    exact settles_same hs _
  | some b =>
    obtain ⟨x, hx⟩ := there_of_owned hs hk
    simp only [exec, hk, Heap.object_eq_ok_iff.2 hx, bind, Except.bind]
    exact settles_same hs _

theorem ownedMake_performs (hs : s.Sound) (key : String) (label : Label) :
    Performs s.heap (s.plan (.ownedMake key label)) (s.exec (.ownedMake key label)) := by
  cases hk : s.owned.get? key with
  | none =>
    simp only [plan, exec, hk]
    exact ownNew_performs hs key label _
  | some b =>
    obtain ⟨x, hx⟩ := there_of_owned hs hk
    simp only [plan, exec, hk, Heap.object_eq_ok_iff.2 hx, bind, Except.bind]
    exact performs_same hs _

/-! ### One command -/

/-- A command that respects the slots goes by its plan, or stops because something it names is not
there. -/
theorem exec_follows (hs : s.Sound) (hc : c.lawful = true) :
    Follows s.heap (s.plan c) (s.exec c) (s.Resolves c) := by
  have hm : ∀ {t}, t ∈ s.held → t ∈ s.held ++ s.heap.stored := List.mem_append_left _
  cases c with
  | create dst label => exact .inl (create_performs hs dst label)
  | unset dst => exact .inl (keep_performs (Heap.Balanced.cons_unset_iff.2 hs) dst)
  | leak dst label => exact .inl (leak_performs hs dst label)
  | pin dst src =>
    refine .lookup (s.objectAt_cases src) id fun o _ hk => .inl ?_
    obtain ⟨x, hx⟩ := there_of_strong hs hk
    obtain ⟨h, e, ht⟩ := Heap.Balanced.pin hs hx
      (Heap.Balanced.owner_not_mem_of_holding hs (hm (strong_mem_held hk)))
    exact keep_taken e ht dst
  | clone dst src =>
    refine .lookup (s.strongAt_cases src) id fun x _ hk => .inl ?_
    obtain ⟨h, e, ht⟩ := Heap.Balanced.clone hs (hm (strong_mem_held hk))
    exact keep_taken e ht dst
  | share dst src =>
    refine .lookup (s.objectAt_cases src) id fun o _ hk => .inl ?_
    obtain ⟨x, hx⟩ := there_of_strong hs hk
    obtain ⟨h, y, e, ht⟩ := Heap.Balanced.share hs hx
    exact keep_taken e ht dst
  | upgrade dst src =>
    refine .lookup (s.weakAt_cases src) id fun w _ hk => .inl ?_
    obtain ⟨h, x, e, ht⟩ := Heap.Balanced.upgrade hs (hm (weak_mem_held hk))
    exact keep_taken e ht dst
  | assign dst src => exact assign_follows hs dst src
  | reset name =>
    exact .lookup (s.strongAt_cases name) id fun x _ hk => .inl (reset_performs hs hk)
  | drop name => exact .inl (drop_performs hs name)
  | swap a b =>
    refine (Settles.lookup (s.strongAt_cases a) And.left fun x _ ha => ?_).follows
    refine .lookup (s.strongAt_cases b) And.right fun y _ hb => .inl ?_
    exact ⟨{ s with strong := (s.strong.insert a y).insert b x }, .nothing, rfl,
      Heap.Sound.perm hs (perm_held_swap ha hb), .refl _⟩
  | compare a b =>
    refine (Settles.lookup (s.strongAt_cases a) And.left fun x _ _ => ?_).follows
    exact .lookup (s.strongAt_cases b) And.right fun y _ _ => settles_same hs _
  | inspect name =>
    refine (Settles.lookup (s.strongAt_cases name) id fun x _ hk => ?_).follows
    obtain ⟨i, e⟩ := strongInfo_ok hs (hm (strong_mem_held hk))
    simp only [e, bind, Except.bind]
    exact settles_same hs _
  | unbound dst => exact .inl (keepWeak_performs (Heap.Balanced.cons_unbound_iff.2 hs) dst)
  | downgrade dst src =>
    refine .lookup (s.strongAt_cases src) id fun x _ hk => .inl ?_
    obtain ⟨h, w, e, ht⟩ := Heap.Balanced.downgrade hs (hm (strong_mem_held hk))
    exact keepWeak_taken e ht dst
  | observe dst src =>
    refine .lookup (s.objectAt_cases src) id fun o _ hk => .inl ?_
    obtain ⟨x, hx⟩ := there_of_strong hs hk
    obtain ⟨h, w, e, ht⟩ := Heap.Balanced.observe hs hx
    exact keepWeak_taken e ht dst
  | cloneWeak dst src =>
    refine .lookup (s.weakAt_cases src) id fun w _ hk => .inl ?_
    obtain ⟨h, v, e, ht⟩ := Heap.Balanced.cloneWeak hs (hm (weak_mem_held hk))
    exact keepWeak_taken e ht dst
  | resetWeak name =>
    exact .lookup (s.weakAt_cases name) id fun w _ hk => .inl (resetWeak_performs hs hk)
  | dropWeak name => exact .inl (dropWeak_performs hs name)
  | inspectWeak name =>
    refine (Settles.lookup (s.weakAt_cases name) id fun w _ hk => ?_).follows
    obtain ⟨i, e⟩ := weakInfo_ok hs (hm (weak_mem_held hk))
    simp only [e, bind, Except.bind]
    exact settles_same hs _
  | meets weak strong =>
    refine (Settles.lookup (s.weakAt_cases weak) And.left fun w _ hk => ?_).follows
    obtain ⟨k, e⟩ := boundTo_ok hs (hm (weak_mem_held hk))
    simp only [Heap.visible, e, bind, Except.bind]
    exact .lookup (s.strongAt_cases strong) And.right fun y _ _ => settles_same hs _
  | link name src =>
    refine (Settles.lookup (s.objectAt_cases name) And.left fun o _ ho => ?_).follows
    obtain ⟨y, hy⟩ := there_of_strong hs ho
    exact linkTo_settles hs hy And.right
  | watch name src =>
    refine (Settles.lookup (s.objectAt_cases name) And.left fun o _ ho => ?_).follows
    obtain ⟨y, hy⟩ := there_of_strong hs ho
    exact watchFrom_settles hs hy And.right
  | kid dst src i => exact kid_follows hs dst src i
  | unlink name i => exact unlink_follows hs name i
  | unwatch name =>
    refine .lookup (s.objectAt_cases name) id fun o _ hk => .inl ?_
    obtain ⟨y, hy⟩ := there_of_strong hs hk
    simp only [Heap.object_eq_ok_iff.2 hy, bind, Except.bind]
    exact unwatchFrom_performs hs hy
  | plain label => exact .inl (lookAtPlain_performs hs label)
  | aliasShare | aliasObserve | aliasManage | tear => cases hc
  | sharedSet key src =>
    rcases s.strongAt_cases src with ⟨x, -, hk⟩ | e
    · exact .inl (sharedSet_performs hs hk key)
    · exact .inr ⟨by simp [plan, e, bind, Except.bind], by simp [exec, e, bind, Except.bind],
        by simp [Resolves, e]⟩
  | sharedGet dst key => exact .inl (sharedGet_performs hs dst key)
  | sharedMake dst key label => exact .inl (sharedMake_performs hs dst key label)
  | sharedInfo key => exact (settles_same hs _).follows
  | sharedShutdown => exact .inl (clearShared_performs hs _)
  | sharedDrop => exact .inl (clearShared_performs hs _)
  | ownedSet key label => exact .inl (ownNew_performs hs key label _)
  | ownedGet key => exact (ownedGet_settles hs key).follows
  | ownedMake key label => exact .inl (ownedMake_performs hs key label)
  | ownedShare dst key =>
    refine .lookup (s.ownedAt_cases key) id fun o _ hk => .inl ?_
    obtain ⟨x, hx⟩ := there_of_owned hs hk
    obtain ⟨h, y, e, ht⟩ := Heap.Balanced.share hs hx
    exact keep_taken e ht dst
  | ownedLink key src =>
    refine (Settles.lookup (s.ownedAt_cases key) And.left fun o _ hk => ?_).follows
    obtain ⟨y, hy⟩ := there_of_owned hs hk
    exact linkTo_settles hs hy And.right
  | ownedInfo key => exact (settles_same hs _).follows
  | ownedShutdown => exact .inl (clearOwned_performs hs _)
  | ownedDrop => exact .inl (clearOwned_performs hs _)

/-- A command that respects the slots is done, or stops because something it names is not there. -/
theorem exec_answers (hs : s.Sound) (hc : c.lawful = true) :
    Answers s.heap (s.exec c) (s.Resolves c) :=
  (exec_follows hs hc).answers

theorem step_leads (hs : s.Sound) (hc : c.lawful = true) :
    (s.step c).1.Sound ∧ s.heap.Leads (dropped (s.step c).2.drops) (s.step c).1.heap ∧
      s.heap.Seats (s.step c).1.heap := by
  rcases exec_answers hs hc with ⟨s', out, e, hs', hl, hseats⟩ | ⟨e, -⟩
  · rw [step, e]
    exact ⟨hs', hl, hseats⟩
  · have hl := Heap.Passes.refl s.heap
    rw [step, e]
    exact ⟨hs, hl.toLeads, hl.seats⟩

/-! ### Runs -/

/-- The records of the objects dropped while commands run, in the order in which they were
dropped. -/
def drops (s : Session) : List Command → DropLog
  | [] => []
  | c :: cs => (s.step c).2.drops ++ (s.step c).1.drops cs

theorem run_leads (hs : s.Sound) (hcs : ∀ c ∈ cs, c.lawful = true) :
    (s.run cs).Sound ∧ s.heap.Leads (dropped (s.drops cs)) (s.run cs).heap := by
  induction cs generalizing s with
  | nil => exact ⟨hs, (Heap.Passes.refl s.heap).toLeads⟩
  | cons c cs ih =>
    obtain ⟨hs₁, hl₁, -⟩ := step_leads hs (hcs c List.mem_cons_self)
    obtain ⟨hs₂, hl₂⟩ := ih hs₁ fun d hd => hcs d (List.mem_cons_of_mem _ hd)
    refine ⟨hs₂, ?_⟩
    rw [drops, Heap.dropped_append]
    exact hl₁.trans hl₂

theorem run_append (s : Session) (cs ds : List Command) : s.run (cs ++ ds) = (s.run cs).run ds :=
  List.foldl_append

theorem sound_empty : ({} : Session).Sound := Heap.sound_empty

/-- Every state that a run passes leads to its last one. -/
theorem run_leads_of_prefix {pre : List Command} (hcs : ∀ c ∈ cs, c.lawful = true)
    (hp : pre <+: cs) : ∃ gone, (run {} pre).heap.Leads gone (run {} cs).heap := by
  obtain ⟨ds, rfl⟩ := hp
  have hs := (run_leads sound_empty fun c hc => hcs c (List.mem_append_left _ hc)).1
  rw [run_append]
  exact ⟨_, (run_leads hs fun c hc => hcs c (List.mem_append_right _ hc)).2⟩

/-- A run that leaves an object which stores the only handle on another, which watches the first. -/
def pairRun : List Command :=
  [.create "a" 1, .create "b" 2, .link "a" "b", .watch "b" "a", .drop "b"]

end Session

end Custody
