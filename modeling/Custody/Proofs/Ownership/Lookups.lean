import Custody.Proofs.Ownership.Singletons

/-!
# What registries answer

`Session.Serves` says what a registry answers: a lookup finds what stands under the key and changes
no entry, an object is made exactly if nothing stands there, the keys are listed in order, and a
shutdown counts the entries and leaves none.  `registries_serve` says so after any run of commands,
together with what stands under each key.
-/

namespace Custody

open Heap (dropped)

namespace Registry

theorem lawful_make (g : Registry) (dst key : String) (label : Label) :
    (g.make dst key label).lawful = true := by
  cases g <;> rfl

theorem lawful_shutdown (g : Registry) : g.shutdown.lawful = true := by
  cases g <;> rfl

end Registry

namespace Session

variable {s : Session} {g : Registry} {cs : List Command} {h : Heap Label} {k dst : String}
  {x : Option ObjectId} {label : Label}

/-- What is known of a registry without its entries, and whether it has one under a key. -/
def infoOf (s : Session) (k : String) : Registry → RegistryInfo
  | .shared => registryInfo s.shared k
  | .owned => registryInfo s.owned k

/-- What a lookup answers that finds nothing. -/
def missed : Registry → Reply
  | .shared => .flag false
  | .owned => .label none

/-- A lookup found `x`: there is a further handle on it under the name `dst`, or the object, which
is there, was looked at. -/
def Found (dst : String) (x : Option ObjectId) (r : Session × Outcome) : Registry → Prop
  | .shared => r.2.reply = .flag true ∧ r.1.strong.get? dst = some ⟨x⟩
  | .owned => ∃ o y, x = some o ∧ r.1.heap.objects.get? o = some y ∧
      r.2.reply = .label (some y.value)

/-- The same with a flag that says whether `x` had to be made. -/
def Gave (dst : String) (x : Option ObjectId) (made : Bool) (r : Session × Outcome) :
    Registry → Prop
  | .shared => r.2.reply = .flag made ∧ r.1.strong.get? dst = some ⟨x⟩
  | .owned => ∃ o y, x = some o ∧ r.1.heap.objects.get? o = some y ∧
      r.2.reply = .entry y.value made

/-- One object was made since the session `s`; it is there, and stands under a key. -/
structure Places (s : Session) (k : String) (label : Label) (g : Registry) (t : Session) :
    Prop where
  entry : t.entryAt k g = some (some s.heap.objects.next)
  once : t.heap.objects.next = s.heap.objects.next + 1
  there : ∃ y, t.heap.objects.get? s.heap.objects.next = some y ∧ y.value = label

/-- The keys of a registry are listed in order and counted. -/
structure Lists (s : Session) (g : Registry) (k : String) (i : RegistryInfo) : Prop where
  has : i.has = true ↔ ∃ x, s.entryAt k g = some x
  ascending : i.keys.Pairwise (· < ·)
  keys : ∀ k, k ∈ i.keys ↔ ∃ x, s.entryAt k g = some x
  size : i.size = i.keys.length
  isEmpty : i.isEmpty = true ↔ i.keys = []

/-- What a registry answers, and what it does to its entries. -/
structure Serves (s : Session) (g : Registry) : Prop where
  there : ∀ k o, s.entryAt k g = some (some o) → ∃ y, s.heap.objects.get? o = some y
  step : ∀ c, c.lawful = true → ∀ k, (s.step c).1.entryAt k g = s.entryAfter g c k
  stays : ∀ k cs, (∀ c ∈ cs, c.lawful = true) → s.Spares g k cs →
    (s.run cs).entryAt k g = s.entryAt k g
  misses : ∀ dst k, s.entryAt k g = none → s.step (g.get dst k) = (s, ⟨missed g, []⟩)
  finds : ∀ dst k x, s.entryAt k g = some x → Found dst x (s.step (g.get dst k)) g
  keeps : ∀ dst k k' g', (s.step (g.get dst k)).1.entryAt k' g' = s.entryAt k' g'
  sets : g = .owned → ∀ k label, s.Places k label g (s.step (.ownedSet k label)).1
  makes : ∀ dst k label, s.entryAt k g = none → ∀ r, s.step (g.make dst k label) = r →
    Gave dst (some s.heap.objects.next) true r g ∧ s.Places k label g r.1
  lends : ∀ dst k label x, s.entryAt k g = some x → ∀ r, s.step (g.make dst k label) = r →
    Gave dst x false r g ∧ r.1.entryAt k g = some x ∧
    r.1.heap.objects.next = s.heap.objects.next
  /-- What was given out is what every later lookup finds. -/
  agrees : ∀ dst k label, ∃ x, Gave dst x (s.entryAt k g).isNone (s.step (g.make dst k label)) g ∧
    ∀ cs, (∀ c ∈ cs, c.lawful = true) → (s.step (g.make dst k label)).1.Spares g k cs →
      ∀ dst', Found dst' x (((s.step (g.make dst k label)).1.run cs).step (g.get dst' k)) g
  info : ∀ k, s.step (g.info k) = (s, ⟨.registryInfo (s.infoOf k g), []⟩)
  lists : ∀ k, s.Lists g k (s.infoOf k g)
  counts : ∀ k, (s.step g.shutdown).2.reply = .count (s.infoOf k g).size
  clears : ∀ k, (s.step g.shutdown).1.entryAt k g = none
  again : ((s.step g.shutdown).1.step g.shutdown).2.reply = .count 0

/-! ### Entries -/

theorem entryAt_shared_iff : s.entryAt k .shared = some x ↔ s.shared.get? k = some ⟨x⟩ := by
  simp only [entryAt, Option.map_eq_some_iff]
  constructor
  · rintro ⟨y, hk, rfl⟩
    exact hk
  · exact fun hk => ⟨_, hk, rfl⟩

theorem entryAt_owned_iff :
    s.entryAt k .owned = some x ↔ ∃ o, x = some o ∧ s.owned.get? k = some ⟨o⟩ := by
  simp only [entryAt, Option.map_eq_some_iff]
  constructor
  · rintro ⟨b, hk, rfl⟩
    exact ⟨b.object, rfl, hk⟩
  · rintro ⟨o, rfl, hk⟩
    exact ⟨_, hk, rfl⟩

theorem entryAt_owned_some_iff {o : ObjectId} :
    s.entryAt k .owned = some (some o) ↔ s.owned.get? k = some ⟨o⟩ := by
  simp [entryAt_owned_iff]

theorem entryAt_shared_none_iff : s.entryAt k .shared = none ↔ s.shared.get? k = none :=
  Option.map_eq_none_iff

theorem entryAt_owned_none_iff : s.entryAt k .owned = none ↔ s.owned.get? k = none :=
  Option.map_eq_none_iff

/-- An object that stands under a key is there. -/
theorem Sound.there {o : ObjectId} (hs : s.Sound) (h : s.entryAt k g = some (some o)) :
    ∃ y, s.heap.objects.get? o = some y := by
  cases g with
  | shared =>
    have hm : .holding o ∈ s.held := s.perm_held_shared.mem_iff.2
      (List.mem_append_left _ (Roster.mem_handles (entryAt_shared_iff.1 h) List.mem_cons_self))
    exact Heap.Balanced.named hs (List.mem_append_left _ hm)
  | owned =>
    obtain ⟨_, hx, hk⟩ := entryAt_owned_iff.1 h
    obtain rfl := Option.some.inj hx
    exact there_of_owned hs hk

/-! ### Lookups -/

/-- A handle is kept under a name. -/
theorem keep_ok {y : Strong} (hs : h.Sound (.strong y :: s.held)) (dst : String) :
    ∃ h' id log, s.keep dst (h, y) =
        .ok ((s.replace dst (h, y)).1.withHeap h', ⟨.label id, log⟩) ∧
      h.Without (dropped log) h' := by
  obtain ⟨id, e⟩ := labelOf_ok hs List.mem_cons_self
  have hs' : h.Sound (s.strong.handlesAt dst ++ (s.replace dst (h, y)).1.held) :=
    Roster.sound_insert (r := s.strong) dst hs
  obtain ⟨h', log, er, -, hw, -⟩ := hs'.release
  exact ⟨h', id, log, keep_eq e er, hw⟩

theorem step_misses (hk : s.entryAt k g = none) (dst : String) :
    s.step (g.get dst k) = (s, ⟨missed g, []⟩) := by
  cases g with
  | shared =>
    have hk := entryAt_shared_none_iff.1 hk
    simp [Session.step, Registry.get, exec, Roster.lend_of_get?_eq_none hk, missed, bind,
      Except.bind]
  | owned =>
    have hk := entryAt_owned_none_iff.1 hk
    simp [Session.step, Registry.get, exec, hk, missed]

theorem step_finds (hs : s.Sound) (hk : s.entryAt k g = some x) (dst : String) :
    Found dst x (s.step (g.get dst k)) g := by
  cases g with
  | shared =>
    obtain ⟨h, e, ht⟩ := Roster.lend_of_get? (entryAt_shared_iff.1 hk) (hs.perm s.perm_held_shared)
    have hs₁ := ht.sound.perm (s.perm_held_shared.symm.cons _)
    obtain ⟨h', id, log, ek, -⟩ := keep_ok hs₁ dst
    have er : s.exec (.sharedGet dst k) =
        .ok ((s.replace dst (h, ⟨x⟩)).1.withHeap h', ⟨.flag true, log⟩) := by
      simp [exec, e, ek, bind, Except.bind]
    rw [Registry.get, Session.step, er]
    exact ⟨rfl, (s.strong.get?_insert dst ⟨x⟩ dst).trans (if_pos rfl)⟩
  | owned =>
    obtain ⟨o, rfl, hk'⟩ := entryAt_owned_iff.1 hk
    obtain ⟨y, hy⟩ := there_of_owned hs hk'
    have er : s.exec (.ownedGet k) = .ok (s, ⟨.label (some y.value), []⟩) := by
      simp [exec, hk', Heap.object_eq_ok_iff.2 hy, bind, Except.bind]
    rw [Registry.get, Session.step, er]
    exact ⟨o, y, rfl, hy, rfl⟩

theorem step_keeps (hs : s.Sound) (dst k k' : String) (g g' : Registry) :
    (s.step (g.get dst k)).1.entryAt k' g' = s.entryAt k' g' := by
  cases g with
  | shared => exact entryAt_step hs rfl g' k'
  | owned => exact entryAt_step hs rfl g' k'

/-! ### Making what is missing -/

theorem stores?_make (hk : s.entryAt k g = none) (dst : String) (label : Label) :
    s.stores? g (g.make dst k label) = some (k, some s.heap.objects.next) := by
  cases g <;> simp [stores?, Registry.make, hk]

theorem entryAt_make (hs : s.Sound) (hk : s.entryAt k g = none) (dst : String) (label : Label) :
    (s.step (g.make dst k label)).1.entryAt k g = some (some s.heap.objects.next) := by
  rw [entryAt_step hs (g.lawful_make dst k label), entryAfter_of_stores (stores?_make hk dst label)]

theorem entryAt_lend (hs : s.Sound) (hk : s.entryAt k g = some x) (dst : String) (label : Label) :
    (s.step (g.make dst k label)).1.entryAt k g = some x := by
  rw [entryAt_step hs (g.lawful_make dst k label), entryAfter_of_spared, hk]
  · cases g <;> rfl
  · cases g <;> simp [stores?, Registry.make, hk]

/-- What is missing is made once, and a handle on it is given out. -/
theorem sharedMake_makes (hs : s.Sound) (hk : s.shared.get? k = none) (dst : String)
    (label : Label) :
    ∃ t log, s.step (.sharedMake dst k label) = (t, ⟨.flag true, log⟩) ∧
      t.strong.get? dst = some ⟨some s.heap.objects.next⟩ ∧
      t.heap.objects.next = s.heap.objects.next + 1 ∧
      ∀ y, t.heap.objects.get? s.heap.objects.next = some y → y.value = label := by
  obtain ⟨h, e, hs₁, -, ho⟩ := Roster.lendOrMake_of_get?_eq_none (x := { value := label }) hk rfl
    rfl (hs.perm s.perm_held_shared)
  let u : Session := { s with shared := s.shared.insert k ⟨some s.heap.objects.next⟩ }
  have hs₂ : h.Sound (.strong ⟨some s.heap.objects.next⟩ :: u.held) :=
    hs₁.perm (u.perm_held_shared.symm.cons _)
  obtain ⟨h', id, log, ek, hw⟩ := keep_ok hs₂ dst
  have er : s.exec (.sharedMake dst k label) =
      .ok ((u.replace dst (h, ⟨some s.heap.objects.next⟩)).1.withHeap h', ⟨.flag true, log⟩) := by
    simp [exec, e, ek, u, bind, Except.bind]
  refine ⟨_, log, by rw [Session.step, er], (s.strong.get?_insert dst _ dst).trans (if_pos rfl), ?_,
    fun y hy => ?_⟩
  · show h'.objects.next = _
    rw [hw.next_objects, ho, Heap.adopt, Slab.next_insert]
  · have hy' := (hw.get?_of_get? hy).1
    rw [ho, Heap.adopt, Slab.get?_insert, if_pos rfl] at hy'
    rw [← Option.some.inj hy']

/-- Putting a new object under a key makes one object, with the label given. -/
theorem ownNew_places (hs : s.Sound) (k : String) (label : Label) (reply : Reply) :
    ∃ t log, s.ownNew k label reply = .ok (t, ⟨reply, log⟩) ∧
      t.heap.objects.next = s.heap.objects.next + 1 ∧
      ∀ y, t.heap.objects.get? s.heap.objects.next = some y → y.value = label := by
  obtain ⟨h', log, e, -, hw, -⟩ := (sound_replaceOwned hs k label).release
  refine ⟨_, log, ownNew_eq e reply, ?_, fun y hy => ?_⟩
  · show h'.objects.next = _
    rw [hw.next_objects]
    exact Slab.next_insert ..
  · have hy' := (hw.get?_of_get? hy).1
    rw [replaceOwned, Heap.place, Slab.get?_insert, if_pos rfl] at hy'
    rw [← Option.some.inj hy']

theorem step_sets (hs : s.Sound) (k : String) (label : Label) :
    s.Places k label .owned (s.step (.ownedSet k label)).1 := by
  have hat : (s.step (.ownedSet k label)).1.entryAt k .owned = some (some s.heap.objects.next) := by
    rw [entryAt_step hs rfl, entryAfter_of_stores]
    simp [stores?]
  obtain ⟨y, hy⟩ := (step_leads hs rfl).1.there hat
  obtain ⟨t, log, e, hnext, hval⟩ := ownNew_places hs k label (.label (some label))
  have er : s.step (.ownedSet k label) = (t, ⟨.label (some label), log⟩) := by
    rw [Session.step, exec, e]
  rw [er] at hat hy ⊢
  exact ⟨hat, hnext, y, hy, hval y hy⟩

theorem step_makes (hs : s.Sound) (hk : s.entryAt k g = none) (dst : String) (label : Label)
    {r : Session × Outcome} (e : s.step (g.make dst k label) = r) :
    Gave dst (some s.heap.objects.next) true r g ∧ s.Places k label g r.1 := by
  have hat := entryAt_make hs hk dst label
  obtain ⟨y, hy⟩ := (step_leads hs (g.lawful_make dst k label)).1.there hat
  rw [e] at hat hy
  cases g with
  | shared =>
    obtain ⟨t, log, er, hdst, hnext, hval⟩ :=
      sharedMake_makes hs (entryAt_shared_none_iff.1 hk) dst label
    obtain rfl := er.symm.trans e
    exact ⟨⟨rfl, hdst⟩, ⟨hat, hnext, y, hy, hval y hy⟩⟩
  | owned =>
    obtain ⟨t, log, eo, hnext, hval⟩ := ownNew_places hs k label (.entry label true)
    have er : s.exec (.ownedMake k label) = .ok (t, ⟨.entry label true, log⟩) := by
      rw [exec, entryAt_owned_none_iff.1 hk]
      exact eo
    rw [Registry.make, Session.step, er] at e
    subst e
    exact ⟨⟨_, y, rfl, hy, by rw [hval y hy]⟩, ⟨hat, hnext, y, hy, hval y hy⟩⟩

theorem step_lends (hs : s.Sound) (hk : s.entryAt k g = some x) (dst : String) (label : Label)
    {r : Session × Outcome} (e : s.step (g.make dst k label) = r) :
    Gave dst x false r g ∧ r.1.entryAt k g = some x ∧
      r.1.heap.objects.next = s.heap.objects.next := by
  have hat := entryAt_lend hs hk dst label
  rw [e] at hat
  cases g with
  | shared =>
    obtain ⟨h, el, ht⟩ := Roster.lendOrMake_of_get? (x := { value := label })
      (entryAt_shared_iff.1 hk) (hs.perm s.perm_held_shared)
    obtain ⟨h', id, log, ek, hw⟩ := keep_ok (ht.sound.perm (s.perm_held_shared.symm.cons _)) dst
    have er : s.exec (.sharedMake dst k label) =
        .ok ((s.replace dst (h, ⟨x⟩)).1.withHeap h', ⟨.flag false, log⟩) := by
      simp [exec, el, ek, bind, Except.bind]
    rw [Registry.make, Session.step, er] at e
    subst e
    refine ⟨⟨rfl, (s.strong.get?_insert dst ⟨x⟩ dst).trans (if_pos rfl)⟩, hat, ?_⟩
    show h'.objects.next = _
    rw [hw.next_objects, ht.objects]
  | owned =>
    obtain ⟨o, rfl, hk'⟩ := entryAt_owned_iff.1 hk
    obtain ⟨y, hy⟩ := there_of_owned hs hk'
    have er : s.exec (.ownedMake k label) = .ok (s, ⟨.entry y.value false, []⟩) := by
      simp [exec, hk', Heap.object_eq_ok_iff.2 hy, bind, Except.bind]
    rw [Registry.make, Session.step, er] at e
    subst e
    exact ⟨⟨o, y, rfl, hy, rfl⟩, hat, rfl⟩

/-- What is given out under a key is found there until something else is stored or the registry is
cleared. -/
theorem step_agrees (hs : s.Sound) (g : Registry) (dst k : String) (label : Label) :
    ∃ x, Gave dst x (s.entryAt k g).isNone (s.step (g.make dst k label)) g ∧
      ∀ cs, (∀ c ∈ cs, c.lawful = true) → (s.step (g.make dst k label)).1.Spares g k cs →
        ∀ dst', Found dst' x (((s.step (g.make dst k label)).1.run cs).step (g.get dst' k)) g := by
  have hs' := (step_leads hs (g.lawful_make dst k label)).1
  have found {x : Option ObjectId} (hat : (s.step (g.make dst k label)).1.entryAt k g = some x)
      (cs : List Command) (hcs : ∀ c ∈ cs, c.lawful = true)
      (hsp : (s.step (g.make dst k label)).1.Spares g k cs) (dst' : String) :
      Found dst' x (((s.step (g.make dst k label)).1.run cs).step (g.get dst' k)) g :=
    step_finds (run_leads hs' hcs).1 ((entryAt_run_of_spares hs' hcs hsp).trans hat) dst'
  cases hk : s.entryAt k g with
  | none => exact ⟨_, (step_makes hs hk dst label rfl).1, found (entryAt_make hs hk dst label)⟩
  | some x => exact ⟨x, (step_lends hs hk dst label rfl).1, found (entryAt_lend hs hk dst label)⟩

/-! ### Listing and shutting down -/

theorem step_info (s : Session) (g : Registry) (k : String) :
    s.step (g.info k) = (s, ⟨.registryInfo (s.infoOf k g), []⟩) := by
  cases g <;> rfl

/-- A roster in which something stands under a key exactly if it does in the registry. -/
theorem registryInfo_lists {β : Type} {r : Roster β}
    (hr : ∀ k, (∃ b, r.get? k = some b) ↔ ∃ x, s.entryAt k g = some x) (k : String) :
    s.Lists g k (registryInfo r k) where
  has := by rw [← hr, registryInfo, Roster.contains, Option.isSome_iff_exists]
  ascending := r.ascending
  keys k' := Roster.mem_keys_iff.trans (hr k')
  size := (List.length_map _).symm
  isEmpty := by simp [registryInfo, Roster.isEmpty, Roster.keys]

theorem infoOf_lists (s : Session) (g : Registry) (k : String) : s.Lists g k (s.infoOf k g) := by
  cases g with
  | shared => exact registryInfo_lists (fun k => by simp [entryAt]) k
  | owned => exact registryInfo_lists (fun k => by simp [entryAt]) k

theorem step_shutdown_reply (hs : s.Sound) (g : Registry) (k : String) :
    (s.step g.shutdown).2.reply = .count (s.infoOf k g).size := by
  cases g with
  | shared =>
    obtain ⟨h', log, e, -⟩ := Roster.releaseAll_passes (hs.perm s.perm_held_shared)
    have er : s.exec .sharedShutdown = .ok ({ s with heap := h', shared := .empty },
        ⟨.count s.shared.size, sortDrops log⟩) := by
      simp [exec, clearShared, e, bind, Except.bind]
    rw [Registry.shutdown, Session.step, er]
    rfl
  | owned =>
    obtain ⟨h', log, e, -⟩ := Roster.releaseAll_passes (hs.perm s.perm_held_clearOwned)
    have er : s.exec .ownedShutdown = .ok ({ s with heap := h', owned := .empty },
        ⟨.count s.owned.size, sortDrops log⟩) := by
      simp [exec, clearOwned, e, bind, Except.bind]
    rw [Registry.shutdown, Session.step, er]
    rfl

theorem entryAt_shutdown (hs : s.Sound) (g : Registry) (k : String) :
    (s.step g.shutdown).1.entryAt k g = none := by
  rw [entryAt_step hs g.lawful_shutdown, entryAfter, if_pos (by cases g <;> rfl)]

theorem infoOf_size_eq_zero (hk : ∀ k, s.entryAt k g = none) (k : String) :
    (s.infoOf k g).size = 0 := by
  have hl := s.infoOf_lists g k
  rw [hl.size, List.length_eq_zero_iff, List.eq_nil_iff_forall_not_mem]
  intro k' hm
  obtain ⟨x, hx⟩ := (hl.keys k').1 hm
  rw [hk k'] at hx
  cases hx

/-- A second shutdown finds nothing. -/
theorem step_shutdown_again (hs : s.Sound) (g : Registry) :
    ((s.step g.shutdown).1.step g.shutdown).2.reply = .count 0 := by
  rw [step_shutdown_reply (step_leads hs g.lawful_shutdown).1 g "",
    infoOf_size_eq_zero (entryAt_shutdown hs g)]

/-! ### Registries after any run -/

theorem Sound.serves (hs : s.Sound) (g : Registry) : s.Serves g where
  there _ _ := hs.there
  step _ hc k := entryAt_step hs hc g k
  stays _ _ := entryAt_run_of_spares hs
  misses dst _ hk := step_misses hk dst
  finds dst _ _ hk := step_finds hs hk dst
  keeps dst k k' g' := step_keeps hs dst k k' g g'
  sets hg k label := hg ▸ step_sets hs k label
  makes dst _ label hk _ := step_makes hs hk dst label
  lends dst _ label _ hk _ := step_lends hs hk dst label
  agrees := step_agrees hs g
  info := s.step_info g
  lists := s.infoOf_lists g
  counts := step_shutdown_reply hs g
  clears := entryAt_shutdown hs g
  again := step_shutdown_again hs g

/-- After any run of commands from an empty session, what stands under a key of a registry is what
was stored there last, since the registry was last cleared; and that is what the registry answers
with. -/
theorem registries_serve (g : Registry) (cs : List Command) (hcs : ∀ c ∈ cs, c.lawful = true) :
    (∀ k x, (run {} cs).entryAt k g = some x ↔ LastStored cs g k x) ∧ (run {} cs).Serves g :=
  ⟨fun _ _ => entryAt_run_iff hcs, (run_leads sound_empty hcs).1.serves g⟩

/-- An unset handle is kept under a key, and then an object; under another key one is made. -/
def sharing : List Command :=
  [.unset "u", .create "a" 1, .sharedSet "k" "u", .sharedMake "b" "k" 7, .sharedSet "k" "a",
    .sharedMake "c" "l" 5]

theorem registries_serve_sharing :
    (∀ c ∈ sharing, c.lawful = true) ∧ LastStored (sharing.take 4) .shared "k" none ∧
      LastStored sharing .shared "k" (some 0) ∧ LastStored sharing .shared "l" (some 1) ∧
      (∀ x, ¬ LastStored sharing .shared "a" x) ∧ (run {} sharing).Serves .shared := by
  have hcs : ∀ c ∈ sharing, c.lawful = true := by decide
  have before := (registries_serve .shared (sharing.take 4) (by decide)).1
  obtain ⟨after, serves⟩ := registries_serve .shared sharing hcs
  refine ⟨hcs, (before "k" _).1 (by decide +kernel), (after "k" _).1 (by decide +kernel),
    (after "l" _).1 (by decide +kernel), fun x hx => ?_, serves⟩
  have hnone : (run {} sharing).entryAt "a" .shared = none := by decide +kernel
  rw [(after "a" x).2 hx] at hnone
  cases hnone

end Session

end Custody
