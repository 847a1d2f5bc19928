import Custody.Proofs.Ownership.Repointing
import Custody.Proofs.Ownership.Unmanaged

/-!
# Handles that are not counted

One type of handles serves the objects that a counter manages and those that none does; only the
slot of the object tells the two apart.  `Heap.Apart` says that a handle on an object with an empty
slot is taken, copied, released and pointed elsewhere without a trace in the heap, and
`Session.Uncounted` what this means for the commands on such a handle.  On a managed object there is
no difference between pinning and copying a handle (`Session.Pins`).
-/

namespace Custody

open Heap (dropped)

namespace Heap

variable {α : Type} {h h' : Heap α} {o : ObjectId} {x : Object α} {s y : Strong}

/-- Nothing counts the handles on the object `o`, and none of them drops it. -/
structure Apart (h : Heap α) (o : ObjectId) : Prop where
  attached : h.attached o = .ok none
  /-- The object cannot be shared or observed. -/
  share : h.share o = .ok (h, ⟨none⟩)
  observe : h.observe o = .ok (h, ⟨none⟩)
  downgrade : h.downgrade ⟨some o⟩ = .ok (h, ⟨none⟩)
  /-- A handle on it is taken, copied and released, and the heap stays as it is. -/
  pin : h.pin o = .ok (h, ⟨some o⟩)
  clone : h.clone ⟨some o⟩ = .ok (h, ⟨some o⟩)
  release : ∀ ts, h.release (.holding o :: ts) = h.release ts
  /-- Pointing another handle at it only releases that one. -/
  assign_to : ∀ s : Strong, s ≠ ⟨some o⟩ →
    h.assign s ⟨some o⟩ = (h.release [.strong s]).map fun r => (r.1, ⟨some o⟩, r.2)
  /-- Pointing its handle elsewhere only copies the other one. -/
  assign_from : ∀ t : Strong, t ≠ ⟨some o⟩ →
    h.assign ⟨some o⟩ t = (h.clone t).map fun r => (r.1, r.2, [])
  counterOf : h.counterOf ⟨some o⟩ = .ok none
  strongCount : h.strongCount ⟨some o⟩ = .ok 0
  weakCount : h.weakCount ⟨some o⟩ = .ok 0

theorem attached_of_bare (hx : h.objects.get? o = some x) (hslot : x.slot = none) :
    h.attached o = .ok none := by
  simp [Heap.attached, object_eq_ok_iff.2 hx, hslot, slotCounter, bind, Except.bind]

theorem release_of_bare (hx : h.objects.get? o = some x) (hslot : x.slot = none)
    (ts : List Handle) : h.release (.holding o :: ts) = h.release ts := by
  have e : h.releaseOne (.holding o) = .ok ⟨h, [], none⟩ := by
    simp [releaseOne, attached_of_bare hx hslot, bind, Except.bind]
  cases er : h.release ts with
  | ok r => exact release_cons e er
  | error f =>
    rw [Heap.release]
    split
    · next e' =>
      rw [e] at e'
      cases e'
    · next e' =>
      cases e.symm.trans e'
      simp only [List.nil_append, er]

theorem release_bare (hx : h.objects.get? o = some x) (hslot : x.slot = none) :
    h.release [.holding o] = .ok (h, []) :=
  (release_of_bare hx hslot []).trans (release_nil h)

theorem apart_of_bare (hx : h.objects.get? o = some x) (hslot : x.slot = none) : h.Apart o := by
  have ha := attached_of_bare hx hslot
  have hclone : h.clone ⟨some o⟩ = .ok (h, ⟨some o⟩) := by
    simp [Heap.clone, object_eq_ok_iff.2 hx, hslot, bind, Except.bind]
  have hcounter : h.counterOf ⟨some o⟩ = .ok none := by simp [Heap.counterOf, ha, bind, Except.bind]
  have hobserve : h.observe o = .ok (h, ⟨none⟩) := by simp [Heap.observe, ha, bind, Except.bind]
  refine ⟨ha, ?_, hobserve, hobserve, ?_, hclone, release_of_bare hx hslot, ?_, ?_, hcounter, ?_, ?_⟩
  · simp [Heap.share, ha, bind, Except.bind]
  · simp [Heap.pin, ha, bind, Except.bind]
  · intro s hs
    have hne : s.target ≠ some o := fun e => hs (congrArg Strong.mk e)
    simp only [Heap.assign, if_neg hne, hclone, bind, Except.bind]
    cases h.release [.strong s] <;> rfl
  · intro t ht
    have hne : some o ≠ t.target := fun e => ht (congrArg Strong.mk e.symm)
    simp only [Heap.assign, if_neg hne, bind, Except.bind]
    cases e : h.clone t with
    | error => rfl
    | ok r =>
      -- the copy changes no object, so the handle is released without a trace
      have hx' : r.1.objects.get? o = some x := by rw [clone_objects e, hx]
      simp only [release_bare hx' hslot, Except.map]
  · simp [Heap.strongCount, hcounter, bind, Except.bind]
  · simp [Heap.weakCount, hcounter, bind, Except.bind]

/-- Pinning an object is copying a handle on it. -/
theorem pin_eq_clone (hx : h.objects.get? o = some x) : h.pin o = h.clone ⟨some o⟩ := by
  cases hslot : x.slot with
  | none =>
    have ha := apart_of_bare hx hslot
    rw [ha.pin, ha.clone]
  | some c =>
    simp only [Heap.pin, Heap.clone, Heap.share, attached, slotCounter, object_eq_ok_iff.2 hx,
      hslot, Option.isSome_some, ↓reduceIte, bind, Except.bind]
    cases h.counter c with
    | error => rfl
    | ok k => by_cases hl : k.living = some o <;> simp only [hl, ↓reduceIte]

end Heap

namespace Session

variable {s : Session} {c : Command} {cs : List Command} {name dst src : String} {o : ObjectId}
  {x : Object Label} {y z : Strong}

/-! ### Commands on a handle that is not counted -/

/-- The command `c` points `dst` at the object `o`, which carries `label`, and otherwise does what
unsetting `dst` does: nothing, unless `dst` was on a managed object. -/
def PointsAt (s : Session) (c : Command) (dst : String) (o : ObjectId) (label : Label) : Prop :=
  ∃ h log,
    s.exec (.unset dst) = .ok ({ s with heap := h, strong := s.strong.insert dst ⟨none⟩ },
      ⟨.label none, log⟩) ∧
    s.exec c = .ok ({ s with heap := h, strong := s.strong.insert dst ⟨some o⟩ },
      ⟨.label (some label), log⟩) ∧
    ((∀ p, s.strong.get? dst = some ⟨some p⟩ → ¬ s.heap.Managed p) → h = s.heap ∧ log = [])

/-- What the commands do with the handle under `name`, which is on the object `x` at `o`, when
nothing counts it. -/
structure Uncounted (s : Session) (name : String) (o : ObjectId) (x : Object Label) : Prop where
  /-- It shows its object, counts of zero and no counter. -/
  shows : viewStrong s.heap ⟨some o⟩ = .ok (some (x.value, 0, 0))
  inspect : s.exec (.inspect name) = .ok (s, ⟨.strongInfo ⟨true, none, some (false, false)⟩, []⟩)
  /-- Further handles on the object cost nothing. -/
  pin : ∀ dst, s.PointsAt (.pin dst name) dst o x.value
  clone : ∀ dst, s.PointsAt (.clone dst name) dst o x.value
  assign : ∀ dst y, s.strong.get? dst = some y →
    s.PointsAt (.assign dst (some name)) dst o x.value
  swap : ∀ other y, s.strong.get? other = some y → s.exec (.swap name other) =
    .ok ({ s with strong := (s.strong.insert name y).insert other ⟨some o⟩ }, ⟨.nothing, []⟩)
  /-- The object cannot be shared or observed. -/
  share : ∀ dst, s.exec (.share dst name) = s.exec (.unset dst)
  observe : ∀ dst, s.exec (.observe dst name) = s.exec (.unbound dst)
  downgrade : ∀ dst, s.exec (.downgrade dst name) = s.exec (.unbound dst)
  /-- Giving the handle up drops nothing; pointing it elsewhere only copies the other one. -/
  repoint : ∀ src y, s.strong.get? src = some y → ∃ h label, s.heap.clone y = .ok (h, y) ∧
    s.exec (.assign name (some src)) =
      .ok ({ s with heap := h, strong := s.strong.insert name y }, ⟨.label label, []⟩)
  unset : s.exec (.assign name none) =
    .ok ({ s with strong := s.strong.insert name ⟨none⟩ }, ⟨.label none, []⟩)
  reset : s.exec (.reset name) =
    .ok ({ s with strong := s.strong.insert name ⟨none⟩ }, ⟨.flag false, []⟩)
  drop : s.exec (.drop name) = .ok ({ s with strong := s.strong.erase name }, ⟨.flag true, []⟩)

theorem strongAt_of_get? (hk : s.strong.get? name = some y) : s.strongAt name = .ok y := by
  simp [strongAt, hk]

theorem objectAt_of_get? (hk : s.strong.get? name = some ⟨some o⟩) : s.objectAt name = .ok o := by
  simp [objectAt, strongAt_of_get? hk, bind, Except.bind]

/-- Pointing a handle elsewhere is cloning into it. -/
theorem assign_eq_clone (hs : s.Sound) (hd : s.strong.get? dst = some y)
    (hk : s.strong.get? src = some z) :
    s.exec (.assign dst (some src)) = s.exec (.clone dst src) := by
  have hz : .strong z ∈ s.handles := List.mem_append_left _ (strong_mem_held hk)
  obtain ⟨h, h', log, hr, ea⟩ :=
    hs.retargets (p := .name dst) hd (fun _ ho => by cases ho) (.inl hz)
  obtain ⟨id, el⟩ := labelOf_ok hr.heap_sound (List.mem_cons_of_mem _ List.mem_cons_self)
  have ec : s.heap.clone z = .ok (h, z) := hr.copied
  have eclone : s.exec (.clone dst src) = s.keep dst (h, z) := by
    simp [exec, strongAt_of_get? hk, ec, bind, Except.bind]
  have hsrc : (some src).elim (.ok ⟨none⟩) s.strongAt = .ok z := strongAt_of_get? hk
  exact (hr.exec_assign el ea hsrc).trans (eclone.trans (hr.keep_eq el)).symm

/-- Giving up a handle on an object that no counter manages leaves no trace. -/
theorem release_idle (hs : s.Sound)
    (idle : ∀ p, s.strong.get? dst = some ⟨some p⟩ → ¬ s.heap.Managed p) :
    s.heap.release (s.strong.handlesAt dst) = .ok (s.heap, []) := by
  cases hk : s.strong.get? dst with
  | none =>
    rw [Roster.handlesAt_of_get?_eq_none hk]
    exact Heap.release_nil _
  | some y =>
    rw [Roster.handlesAt_of_get? hk]
    obtain ⟨_ | p⟩ := y
    · have e : s.heap.releaseOne (.strong ⟨none⟩) = .ok ⟨s.heap, [], none⟩ := rfl
      exact Heap.release_cons e (Heap.release_nil _)
    · obtain ⟨z, hz⟩ := there_of_strong hs hk
      refine Heap.release_bare hz (Option.eq_none_iff_forall_ne_some.2 fun d hd => ?_)
      exact idle p hk ⟨z, d, hz, hd⟩

/-- A handle that is kept and was not counted. -/
theorem pointsAt_of_keep (hs : s.Sound) (hx : s.heap.objects.get? o = some x)
    (e : s.exec c = s.keep dst (s.heap, ⟨some o⟩)) : s.PointsAt c dst o x.value := by
  obtain ⟨h, log, er, -⟩ := (Roster.sound_erase dst hs).release
  have el : labelOf s.heap ⟨some o⟩ = .ok (some x.value) := by
    simp [labelOf, Heap.object_eq_ok_iff.2 hx, bind, Except.bind]
  refine ⟨h, log, keep_eq rfl er, e.trans (keep_eq el er), fun idle => ?_⟩
  cases er.symm.trans (release_idle hs idle)
  exact ⟨rfl, rfl⟩

theorem uncounted_of_bare (hs : s.Sound) (hk : s.strong.get? name = some ⟨some o⟩)
    (hx : s.heap.objects.get? o = some x) (hslot : x.slot = none) : s.Uncounted name o x := by
  have ha := Heap.apart_of_bare hx hslot
  have hat := strongAt_of_get? hk
  have hobj := objectAt_of_get? hk
  have hgone := Heap.release_bare hx hslot
  have hclone (dst : String) : s.exec (.clone dst name) = s.keep dst (s.heap, ⟨some o⟩) := by
    simp [exec, hat, ha.clone, bind, Except.bind]
  constructor
  · simp [viewStrong, labelOf, Heap.object_eq_ok_iff.2 hx, ha.strongCount, ha.weakCount, bind,
      Except.bind]
  · simp [exec, hat, strongInfo, ha.counterOf, Heap.object_eq_ok_iff.2 hx, hslot, copiedSlot, bind,
      Except.bind]
  · intro dst
    refine pointsAt_of_keep hs hx ?_
    simp [exec, hobj, ha.pin, bind, Except.bind]
  · exact fun dst => pointsAt_of_keep hs hx (hclone dst)
  · exact fun dst y hd => pointsAt_of_keep hs hx ((assign_eq_clone hs hd hk).trans (hclone dst))
  · intro other y hy
    simp [exec, hat, strongAt_of_get? hy, bind, Except.bind]
  · intro dst
    simp [exec, hobj, ha.share, bind, Except.bind]
  · intro dst
    simp [exec, hobj, ha.observe, bind, Except.bind]
  · intro dst
    simp [exec, hat, ha.downgrade, bind, Except.bind]
  · intro src y hy
    obtain ⟨h, ec, ht⟩ := Heap.Balanced.clone hs (List.mem_append_left _ (strong_mem_held hy))
    obtain ⟨label, el⟩ := labelOf_ok ht.balanced List.mem_cons_self
    have er : h.release (s.strong.handlesAt name) = .ok (h, []) := by
      have hx' : h.objects.get? o = some x := by rw [ht.objects, hx]
      rw [Roster.handlesAt_of_get? hk]
      exact Heap.release_bare hx' hslot
    refine ⟨h, label, ec, (assign_eq_clone hs hk hy).trans ?_⟩
    simp only [exec, strongAt_of_get? hy, ec, bind, Except.bind]
    exact keep_eq el er
  · have e := ha.assign_from ⟨none⟩ (by simp)
    simp only [exec, hat, Option.elim_none, e, Heap.clone, Except.map, labelOf, bind, Except.bind]
  · rw [exec_reset hk]
    simp [release, hgone, bind, Except.bind]
  · rw [exec_drop hk]
    simp [release, hgone, bind, Except.bind]

/-! ### The last handle -/

/-- When a handle on `o` is taken out of its place and released, `o` is dropped exactly if a counter
manages it and this was the last handle on it. -/
theorem last_of_release {t : Session} {reply : Reply} (hs : t.heap.Sound (.holding o :: t.held))
    (e : s.exec c = t.release [.holding o] reply) (hheap : t.heap = s.heap)
    (hcount : s.held.count (.holding o) = t.held.count (.holding o) + 1) :
    o ∈ dropped (s.step c).2.drops ↔ s.heap.Managed o ∧ s.handles.count (.holding o) = 1 := by
  have hs₁ : t.heap.Sound ([.holding o] ++ t.held) := hs
  obtain ⟨h, log, er, -, -, hdoomed⟩ := hs₁.release
  rw [step, e, release_eq er]
  refine (hdoomed o).trans (hs.doomed_iff_last.trans ?_)
  rw [hheap, ← List.count_eq_zero, handles, List.count_append, List.count_append, hcount]
  exact and_congr_right fun _ => by omega

theorem reset_drops_iff (hs : s.Sound) (hk : s.strong.get? name = some ⟨some o⟩) :
    o ∈ dropped (s.step (.reset name)).2.drops ↔
      s.heap.Managed o ∧ s.handles.count (.holding o) = 1 := by
  refine last_of_release ((Parts.reset hk).sound hs) (exec_reset hk) rfl ?_
  have hp := (perm_held_exchange hk ⟨none⟩).count_eq (.holding o)
  rw [List.count_cons_self, List.count_cons_of_ne (by simp)] at hp
  exact hp.symm

theorem drop_drops_iff (hs : s.Sound) (hk : s.strong.get? name = some ⟨some o⟩) :
    o ∈ dropped (s.step (.drop name)).2.drops ↔
      s.heap.Managed o ∧ s.handles.count (.holding o) = 1 := by
  refine last_of_release ((Parts.drop hk).sound hs) (exec_drop hk) rfl ?_
  have hp := (s.perm_held_forget (.strong name)).count_eq (.holding o)
  have hat : s.handlesAt (.strong name) = [.holding o] := Roster.handlesAt_of_get? hk
  rw [hat, List.singleton_append, List.count_cons_self] at hp
  exact hp

/-! ### Pinning -/

/-- What pinning the object `o` of the handle under `src` is. -/
structure Pins (s : Session) (src : String) (o : ObjectId) : Prop where
  /-- It is cloning the handle. -/
  same : ∀ dst, s.exec (.pin dst src) = s.exec (.clone dst src)
  /-- The handle is counted if the object is managed. -/
  counted : s.heap.Managed o → ∃ n h, s.heap.strongCount ⟨some o⟩ = .ok n ∧
    s.heap.pin o = .ok (h, ⟨some o⟩) ∧ h.strongCount ⟨some o⟩ = .ok (n + 1)
  /-- However the handle under `src` was made, giving it up drops the object exactly if the object
  is managed and this is the last handle on it. -/
  last : ∀ c, c = .reset src ∨ c = .drop src →
    (o ∈ dropped (s.step c).2.drops ↔ s.heap.Managed o ∧ s.handles.count (.holding o) = 1)

theorem pins_of_get? (hs : s.Sound) (hk : s.strong.get? src = some ⟨some o⟩) : s.Pins src o := by
  obtain ⟨x, hx⟩ := there_of_strong hs hk
  have epin := Heap.pin_eq_clone hx
  refine ⟨fun dst => ?_, ?_, ?_⟩
  · simp [exec, objectAt_of_get? hk, strongAt_of_get? hk, epin, bind, Except.bind]
  · rintro ⟨y, d, hy, hslot⟩
    obtain ⟨h, ec, ht⟩ := Heap.Balanced.clone hs (List.mem_append_left _ (strong_mem_held hk))
    have hy' : h.objects.get? o = some y := by rw [ht.objects, hy]
    refine ⟨_, h, hs.strongCount_eq hy hslot, epin.trans ec, ?_⟩
    rw [Heap.Sound.strongCount_eq ht.sound hy' hslot, List.count_cons_self,
      Heap.stored_eq_of_objects ht.objects, handles, List.count_append]
    exact congrArg Except.ok (by omega)
  · rintro c (rfl | rfl)
    · exact reset_drops_iff hs hk
    · exact drop_drops_iff hs hk

/-! ### Over a run and its end -/

/-- The object `o` stays outside the counting over the run `cs` and its end. -/
structure StaysApart (cs : List Command) (o : ObjectId) : Prop where
  /-- At every moment nothing counts the handles on it, and no counter names it. -/
  apart : ∀ m ∈ life cs, (∀ x, m.heap.objects.get? o = some x → x.slot = none ∧ m.heap.Apart o) ∧
    ∀ d k, m.heap.counters.get? d = some k → k.living ≠ some o
  handles : ∀ pre name, pre <+: cs → (run {} pre).strong.get? name = some ⟨some o⟩ →
    ∃ x, (run {} pre).heap.objects.get? o = some x ∧ (run {} pre).Uncounted name o x
  /-- A registry that owns it gives out no handle on it. -/
  entries : ∀ pre key, pre <+: cs → (run {} pre).owned.get? key = some ⟨o⟩ →
    ∀ dst, (run {} pre).exec (.ownedShare dst key) = (run {} pre).exec (.unset dst)
  /-- Only a command that evicts it from its owner drops it, or else the end of the session. -/
  evicted : ∀ pre d, pre ++ [d] <+: cs → o ∈ dropped ((run {} pre).step d).2.drops →
    (run {} pre).Evicts d o
  closed : ∃ r, (run {} cs).close = .ok r ∧
    (o ∈ dropped (r.strong ++ r.shared ++ r.owned) →
      ∃ key, (run {} cs).owned.get? key = some ⟨o⟩ ∧ o ∈ dropped r.owned)

theorem MadeBy.staysApart (hm : MadeBy cs c o) (hcs : ∀ c ∈ cs, c.lawful = true)
    (hc : c.manages = false) : StaysApart cs o := by
  have bare {pre : List Command} (hp : pre <+: cs) {x : Object Label}
      (hx : (run {} pre).heap.objects.get? o = some x) : x.slot = none :=
    (hm.of_lt hcs hp (Slab.lt_next_of_get? hx)).slot_eq_none (fun c hc => hcs c (hp.subset hc)) hc hx
  have sound {pre : List Command} (hp : pre <+: cs) : (run {} pre).Sound :=
    (run_leads sound_empty fun c hc => hcs c (hp.subset hc)).1
  constructor
  · intro m hmem
    refine ⟨fun x hx => ?_, fun d k hk hl => ?_⟩
    · have hslot := hm.slot_at hcs hc hmem hx
      exact ⟨hslot, Heap.apart_of_bare hx hslot⟩
    · obtain ⟨x, hx, hslot⟩ := Heap.Balanced.slot_of_living ((life_spec hcs).1 m hmem).1 hk hl
      cases hslot.symm.trans (hm.slot_at hcs hc hmem hx)
  · intro pre name hp hk
    obtain ⟨x, hx⟩ := there_of_strong (sound hp) hk
    exact ⟨x, hx, uncounted_of_bare (sound hp) hk hx (bare hp hx)⟩
  · intro pre key hp hk dst
    obtain ⟨x, hx⟩ := there_of_owned (sound hp) hk
    have ha := Heap.apart_of_bare hx (bare hp hx)
    simp [exec, ownedAt, hk, ha.share, bind, Except.bind]
  · exact fun pre d hp hd => hm.evicts_of_dropped hcs hc hp hd
  · obtain ⟨r, er, -⟩ := close_nodup hcs
    exact ⟨r, er, fun hd => hm.owned_of_closed hcs hc er hd⟩

/-- Over any run of commands that respect the slots, an object is ever managed exactly if the
command that made it manages; every other object stays outside the counting, and one without an
owner is never dropped. Pinning an object is copying a handle on it, and the handle is counted, or
not, as every other handle on that object is. -/
theorem unmanaged_apart (cs : List Command) (hcs : ∀ c ∈ cs, c.lawful = true) :
    (∀ c o, MadeBy cs c o → ((∃ d, EverManaged cs o d) ↔ c.manages = true) ∧
      (c.manages = false → StaysApart cs o) ∧
      ∀ dst label, c = .leak dst label → ∃ r, (run {} cs).close = .ok r ∧
        o ∉ dropped (drops {} cs ++ (r.strong ++ r.shared ++ r.owned))) ∧
    (∀ (h : Heap Label) o x, h.objects.get? o = some x → h.pin o = h.clone ⟨some o⟩) ∧
    ∀ pre src o, pre <+: cs → (run {} pre).strong.get? src = some ⟨some o⟩ →
      (run {} pre).Pins src o := by
  refine ⟨fun c o hm => ⟨hm.everManaged_iff hcs, hm.staysApart hcs, ?_⟩,
    fun h o x hx => Heap.pin_eq_clone hx, fun pre src o hp hk => ?_⟩
  · rintro dst label rfl
    exact hm.not_dropped hcs
  · exact pins_of_get? (run_leads sound_empty fun c hc => hcs c (hp.subset hc)).1 hk

/-- A handle on an object that nothing frees is pointed at a managed one, which a pinned handle
outlives. -/
def mixedRun : List Command :=
  [.leak "s" 7, .pin "t" "s", .create "a" 1, .pin "b" "a", .assign "t" (some "a"), .reset "t",
    .drop "a", .ownedSet "k" 3]

theorem unmanaged_apart_mixed :
    (∀ c ∈ mixedRun, c.lawful = true) ∧ StaysApart mixedRun 0 ∧
      (∃ x, (run {} mixedRun).Uncounted "s" 0 x) ∧
      (∃ r, (run {} mixedRun).close = .ok r ∧
        0 ∉ dropped (drops {} mixedRun ++ (r.strong ++ r.shared ++ r.owned))) ∧
      StaysApart mixedRun 2 ∧ (∃ d, EverManaged mixedRun 1 d) ∧
      1 ∈ dropped ((run {} mixedRun).step (.drop "b")).2.drops := by
  have hcs : ∀ c ∈ mixedRun, c.lawful = true := by decide
  obtain ⟨hmade, -, hpins⟩ := unmanaged_apart mixedRun hcs
  have hleak : MadeBy mixedRun (.leak "s" 7) 0 :=
    ⟨[], ⟨mixedRun.tail, rfl⟩, by decide, by decide +kernel⟩
  have hcreate : MadeBy mixedRun (.create "a" 1) 1 :=
    ⟨mixedRun.take 2, ⟨mixedRun.drop 3, rfl⟩, by decide +kernel, by decide +kernel⟩
  have howned : MadeBy mixedRun (.ownedSet "k" 3) 2 :=
    ⟨mixedRun.take 7, ⟨[], rfl⟩, by decide +kernel, by decide +kernel⟩
  obtain ⟨-, hapart, hstays⟩ := hmade _ 0 hleak
  have hs : (run {} mixedRun).strong.get? "s" = some ⟨some 0⟩ := by decide +kernel
  have hb : (run {} mixedRun).strong.get? "b" = some ⟨some 1⟩ := by decide +kernel
  obtain ⟨x, -, hx⟩ := (hapart rfl).handles mixedRun "s" (List.prefix_refl _) hs
  have hslot : ((run {} mixedRun).heap.objects.get? 1).map Object.slot = some (some 0) := by
    decide +kernel
  obtain ⟨y, hy, hd⟩ := Option.map_eq_some_iff.1 hslot
  have hone : (run {} mixedRun).handles.count (.holding 1) = 1 := by decide +kernel
  exact ⟨hcs, hapart rfl, ⟨x, hx⟩, hstays "s" 7 rfl, (hmade _ 2 howned).2.1 rfl,
    (hmade _ 1 hcreate).1.2 rfl,
    ((hpins mixedRun "b" 1 (List.prefix_refl _) hb).last _ (.inr rfl)).2 ⟨⟨y, 0, hy, hd⟩, hone⟩⟩

end Session

end Custody
