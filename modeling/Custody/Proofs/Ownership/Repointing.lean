import Custody.Proofs.Ownership.Exchange
import Custody.Proofs.Ownership.Spots

/-!
# Pointing a handle elsewhere

`Session.assignAt` points the strong handle in a spot at the object of another handle, and
`Session.cloneInto` copies the other handle, releases the one in the spot and keeps the copy there.
Both come to the same (`repoint_safe`), whatever the two handles name and whatever leads from one
object to the other: the copy is counted before anything is released, so its object stays.
`Session.Repoints` says what else becomes of the session.
-/

namespace Custody

open Heap (dropped)
open Relation (ReflTransGen)

namespace Heap

variable {α : Type} {h h' : Heap α} {rest : List Handle} {x y : Strong} {o p : ObjectId}

/-! ### The last handle on an object -/

theorem Doomed.managed (hd : h.Doomed [.strong x] rest p) : h.Managed p := by
  obtain ⟨hz, hgo, -⟩ := hd
  obtain ⟨c, hc⟩ := Option.ne_none_iff_exists'.1 (hgo.resolve_right (by simp))
  exact ⟨_, c, hz, hc⟩

/-- A strong handle that is not the last one on a managed object drops nothing. -/
theorem Sound.not_doomed_of_stays (hs : h.Sound (.strong x :: rest))
    (stays : ∀ o, x = ⟨some o⟩ → h.Managed o → .holding o ∈ rest ++ h.stored) :
    ¬ h.Doomed [.strong x] rest p := by
  refine not_doomed (fun {q z c} hz hc => ?_) (by simp)
  rcases List.mem_cons.1 (Balanced.attached hs hz hc).1 with e | hm
  · exact stays q (Handle.strong.inj e).symm ⟨z, c, hz, hc⟩
  · exact hm

/-- The object of a released handle goes exactly if it is managed and nothing else holds it. -/
theorem Sound.doomed_iff_last (hs : h.Sound (.holding o :: rest)) :
    h.Doomed [.holding o] rest o ↔ h.Managed o ∧ .holding o ∉ rest ++ h.stored := by
  constructor
  · intro hd
    refine ⟨hd.managed, fun hm => hs.not_doomed_of_stays (fun q e _ => ?_) hd⟩
    cases e
    exact hm
  · rintro ⟨⟨z, c, hz, hc⟩, hno⟩
    refine .intro hz (.inl (by simp [hc])) (fun hm => hno (List.mem_append_left _ hm)) ?_
    exact fun hy hk => absurd (List.mem_append_right _ (mem_stored_of_mem_kids hy hk)) hno

/-- What is reached from the handles that stay does not go, also if what is stored in the object
reached was changed. -/
theorem Reachable.not_doomed {held pending : List Handle} (hr : h.Reachable held o)
    (hm : h.Managed o) (hheld : ∀ q, .holding q ∈ held → .holding q ∈ rest)
    (same : ∀ q, q ≠ o → h'.objects.get? q = h.objects.get? q) (howner : ∀ q, .owner q ∉ pending) :
    ¬ h'.Doomed pending rest o := by
  intro ho
  obtain ⟨r, hroot, hpath⟩ := hr
  -- everything on the path would go as well, back to the root
  have hback : ∀ q, ReflTransGen h.Owns r q → ¬ h'.Doomed pending rest q := by
    intro q hq
    induction hq with
    | refl =>
      rintro ⟨-, -, hno, holders⟩
      rcases hroot with hmem | ⟨u, z, hz, hc, hk⟩
      · exact hno (hheld r hmem)
      · have hne : u ≠ o := by
          rintro rfl
          obtain ⟨w, c, hw, hw'⟩ := hm
          cases hz.symm.trans hw
          rw [hc] at hw'
          cases hw'
        obtain ⟨hu, hgo, -⟩ := holders ((same u hne).trans hz) hk
        cases hz.symm.trans ((same u hne).symm.trans hu)
        exact hgo.elim (· hc) (howner u)
    | @tail u v _ howns ih =>
      rintro ⟨-, -, -, holders⟩
      obtain ⟨z, hz, hk⟩ := howns
      by_cases e : u = o
      · exact ih (e ▸ ho)
      · exact ih (holders ((same u e).trans hz) hk)
  exact hback o hpath ho

/-! ### Copying and releasing -/

/-- Pointing a handle elsewhere is to copy the other handle and then to release the one. -/
theorem Sound.assign (hs : h.Sound (.strong x :: rest))
    (hy : .strong y ∈ (.strong x :: rest) ++ h.stored ∨ y = ⟨none⟩) :
    ∃ h₁ h' log, h.clone y = .ok (h₁, y) ∧
      h.Takes ((.strong x :: rest) ++ h.stored) (.strong y) h₁ ∧
      h₁.release [.strong x] = .ok (h', log) ∧ h.assign x y = .ok (h', y, log) ∧
      (x = y → h' = h ∧ log = []) := by
  obtain ⟨h₁, ec, ht⟩ := Balanced.clone_or_unset hs hy
  by_cases e : x = y
  · subst e
    have er := ht.release hs List.mem_cons_self
    exact ⟨h₁, h, [], ec, ht, er, by rw [Heap.assign, if_pos rfl], fun _ => ⟨rfl, rfl⟩⟩
  · have hs₁ : h₁.Sound ([.strong x] ++ .strong y :: rest) := ht.sound.perm (.swap _ _ _)
    obtain ⟨h', log, er, -⟩ := hs₁.release
    have ne : x.target ≠ y.target := fun ht => e (by cases x; cases y; exact congrArg _ ht)
    refine ⟨h₁, h', log, ec, ht, er, ?_, fun e' => absurd e' e⟩
    simp [Heap.assign, ne, ec, er, bind, Except.bind]

end Heap

namespace Session

variable {s : Session} {p : Spot} {x y : Strong} {h : Heap Label} {o q : ObjectId}

/-- The session in which a spot was unset, the heap came to `h`, and `y` was kept in the spot. -/
def refill (s : Session) (p : Spot) (h : Heap Label) (y : Strong) : Session :=
  ((s.put p ⟨none⟩).withHeap h).put p y

/-- Points the handle in a spot at the object of `y`.  The spot is unset while the handle that was
there is let go. -/
def assignAt (s : Session) (p : Spot) (y : Strong) : Except Fault (Session × DropLog) := do
  let x ← (s.handleAt? p).elim (.error .notFound) .ok
  let (h, z, log) ← (s.put p ⟨none⟩).heap.assign x y
  .ok (s.refill p h z, log)

/-- Copies `y`, releases the handle in a spot and keeps the copy there. -/
def cloneInto (s : Session) (p : Spot) (y : Strong) : Except Fault (Session × DropLog) := do
  let x ← (s.handleAt? p).elim (.error .notFound) .ok
  let (h, z) ← s.heap.clone y
  let (h', log) ← ((s.withHeap h).put p ⟨none⟩).heap.release [.strong x]
  .ok ((s.withHeap h).refill p h' z, log)

/-! ### What becomes of a session -/

/-- The strong handle `x` in a spot of the session `s` was pointed at the object of `y`, which gives
the session `t`, and the objects `gone` were dropped. -/
structure Repoints (s : Session) (p : Spot) (x y : Strong) (t : Session) (gone : List ObjectId) :
    Prop where
  sound : t.Sound
  points : t.handleAt? p = some y
  /-- Nothing changes if the handle points there already. -/
  same : x = y → t = s ∧ gone = []
  /-- Outside the heap nothing but the spot changes. -/
  outside : t = (s.put p y).withHeap t.heap
  /-- But for the spot, the objects that are not dropped stay as they are. -/
  objects : ∀ q, t.heap.objects.get? q =
    if q ∈ gone then none else (s.put p y).heap.objects.get? q
  /-- The handles that were there and `y` are those that are there, `x` and those stored in the
  dropped objects. -/
  handles : (.strong x :: (gone.flatMap s.heap.handlesOf ++ t.handles)).Perm
    (.strong y :: s.handles)
  /-- The new target is not dropped. -/
  survives : ∀ o, y = ⟨some o⟩ → o ∉ gone ∧ ∃ z, t.heap.objects.get? o = some z
  /-- The strong count of a managed object is the number of handles on it. -/
  counts : ∀ o, t.heap.Managed o →
    t.heap.strongCount ⟨some o⟩ = .ok (t.handles.count (.holding o))
  /-- The handle on the old target is released, while the copy of `y` and all other handles are
  kept. -/
  frees : ∀ o, x = ⟨some o⟩ → ∃ h h', (s.put p ⟨none⟩).heap.clone y = .ok (h, y) ∧
    h.Frees o (.strong y :: (s.put p ⟨none⟩).held) gone h' ∧
    t = s.refill p h' y
  /-- The old target is dropped exactly if this was the last handle on it. -/
  last : ∀ o, x = ⟨some o⟩ →
    (o ∈ gone ↔ x ≠ y ∧ s.heap.Managed o ∧ s.handles.count (.holding o) = 1)
  /-- So it is also when `y` is stored in the old target itself. -/
  walk : ∀ o (z : Object Label) (i : Nat), x = ⟨some o⟩ → s.heap.objects.get? o = some z →
    z.kids[i]? = some y →
    (o ∈ gone ↔ s.heap.Managed o ∧ s.handles.count (.holding o) = 1)
  /-- Nothing is dropped without the old target. -/
  first : gone ≠ [] → ∃ o, x = ⟨some o⟩ ∧ o ∈ gone

/-- With a spot of the session `s` unset, the handle `y` was copied, which gives the heap `h`, and
the handle `x` that was there was released, which gives the heap `h'`. -/
structure Retargets (s : Session) (p : Spot) (x y : Strong) (h h' : Heap Label) (log : DropLog) :
    Prop where
  before : s.Sound
  kept : s.handleAt? p = some x
  accessible : s.Accessible p
  copied : (s.put p ⟨none⟩).heap.clone y = .ok (h, y)
  taken : (s.put p ⟨none⟩).heap.Takes
    ((.strong x :: (s.put p ⟨none⟩).held) ++ (s.put p ⟨none⟩).heap.stored) (.strong y) h
  released : h.release [.strong x] = .ok (h', log)
  idle : x = y → h' = (s.put p ⟨none⟩).heap ∧ log = []

namespace Retargets

variable {h' : Heap Label} {log : DropLog}

theorem heap_sound (hr : s.Retargets p x y h h' log) :
    h.Sound (.strong x :: .strong y :: (s.put p ⟨none⟩).held) :=
  hr.taken.sound.perm (.swap _ _ _)

theorem spec (hr : s.Retargets p x y h h' log) :
    h'.Sound (.strong y :: (s.put p ⟨none⟩).held) ∧ h.Without (dropped log) h' ∧
      ∀ q, q ∈ dropped log ↔ h.Doomed [.strong x] (.strong y :: (s.put p ⟨none⟩).held) q := by
  have hs : h.Sound ([.strong x] ++ .strong y :: (s.put p ⟨none⟩).held) := hr.heap_sound
  obtain ⟨h₁, log₁, e, hs', hw, hd⟩ := hs.release
  cases e.symm.trans hr.released
  exact ⟨hs', hw, hd⟩

theorem managed_iff (hr : s.Retargets p x y h h' log) :
    h.Managed q ↔ (s.put p ⟨none⟩).heap.Managed q := by
  rw [Heap.Managed, hr.taken.objects, Heap.Managed]

/-- The object that stores the handle is not dropped while the handle is pointed elsewhere. -/
theorem host_stays (hr : s.Retargets p x y h h' log) (ho : p.host = some o) :
    o ∉ dropped log := by
  rw [hr.spec.2.2]
  by_cases hm : s.heap.Managed o
  · refine (hr.accessible o ho hm).not_doomed hm (fun q hq => ?_) (fun q hq => ?_) (by simp)
    · rw [held_put_of_host ho]
      exact List.mem_cons_of_mem _ hq
    · rw [hr.taken.objects, get?_put_of_ne]
      rw [ho]
      exact fun e => hq (Option.some.inj e).symm
  · exact fun hd => hm (managed_put.1 (hr.managed_iff.1 hd.managed))

/-- The spot is unset after the release. -/
theorem unset (hr : s.Retargets p x y h h' log) :
    ((s.put p ⟨none⟩).withHeap h').handleAt? p = some ⟨none⟩ := by
  rw [handleAt?_withHeap, handleAt?_put hr.kept]
  intro o ho
  rw [hr.spec.2.1.get?_of_not_mem (hr.host_stays ho), hr.taken.objects]

theorem sound (hr : s.Retargets p x y h h' log) :
    (s.refill p h' y).Sound :=
  Heap.Balanced.cons_unset_iff.1 (sound_put hr.unset hr.spec.1)

theorem get?_eq (hr : s.Retargets p x y h h' log) (q : ObjectId) :
    (s.refill p h' y).heap.objects.get? q =
      if q ∈ dropped log then none else (s.put p y).heap.objects.get? q := by
  have hw := hr.spec.2.1
  split
  · next hq =>
    rw [refill, get?_put_of_ne fun ho => hr.host_stays ho hq]
    exact (hw.objects q).trans (if_pos hq)
  · next hq =>
    have hsame : h'.objects.get? q = (s.put p ⟨none⟩).heap.objects.get? q := by
      rw [hw.get?_of_not_mem hq, hr.taken.objects]
    rw [refill, get?_put_congr hsame, put_put]

theorem perm_handles_refill (hr : s.Retargets p x y h h' log) :
    (.strong ⟨none⟩ :: (s.refill p h' y).handles).Perm
      (.strong y :: ((s.put p ⟨none⟩).withHeap h').handles) :=
  perm_handles_put hr.unset y

theorem perm_handles (hr : s.Retargets p x y h h' log) :
    (.strong x :: ((dropped log).flatMap s.heap.handlesOf ++
      (s.refill p h' y).handles)).Perm (.strong y :: s.handles) := by
  have hsame : (dropped log).flatMap h.handlesOf = (dropped log).flatMap s.heap.handlesOf := by
    refine Heap.flatMap_handlesOf_congr fun q hq => ?_
    rw [hr.taken.objects, get?_put_of_ne fun ho => hr.host_stays ho hq]
  have hout := perm_handles_put hr.kept ⟨none⟩
  have hlost := hr.spec.2.1.perm_stored
  have hin := hr.perm_handles_refill
  rw [hsame, Heap.stored_eq_of_objects hr.taken.objects] at hlost
  rw [List.perm_iff_count] at hout hlost hin ⊢
  intro u
  have h₁ := hout u
  have h₂ := hlost u
  have h₃ := hin u
  simp only [handles, withHeap, held, List.count_cons, List.count_append] at h₁ h₂ h₃ ⊢
  omega

/-- The copy keeps the object of `y` from going. -/
theorem survives (hr : s.Retargets p x ⟨some o⟩ h h' log) : o ∉ dropped log := by
  rw [hr.spec.2.2]
  rintro ⟨-, -, hno, -⟩
  exact hno List.mem_cons_self

theorem mem_handles (hr : s.Retargets p x y h h' log) (hy : y ≠ ⟨none⟩) :
    .strong y ∈ (s.refill p h' y).handles := by
  have hm := hr.perm_handles_refill.mem_iff.2 List.mem_cons_self
  exact (List.mem_cons.1 hm).resolve_left fun e => hy (Handle.strong.inj e)

/-- The object that loses its handle goes exactly if that was the last one. -/
theorem last (hr : s.Retargets p ⟨some o⟩ y h h' log) : o ∈ dropped log ↔
    ⟨some o⟩ ≠ y ∧ s.heap.Managed o ∧ s.handles.count (.holding o) = 1 := by
  have hcount := (perm_handles_put hr.kept ⟨none⟩).count_eq (.holding o)
  rw [List.count_cons_self, List.count_cons_of_ne (by simp)] at hcount
  have hrest : .holding o ∉ (s.put p ⟨none⟩).held ++ h.stored ↔
      s.handles.count (.holding o) = 1 := by
    rw [Heap.stored_eq_of_objects hr.taken.objects, ← List.count_eq_zero]
    simp only [handles] at hcount ⊢
    omega
  have hne : ¬ Handle.holding o = .strong y ↔ (⟨some o⟩ : Strong) ≠ y := by simp
  rw [hr.spec.2.2, hr.heap_sound.doomed_iff_last, hr.managed_iff, managed_put, List.cons_append,
    List.mem_cons, not_or, hrest, hne]
  exact and_left_comm

/-- Nothing goes but through the object that loses its handle. -/
theorem first (hr : s.Retargets p x y h h' log) (hgone : dropped log ≠ []) :
    ∃ o, x = ⟨some o⟩ ∧ o ∈ dropped log := by
  by_contra hno
  refine hgone (List.eq_nil_iff_forall_not_mem.2 fun q hq => ?_)
  refine hr.heap_sound.not_doomed_of_stays (fun o hx hm => ?_) ((hr.spec.2.2 q).1 hq)
  subst hx
  by_contra hlast
  refine hno ⟨o, rfl, (hr.spec.2.2 o).2 ?_⟩
  exact hr.heap_sound.doomed_iff_last.2 ⟨hm, hlast⟩

theorem frees (hr : s.Retargets p ⟨some o⟩ y h h' log) :
    h.Frees o (.strong y :: (s.put p ⟨none⟩).held) (dropped log) h' := by
  obtain ⟨h₁, log₁, e, hf⟩ := hr.heap_sound.frees
  cases e.symm.trans hr.released
  exact hf

theorem same (hr : s.Retargets p x y h h' log) (e : x = y) :
    s.refill p h' y = s ∧ dropped log = [] := by
  obtain ⟨rfl, rfl⟩ := hr.idle e
  refine ⟨?_, rfl⟩
  rw [← e]
  exact (put_put s p ⟨none⟩ x).trans (put_self hr.kept)

end Retargets

/-- Every handle can be pointed at the object of every other one, or unset. -/
theorem Sound.retargets (hs : s.Sound) (hp : s.handleAt? p = some x) (ha : s.Accessible p)
    (hy : .strong y ∈ s.handles ∨ y = ⟨none⟩) : ∃ h h' log, s.Retargets p x y h h' log ∧
      (s.put p ⟨none⟩).heap.assign x y = .ok (h', y, log) := by
  have hs₁ := sound_put hp (Heap.Balanced.cons_unset_iff.2 hs)
  have hy₁ : .strong y ∈ (.strong x :: (s.put p ⟨none⟩).held) ++ (s.put p ⟨none⟩).heap.stored ∨
      y = ⟨none⟩ :=
    hy.imp_left fun hm => (perm_handles_put hp ⟨none⟩).mem_iff.2 (List.mem_cons_of_mem _ hm)
  obtain ⟨h, h', log, ec, ht, er, ea, hidle⟩ := hs₁.assign hy₁
  exact ⟨h, h', log, ⟨hs, hp, ha, ec, ht, er, hidle⟩, ea⟩

/-- A handle on an object that stores another one on itself is not the last one. -/
theorem Sound.not_last_of_loop (hs : s.Sound) (hp : s.handleAt? p = some ⟨some o⟩)
    (ha : s.Accessible p) {z : Object Label} {i : Nat} (hz : s.heap.objects.get? o = some z)
    (hi : z.kids[i]? = some ⟨some o⟩) :
    ¬ (s.heap.Managed o ∧ s.handles.count (.holding o) = 1) := by
  rintro ⟨hm, hone⟩
  by_cases ho : p.host = some o
  · -- the spot is in the object itself, which would go if the handle were unset
    obtain ⟨h, h', log, hr, -⟩ := hs.retargets hp ha (.inr rfl)
    exact hr.host_stays ho (hr.last.2 ⟨by simp, hm, hone⟩)
  · have hcount := (perm_handles_put hp ⟨none⟩).count_eq (.holding o)
    have hz' := (get?_put_of_ne ho ⟨none⟩).trans hz
    have hpos : 0 < (s.put p ⟨none⟩).heap.stored.count (.holding o) := List.count_pos_iff.2
      (Heap.mem_stored_of_mem_kids hz' (List.mem_of_getElem? hi))
    rw [List.count_cons_self, List.count_cons_of_ne (by simp), handles, List.count_append] at hcount
    omega

theorem Retargets.repoints {h' : Heap Label} {log : DropLog} (hr : s.Retargets p x y h h' log) :
    s.Repoints p x y (s.refill p h' y) (dropped log) where
  sound := hr.sound
  points := handleAt?_put hr.unset y
  same := hr.same
  outside := put_withHeap_put s p h' ⟨none⟩ y
  objects := hr.get?_eq
  handles := hr.perm_handles
  survives := by
    rintro o rfl
    exact ⟨hr.survives, Heap.Balanced.named hr.sound (hr.mem_handles (by simp))⟩
  counts := by
    rintro o ⟨z, c, hz, hc⟩
    exact hr.sound.strongCount_eq hz hc
  frees := by
    rintro o rfl
    exact ⟨h, h', hr.copied, hr.frees, rfl⟩
  last := by
    rintro o rfl
    exact hr.last
  walk := by
    rintro o z i rfl hz hi
    by_cases e : (⟨some o⟩ : Strong) = y
    · subst e
      rw [(hr.same rfl).2]
      exact iff_of_false (by simp) (hr.before.not_last_of_loop hr.kept hr.accessible hz hi)
    · exact hr.last.trans (and_iff_right e)
  first := hr.first

/-! ### Commands -/

theorem refill_name (s : Session) (dst : String) (h' : Heap Label) (y : Strong) :
    s.refill (.name dst) h' y = { s with heap := h', strong := s.strong.insert dst y } := by
  simp [refill, put, withHeap, Roster.insert_insert]

namespace Retargets

variable {h' : Heap Label} {log : DropLog} {dst : String} {id : Option Label}

theorem assignAt_eq (hr : s.Retargets p x y h h' log)
    (ea : (s.put p ⟨none⟩).heap.assign x y = .ok (h', y, log)) :
    s.assignAt p y = .ok (s.refill p h' y, log) := by
  simp [assignAt, hr.kept, ea, bind, Except.bind]

theorem cloneInto_eq (hr : s.Retargets p x y h h' log)
    (hy : .strong y ∈ s.handles ∨ y = ⟨none⟩) :
    s.cloneInto p y = .ok (s.refill p h' y, log) := by
  obtain ⟨h₀, ec, -⟩ := Heap.Balanced.clone_or_unset hr.before hy
  cases hr.copied.symm.trans (clone_put ec)
  have hsame : (s.withHeap h₀).refill p h' y = s.refill p h' y := by cases p <;> rfl
  simp [cloneInto, hr.kept, ec, hr.released, hsame, bind, Except.bind]

/-- The object of `y` has the same label before and after the release. -/
theorem labelOf_eq (hr : s.Retargets p x y h h' log) : labelOf h' y = labelOf h y := by
  obtain ⟨_ | o⟩ := y
  · rfl
  · simp only [labelOf, Heap.object, hr.spec.2.1.get?_of_not_mem hr.survives]

theorem exec_assign (hr : s.Retargets (.name dst) x y h h' log) (el : labelOf h y = .ok id)
    (ea : (s.put (.name dst) ⟨none⟩).heap.assign x y = .ok (h', y, log)) {src : Option String}
    (hsrc : src.elim (.ok ⟨none⟩) s.strongAt = .ok y) : s.exec (.assign dst src) =
      .ok (s.refill (.name dst) h' y, ⟨.label id, log⟩) := by
  have hk : s.strongAt dst = .ok x := by rw [strongAt, show s.strong.get? dst = _ from hr.kept]; rfl
  have ea' : s.heap.assign x y = .ok (h', y, log) := ea
  rw [refill_name]
  simp only [exec, hk, hsrc, ea', hr.labelOf_eq, el, bind, Except.bind]

theorem keep_eq (hr : s.Retargets (.name dst) x y h h' log) (el : labelOf h y = .ok id) :
    s.keep dst (h, y) =
      .ok (s.refill (.name dst) h' y, ⟨.label id, log⟩) := by
  have er : h.release (s.strong.handlesAt dst) = .ok (h', log) := by
    rw [Roster.handlesAt_of_get? hr.kept]
    exact hr.released
  rw [Session.keep_eq el er, refill_name]
  rfl

end Retargets

/-- In every state that a run of commands reaches that respect the slots, a strong handle, wherever
it is kept, can be pointed at the object of any other one, or unset, and this comes to the same as
copying the other one, releasing the handle and keeping the copy.  It is what `Repoints` says, and
assigning a name, cloning into it and walking from it to a handle stored in its object are cases. -/
theorem repoint_safe (cs : List Command) (hcs : ∀ c ∈ cs, c.lawful = true) (p : Spot)
    (x y : Strong) (hp : (run {} cs).handleAt? p = some x) (ha : (run {} cs).Accessible p)
    (hy : .strong y ∈ (run {} cs).handles ∨ y = ⟨none⟩) :
    ∃ t log, (run {} cs).assignAt p y = .ok (t, log) ∧
      (run {} cs).cloneInto p y = .ok (t, log) ∧
      (run {} cs).Repoints p x y t (dropped log) ∧
      ∀ dst, p = .name dst → ∃ id,
        (∀ src, src.elim (.ok ⟨none⟩) (run {} cs).strongAt = .ok y →
          (run {} cs).exec (.assign dst src) = .ok (t, ⟨.label id, log⟩)) ∧
        (∀ src, (run {} cs).strongAt src = .ok y →
          (run {} cs).exec (.clone dst src) = .ok (t, ⟨.label id, log⟩)) ∧
        ∀ o (z : Object Label) (i : Nat), x = ⟨some o⟩ →
          (run {} cs).heap.objects.get? o = some z → z.kids[i]? = some y →
            (run {} cs).exec (.kid dst dst i) = .ok (t, ⟨.label id, log⟩) := by
  have hs := (run_leads sound_empty hcs).1
  obtain ⟨h, h', log, hr, ea⟩ := hs.retargets hp ha hy
  refine ⟨_, log, hr.assignAt_eq ea, hr.cloneInto_eq hy, hr.repoints, ?_⟩
  rintro dst rfl
  obtain ⟨id, el⟩ := labelOf_ok hr.heap_sound (List.mem_cons_of_mem _ List.mem_cons_self)
  have ec : (run {} cs).heap.clone y = .ok (h, y) := hr.copied
  have hk : (run {} cs).strong.get? dst = some x := hp
  refine ⟨id, fun src => hr.exec_assign el ea, fun src hsrc => ?_, ?_⟩
  · simp only [exec, hsrc, ec, bind, Except.bind]
    exact hr.keep_eq el
  · rintro o z i rfl hz hi
    have ho : (run {} cs).objectAt dst = .ok o := by
      simp [objectAt, strongAt, hk, bind, Except.bind]
    simp only [exec, ho, Heap.object_eq_ok_iff.2 hz, hi, Option.elim_some, ec, bind, Except.bind]
    exact hr.keep_eq el

/-- Walking from an object to the one it stores: the first goes, the other stays. -/
theorem repoint_safe_pair : ∃ t log id,
    (run {} pairRun).exec (.kid "a" "a" 0) = .ok (t, ⟨.label id, log⟩) ∧
      (run {} pairRun).assignAt (.name "a") ⟨some 1⟩ = .ok (t, log) ∧ t.Sound ∧
      t.strong.get? "a" = some ⟨some 1⟩ ∧ 0 ∈ dropped log ∧ 1 ∉ dropped log := by
  have hp : (run {} pairRun).handleAt? (.name "a") = some ⟨some 0⟩ := by decide +kernel
  have hy : .holding 1 ∈ (run {} pairRun).handles := by decide +kernel
  have hone : (run {} pairRun).handles.count (.holding 0) = 1 := by decide +kernel
  have hobject : ((run {} pairRun).heap.objects.get? 0).map (fun z => (z.kids[0]?, z.slot)) =
      some (some ⟨some 1⟩, some 0) := by decide +kernel
  obtain ⟨z, hz, e⟩ := Option.map_eq_some_iff.1 hobject
  obtain ⟨hi, hc⟩ := Prod.mk.inj e
  obtain ⟨t, log, ea, -, hr, hcmd⟩ := repoint_safe pairRun (by decide) (.name "a") ⟨some 0⟩
    ⟨some 1⟩ hp (fun _ ho => by cases ho) (.inl hy)
  obtain ⟨id, -, -, hkid⟩ := hcmd "a" rfl
  exact ⟨t, log, id, hkid 0 z 0 rfl hz hi, ea, hr.sound, hr.points,
    (hr.walk 0 z 0 rfl hz hi).2 ⟨⟨z, 0, hz, hc⟩, hone⟩, (hr.survives 1 rfl).1⟩

end Session

end Custody
