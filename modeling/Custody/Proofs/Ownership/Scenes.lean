import Custody.Proofs.Ownership.Course

/-!
# What a dropped object finds

`Heap.releaseMute` releases as `Heap.release` does, but the objects that it drops report nothing.
For each of them it gives the `Scene` in which the object would have reported: the heap and the
handles that are still to be released.

`Sound.scenes` says that both come to the same heap.  In each scene the books are right, with the
object as its own owner, and what the object reports there is what `Heap.release` logs.
-/

namespace Custody

namespace Heap

variable {α : Type}

/-- What is there when a dropped object reports. -/
structure Scene (α : Type) where
  heap : Heap α
  /-- The object that is dropped. -/
  object : ObjectId
  /-- The handles that are to be released after those stored in the object. -/
  pending : List Handle

/-- The heap once the object is gone. -/
def Scene.after (d : Scene α) : Heap α := { d.heap with objects := d.heap.objects.erase d.object }

/-- Drops the object at `o` without a report; gives the handles stored in it. -/
def bury (h : Heap α) (o : ObjectId) : Except Fault (Heap α × List Handle) := do
  let x ← h.object o
  if x.slot.isSome then .error .droppedAttached
  else .ok ({ h with objects := h.objects.erase o }, x.handles)

theorem perm_stored_bury {h h' : Heap α} {o : ObjectId} {freed : List Handle}
    (e : h.bury o = .ok (h', freed)) : h.stored.Perm (freed ++ h'.stored) := by
  simp only [bury, bind_eq_ok_iff, object_eq_ok_iff] at e
  obtain ⟨x, hx, e⟩ := e
  split at e
  · cases e
  · cases e
    exact h.objects.perm_flatMap_erase hx Object.handles

/-- Releases the pending handles in order, and with each dropped object the handles stored inside
it, without a report of any of them; gives the scenes in which they would have reported. -/
def releaseMute (h : Heap α) (pending : List Handle) : Except Fault (Heap α × List (Scene α)) :=
  match pending with
  | [] => .ok (h, [])
  | t :: ts =>
    match e : h.letGo t with
    | .error f => .error f
    | .ok (h₁, none) =>
      have := congrArg List.length (stored_letGo e)
      h₁.releaseMute ts
    | .ok (h₁, some o) =>
      match e' : h₁.bury o with
      | .error f => .error f
      | .ok (h₂, freed) =>
        have := congrArg List.length (stored_letGo e)
        have := (perm_stored_bury e').length_eq
        match h₂.releaseMute (freed ++ ts) with
        | .error f => .error f
        | .ok (h', scenes) => .ok (h', ⟨h₁, o, ts⟩ :: scenes)
termination_by h.stored.length + pending.length
decreasing_by all_goals simp only [List.length_append, List.length_cons] at *; omega

theorem releaseMute_nil (h : Heap α) : h.releaseMute [] = .ok (h, []) := by
  rw [releaseMute]

theorem releaseMute_keeps {h h₁ : Heap α} {t : Handle} {ts : List Handle}
    (e : h.letGo t = .ok (h₁, none)) : h.releaseMute (t :: ts) = h₁.releaseMute ts := by
  rw [releaseMute]
  grind

theorem releaseMute_drops {h h₁ h₂ h' : Heap α} {t : Handle} {ts freed : List Handle} {o : ObjectId}
    {scenes : List (Scene α)} (e : h.letGo t = .ok (h₁, some o)) (e₁ : h₁.bury o = .ok (h₂, freed))
    (e₂ : h₂.releaseMute (freed ++ ts) = .ok (h', scenes)) :
    h.releaseMute (t :: ts) = .ok (h', ⟨h₁, o, ts⟩ :: scenes) := by
  rw [releaseMute]
  grind

/-- From `h` the heap came to `h'` without a new counter. -/
def PassesTo (h h' : Heap α) : Prop := ∃ gone, h.Passes gone h'

theorem PassesTo.refl (h : Heap α) : h.PassesTo h := ⟨[], .refl h⟩

theorem PassesTo.trans {h₁ h₂ h₃ : Heap α} : h₁.PassesTo h₂ → h₂.PassesTo h₃ → h₁.PassesTo h₃ :=
  fun ⟨gone, hl⟩ ⟨gone', hl'⟩ => ⟨gone ++ gone', hl.trans hl'⟩

namespace Scene

/-- The books are right in a scene, when the handles `rest` are those that are not released. -/
def Fits (d : Scene α) (rest : List Handle) : Prop :=
  d.heap.Balanced (.owner d.object :: (d.pending ++ rest ++ d.heap.stored))

/-- What the object reports in a scene; the report leaves the heap as it was. -/
def Reports (d : Scene α) (rec : DropRecord α) : Prop :=
  ∃ x, d.heap.objects.get? d.object = some x ∧ d.heap.lastWords d.object x = .ok (d.heap, rec)

end Scene

theorem lastWords_object {h h' : Heap α} {o : ObjectId} {x : Object α} {rec : DropRecord α}
    (e : h.lastWords o x = .ok (h', rec)) : rec.object = o := by
  simp only [lastWords, bind_eq_ok_iff] at e
  obtain ⟨_, -, _, -, _, -, _, -, _, -, e⟩ := e
  cases e
  rfl

/-- The objects that report are those that are dropped. -/
theorem dropped_of_reports {scenes : List (Scene α)} {log : List (DropRecord α)}
    (hr : List.Forall₂ Scene.Reports scenes log) : dropped log = scenes.map Scene.object := by
  induction hr with
  | nil => rfl
  | cons hd _ ih =>
    obtain ⟨x, -, e⟩ := hd
    rw [dropped, List.map_cons, lastWords_object e, List.map_cons, ← ih, dropped]

/-- A step of a cascade is mute but for the report of the object that it drops. -/
theorem Sound.mute_cons {h h' : Heap α} {t : Handle} {ts rest : List Handle} {r : Released α}
    {scenes : List (Scene α)} (hs : h.Sound (t :: (ts ++ rest))) (er : h.releaseOne t = .ok r)
    (e : r.heap.releaseMute (r.freed ++ ts) = .ok (h', scenes)) :
    ∃ first : Option (Scene α), h.releaseMute (t :: ts) = .ok (h', first.toList ++ scenes) ∧
      List.Forall₂ Scene.Reports first.toList r.record.toList ∧
      ∀ d ∈ first, d.Fits rest ∧ d.after = r.heap := by
  have hb : h.Balanced (t :: (ts ++ rest ++ h.stored)) := hs
  obtain ⟨h₁, d, e₁, hb₁, hl, -⟩ := hb.letGo
  have hst := stored_letGo e₁
  rw [releaseOne_eq, e₁] at er
  cases hl with
  | keeps =>
    cases er
    exact ⟨none, releaseMute_keeps e₁ ▸ e, .nil, by simp⟩
  | @bares o x there _ bare =>
    have hw : ∀ w ∈ x.watch, .weak w ∈ .owner o :: (ts ++ rest ++ h.stored) := fun w hw =>
      List.mem_cons_of_mem _ (List.mem_append_right _
        (mem_stored.2 ⟨o, x, there, by simpa [Object.handles] using hw⟩))
    obtain ⟨seen, el, -⟩ := Balanced.lastWords hb₁ bare rfl hw
    have ed : h₁.destroy o = .ok ⟨{ h₁ with objects := h₁.objects.erase o }, x.handles,
        some ⟨o, x.value, false, false, seen⟩⟩ := by
      simp only [destroy, object_eq_ok_iff.2 bare, el, bind, Except.bind]
      rfl
    have eb : h₁.bury o = .ok ({ h₁ with objects := h₁.objects.erase o }, x.handles) := by
      simp only [bury, object_eq_ok_iff.2 bare, bind, Except.bind]
      rfl
    cases ed.symm.trans er
    refine ⟨some ⟨h₁, o, ts⟩, releaseMute_drops e₁ eb e, .cons ⟨_, bare, el⟩ .nil, ?_⟩
    intro d hd
    obtain rfl := Option.mem_some_iff.1 hd
    refine ⟨?_, rfl⟩
    rw [Scene.Fits, hst]
    exact hb₁

/-- A release and the mute release of the same handles come to the same heap, and what the first one
logs is what is reported in the scenes of the second. -/
theorem Sound.scenes {h : Heap α} {pending rest : List Handle} (hs : h.Sound (pending ++ rest)) :
    ∃ h' log, h.release pending = .ok (h', log) ∧ h'.Sound rest ∧
      ∃ scenes, h.releaseMute pending = .ok (h', scenes) ∧ List.Forall₂ Scene.Reports scenes log ∧
        (∀ d ∈ scenes, d.Fits rest ∧ h.PassesTo d.after ∧ d.after.PassesTo h') ∧
        scenes.Pairwise (·.after.PassesTo ·.after) ∧ h.PassesTo h' := by
  refine hs.release_induction
    (motive := fun h pending h' log => ∃ scenes, h.releaseMute pending = .ok (h', scenes) ∧
      List.Forall₂ Scene.Reports scenes log ∧
      (∀ d ∈ scenes, d.Fits rest ∧ h.PassesTo d.after ∧ d.after.PassesTo h') ∧
      scenes.Pairwise (·.after.PassesTo ·.after) ∧ h.PassesTo h') ?_ ?_
  · exact fun h _ => ⟨[], releaseMute_nil h, .nil, by simp, .nil, .refl h⟩
  · rintro h t ts r h' log hs er hl hn hs' - ⟨scenes, e, hrep, hsc, hpw, hend⟩
    obtain ⟨first, e', hrep', hfirst⟩ := hs.mute_cons er e
    have hstep : h.PassesTo r.heap := by
      refine ⟨_, .of_balanced hs hs' (hl.without hn) fun c hm => ?_⟩
      have hp : (r.freed ++ ts ++ rest ++ r.heap.stored).Perm (ts ++ rest ++ h.stored) := by
        rw [List.append_assoc r.freed, List.append_assoc r.freed]
        exact (List.perm_append_comm_assoc _ _ _).trans
          ((perm_stored_releaseOne er).symm.append_left _)
      exact List.mem_cons_of_mem _ (hp.mem_iff.1 hm)
    refine ⟨first.toList ++ scenes, e', List.rel_append hrep' hrep, fun d hd => ?_, ?_,
      hstep.trans hend⟩
    · rcases List.mem_append.1 hd with hd | hd
      · obtain ⟨hf, ha⟩ := hfirst d (Option.mem_toList.1 hd)
        exact ⟨hf, ha ▸ hstep, ha ▸ hend⟩
      · obtain ⟨hf, hto, hfrom⟩ := hsc d hd
        exact ⟨hf, hstep.trans hto, hfrom⟩
    · refine List.pairwise_append.2 ⟨by cases first <;> simp, hpw, fun d hd d' hd' => ?_⟩
      rw [(hfirst d (Option.mem_toList.1 hd)).2]
      exact (hsc d' hd').2.1

end Heap

end Custody
