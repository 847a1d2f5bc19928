import Custody.Proofs.Ownership.Releasing

/-!
# Cascades

`Heap.release` from a sound heap ends without a fault and leaves a sound heap (`Sound.release`).
What it does beyond that is proved by induction along the cascade, `Sound.release_induction`:

* `Without`: the heap is as before, except that the dropped objects are gone;
* `Doomed`: an object is dropped if and only if every strong handle on it goes.
-/

namespace Custody

namespace Heap

variable {α : Type}

/-- The numbers of the objects that were dropped, in order. -/
def dropped (log : List (DropRecord α)) : List ObjectId := log.map DropRecord.object

@[simp] theorem dropped_nil : dropped ([] : List (DropRecord α)) = [] := rfl

@[simp] theorem dropped_append (l r : List (DropRecord α)) :
    dropped (l ++ r) = dropped l ++ dropped r := List.map_append

/-- The handles stored inside the object numbered `o`. -/
def handlesOf (h : Heap α) (o : ObjectId) : List Handle :=
  (h.objects.get? o).elim [] Object.handles

theorem handlesOf_subset_stored (h : Heap α) (o : ObjectId) : h.handlesOf o ⊆ h.stored := by
  intro t ht
  rw [handlesOf] at ht
  cases hx : h.objects.get? o with
  | none =>
    rw [hx] at ht
    cases ht
  | some x =>
    rw [hx] at ht
    exact mem_stored.2 ⟨o, x, hx, ht⟩

theorem flatMap_handlesOf_congr {h h' : Heap α} {gone : List ObjectId}
    (same : ∀ p ∈ gone, h'.objects.get? p = h.objects.get? p) :
    gone.flatMap h'.handlesOf = gone.flatMap h.handlesOf := by
  rw [List.flatMap_def, List.flatMap_def]
  refine congrArg List.flatten (List.map_congr_left fun p hp => ?_)
  rw [handlesOf, same p hp, handlesOf]

/-! ### Heaps that lost objects -/

/-- `h'` has the objects of `h`, as they were, but for those numbered `gone`. -/
structure Without (h : Heap α) (gone : List ObjectId) (h' : Heap α) : Prop where
  nodup : gone.Nodup
  there : ∀ p ∈ gone, ∃ x, h.objects.get? p = some x
  objects : ∀ p, h'.objects.get? p = if p ∈ gone then none else h.objects.get? p
  next_objects : h'.objects.next = h.objects.next
  next_counters : h'.counters.next = h.counters.next

namespace Without

variable {h h₁ h₂ h' : Heap α} {gone gone₁ gone₂ : List ObjectId} {p : ObjectId} {x : Object α}

theorem of_objects_eq (ho : h'.objects = h.objects) (hn : h'.counters.next = h.counters.next) :
    h.Without [] h' where
  nodup := .nil
  there := by simp
  objects p := by simp [ho]
  next_objects := by rw [ho]
  next_counters := hn

theorem refl (h : Heap α) : h.Without [] h := of_objects_eq rfl rfl

theorem get?_of_get? (hw : h.Without gone h') (hx : h'.objects.get? p = some x) :
    h.objects.get? p = some x ∧ p ∉ gone := by
  rw [hw.objects] at hx
  split at hx
  · cases hx
  · next hp => exact ⟨hx, hp⟩

theorem get?_of_not_mem (hw : h.Without gone h') (hp : p ∉ gone) :
    h'.objects.get? p = h.objects.get? p := by
  rw [hw.objects, if_neg hp]

theorem perm (hw : h.Without gone₁ h') (hp : gone₁.Perm gone₂) : h.Without gone₂ h' where
  nodup := hp.nodup_iff.1 hw.nodup
  there p hm := hw.there p (hp.mem_iff.2 hm)
  objects p := by simp only [hw.objects, hp.mem_iff]
  next_objects := hw.next_objects
  next_counters := hw.next_counters

theorem trans (w₁ : h.Without gone₁ h₁) (w₂ : h₁.Without gone₂ h₂) :
    h.Without (gone₁ ++ gone₂) h₂ where
  nodup := by
    rw [List.nodup_append]
    refine ⟨w₁.nodup, w₂.nodup, ?_⟩
    rintro p hp q hq rfl
    obtain ⟨x, hx⟩ := w₂.there p hq
    exact (w₁.get?_of_get? hx).2 hp
  there p hp := by
    rcases List.mem_append.1 hp with hp | hp
    · exact w₁.there p hp
    · obtain ⟨x, hx⟩ := w₂.there p hp
      exact ⟨x, (w₁.get?_of_get? hx).1⟩
  objects p := by
    rw [w₂.objects, w₁.objects]
    by_cases h₁ : p ∈ gone₁ <;> by_cases h₂ : p ∈ gone₂ <;> simp [h₁, h₂]
  next_objects := w₂.next_objects.trans w₁.next_objects
  next_counters := w₂.next_counters.trans w₁.next_counters

/-- The handles that were stored are those that are still stored and those of the lost objects. -/
theorem perm_stored (hw : h.Without gone h') :
    h.stored.Perm (gone.flatMap h.handlesOf ++ h'.stored) := by
  induction gone generalizing h with
  | nil =>
    have : h'.objects = h.objects := Slab.ext hw.next_objects fun p => by simp [hw.objects]
    rw [stored, stored, this]
    exact .refl _
  | cons o gone ih =>
    obtain ⟨x, hx⟩ := hw.there o List.mem_cons_self
    obtain ⟨ho, hd⟩ := List.nodup_cons.1 hw.nodup
    have get : ∀ p, (h.objects.erase o).get? p = if o = p then none else h.objects.get? p :=
      Slab.get?_erase _ _
    have hw' : Without { h with objects := h.objects.erase o } gone h' := by
      refine ⟨hd, fun p hp => ?_, fun p => ?_, ?_, hw.next_counters⟩
      · have e : o ≠ p := fun e => ho (e ▸ hp)
        rw [get, if_neg e]
        exact hw.there p (List.mem_cons_of_mem _ hp)
      · rw [hw.objects, get]
        by_cases e : o = p
        · simp [e]
        · simp [e, Ne.symm e]
      · rw [hw.next_objects, Slab.next_erase]
    have hstored : h.stored.Perm
        (h.handlesOf o ++ (h.objects.erase o).toList.flatMap Object.handles) := by
      rw [handlesOf, hx]
      exact Slab.perm_flatMap_erase hx Object.handles
    have hsame : gone.flatMap (handlesOf { h with objects := h.objects.erase o }) =
        gone.flatMap h.handlesOf := by
      refine flatMap_handlesOf_congr fun p hp => ?_
      have e : o ≠ p := fun e => ho (e ▸ hp)
      rw [get, if_neg e]
    have := ih hw'
    rw [hsame] at this
    rw [List.flatMap_cons, List.append_assoc]
    exact hstored.trans (this.append_left _)

theorem mem_stored_of_mem (hw : h.Without gone h') {t : Handle} (ht : t ∈ h'.stored) :
    t ∈ h.stored :=
  hw.perm_stored.mem_iff.2 (List.mem_append_right _ ht)

end Without

/-! ### Induction along a cascade -/

theorem release_nil (h : Heap α) : h.release [] = .ok (h, []) := by
  rw [release]

theorem release_cons {h h' : Heap α} {t : Handle} {ts : List Handle} {r : Released α}
    {log : List (DropRecord α)} (e : h.releaseOne t = .ok r)
    (e' : r.heap.release (r.freed ++ ts) = .ok (h', log)) :
    h.release (t :: ts) = .ok (h', r.record.toList ++ log) := by
  rw [release]
  split
  · next f e₁ => rw [e] at e₁; cases e₁
  · next r₁ e₁ =>
    rw [e] at e₁
    cases e₁
    rw [e']

theorem release_cons_inv {h h' : Heap α} {t : Handle} {ts : List Handle} {log : List (DropRecord α)}
    (e : h.release (t :: ts) = .ok (h', log)) :
    ∃ r log', h.releaseOne t = .ok r ∧ r.heap.release (r.freed ++ ts) = .ok (h', log') ∧
      log = r.record.toList ++ log' := by
  rw [release] at e
  split at e
  · cases e
  · next r er =>
    split at e
    · cases e
    · next g log' el =>
      cases e
      exact ⟨r, log', er, el, rfl⟩

/-- Two releases, one after the other, are one release. -/
theorem release_append {h h₁ h₂ : Heap α} {pending pending' : List Handle}
    {log log' : List (DropRecord α)} (e : h.release pending = .ok (h₁, log))
    (e' : h₁.release pending' = .ok (h₂, log')) :
    h.release (pending ++ pending') = .ok (h₂, log ++ log') := by
  induction h, pending using release.induct generalizing log with
  | case1 h =>
    rw [release_nil] at e
    cases e
    exact e'
  | case2 h t ts f ef =>
    obtain ⟨r, -, er, -⟩ := release_cons_inv e
    rw [ef] at er
    cases er
  | case3 h t ts r er _ f ef =>
    obtain ⟨r', l, er', el, -⟩ := release_cons_inv e
    cases er.symm.trans er'
    cases ef.symm.trans el
  | case4 h t ts r er _ g l el ih =>
    obtain ⟨r', l', er', el', rfl⟩ := release_cons_inv e
    cases er.symm.trans er'
    have := ih el'
    rw [List.append_assoc] at this
    rw [List.cons_append, release_cons er this, List.append_assoc]

/-- To prove something of a whole cascade from a sound heap, prove it of the empty one and of one
release followed by the rest.  The handles `rest` are those that are not released. -/
theorem Sound.release_induction {rest : List Handle}
    {motive : Heap α → List Handle → Heap α → List (DropRecord α) → Prop}
    (nil : ∀ h : Heap α, h.Sound rest → motive h [] h [])
    (cons : ∀ {h t ts r h' log}, h.Sound (t :: (ts ++ rest)) → h.releaseOne t = .ok r →
      h.Lets t r → r.heap.counters.next = h.counters.next → r.heap.Sound (r.freed ++ ts ++ rest) →
      h'.Sound rest → motive r.heap (r.freed ++ ts) h' log →
      motive h (t :: ts) h' (r.record.toList ++ log))
    {h : Heap α} {pending : List Handle} (hs : h.Sound (pending ++ rest)) :
    ∃ h' log, h.release pending = .ok (h', log) ∧ h'.Sound rest ∧ motive h pending h' log := by
  have step : ∀ {h : Heap α} {t ts r}, h.Sound (t :: ts ++ rest) → h.releaseOne t = .ok r →
      h.Lets t r ∧ r.heap.counters.next = h.counters.next ∧
        r.heap.Sound (r.freed ++ ts ++ rest) := by
    intro h t ts r hs e
    have hs : h.Sound (t :: (ts ++ rest)) := hs
    obtain ⟨r', e', hs', hl, hn⟩ := hs.releaseOne
    obtain rfl := Except.ok.inj (e.symm.trans e')
    exact ⟨hl, hn, List.append_assoc .. ▸ hs'⟩
  induction h, pending using release.induct with
  | case1 h => exact ⟨h, [], release_nil h, hs, nil h hs⟩
  | case2 h t ts f e =>
    have hs : h.Sound (t :: (ts ++ rest)) := hs
    obtain ⟨r, e', -⟩ := hs.releaseOne
    rw [e] at e'
    cases e'
  | case3 h t ts r e _ f e' ih =>
    obtain ⟨h', log, e'', -⟩ := ih (step hs e).2.2
    rw [e'] at e''
    cases e''
  | case4 h t ts r e _ h' log e' ih =>
    obtain ⟨hl, hn, hs'⟩ := step hs e
    obtain ⟨h'', log', e'', hs'', hm⟩ := ih hs'
    exact ⟨h'', _, release_cons e e'', hs'', cons hs e hl hn hs' hs'' hm⟩

/-! ### What is dropped -/

/-- The objects that go when the handles `pending` are released and the handles `rest` stay: an
object that can go goes when each strong handle on it is a pending one or is stored in an object
that goes. -/
inductive Doomed (h : Heap α) (pending rest : List Handle) : ObjectId → Prop
  | intro {p : ObjectId} {x : Object α} (there : h.objects.get? p = some x)
      (can_go : x.slot ≠ none ∨ .owner p ∈ pending) (not_kept : .holding p ∉ rest)
      (holders : ∀ {q y}, h.objects.get? q = some y → ⟨some p⟩ ∈ y.kids → Doomed h pending rest q) :
      Doomed h pending rest p

theorem Lets.without {h : Heap α} {t : Handle} {r : Released α} (hl : h.Lets t r)
    (hn : r.heap.counters.next = h.counters.next) :
    h.Without (dropped r.record.toList) r.heap := by
  cases hl with
  | keeps same => exact .of_objects_eq same hn
  | @drops h' o x rec there last named gone =>
    have hd : dropped (some rec).toList = [o] := by simp [dropped, named]
    rw [hd]
    refine ⟨by simp, ?_, fun p => ?_, ?_, hn⟩
    · intro p hp
      rw [List.mem_singleton.1 hp]
      exact ⟨x, there⟩
    · rw [gone, Slab.get?_erase]
      by_cases e : o = p
      · simp [e]
      · simp [e, Ne.symm e]
    · rw [gone, Slab.next_erase]

theorem owner_not_mem_handles (x : Object α) (o : ObjectId) : .owner o ∉ x.handles := by
  simp [Object.handles]

/-- An object that is doomed after a release was doomed before it, if the release dropped only what
was doomed. -/
theorem Doomed.of_lets {h : Heap α} {t : Handle} {ts rest : List Handle} {r : Released α}
    {p : ObjectId} (hl : h.Lets t r) (hn : r.heap.counters.next = h.counters.next)
    (hd : ∀ o ∈ dropped r.record.toList, h.Doomed (t :: ts) rest o)
    (hp : r.heap.Doomed (r.freed ++ ts) rest p) : h.Doomed (t :: ts) rest p := by
  have hw := hl.without hn
  have hfreed : ∀ o, .owner o ∉ r.freed := by
    intro o
    cases hl with
    | keeps => simp
    | drops => exact owner_not_mem_handles _ o
  induction hp with
  | @intro p x there can_go not_kept _ ih =>
    refine .intro (hw.get?_of_get? there).1 (can_go.imp_right fun hm => ?_) not_kept ?_
    · exact List.mem_cons_of_mem _ ((List.mem_append.1 hm).resolve_left (hfreed p))
    · intro q y hy hk
      by_cases hq : q ∈ dropped r.record.toList
      · exact hd q hq
      · exact ih (by rwa [hw.get?_of_not_mem hq]) hk

/-- The object that a release drops is doomed, for nothing else holds it. -/
theorem Lets.doomed {h : Heap α} {t : Handle} {ts rest : List Handle} {r : Released α}
    (hl : h.Lets t r) (hs : h.Sound (t :: (ts ++ rest)))
    (hs' : r.heap.Sound (r.freed ++ ts ++ rest)) :
    ∀ o ∈ dropped r.record.toList, h.Doomed (t :: ts) rest o := by
  cases hl with
  | keeps => simp
  | @drops h' o x rec there last named gone =>
    intro p hp
    obtain rfl : p = o := by simpa [dropped, named] using hp
    have hno : .holding p ∉ x.handles ++ ts ++ rest ++ h'.stored := fun hm => by
      obtain ⟨y, hy⟩ := Balanced.named hs' hm
      rw [gone, Slab.get?_erase, if_pos rfl] at hy
      cases hy
    simp only [List.mem_append, not_or] at hno
    refine .intro there ?_ hno.1.2 fun {q y} hy hk => ?_
    · rcases last with rfl | ⟨-, hc⟩
      · exact .inr List.mem_cons_self
      · exact .inl hc
    · exfalso
      by_cases e : p = q
      · subst e
        rw [there] at hy
        cases hy
        exact hno.1.1.1 (by simpa [Object.handles] using hk)
      · refine hno.2 (mem_stored_of_mem_kids (o := q) (x := y) ?_ hk)
        rw [gone, Slab.get?_erase, if_neg e, hy]

/-- What a cascade leaves behind, and that it drops no object that is not doomed and every object
whose owner it releases. -/
theorem Sound.release_spec {h : Heap α} {pending rest : List Handle}
    (hs : h.Sound (pending ++ rest)) :
    ∃ h' log, h.release pending = .ok (h', log) ∧ h'.Sound rest ∧ h.Without (dropped log) h' ∧
      (∀ p ∈ dropped log, h.Doomed pending rest p) ∧
      ∀ p, .owner p ∈ pending → p ∈ dropped log := by
  refine hs.release_induction
    (motive := fun h pending h' log => h.Without (dropped log) h' ∧
      (∀ p ∈ dropped log, h.Doomed pending rest p) ∧
      ∀ p, .owner p ∈ pending → p ∈ dropped log) ?_ ?_
  · exact fun h _ => ⟨.refl h, by simp, by simp⟩
  · intro h t ts r h' log hs _ hl hn hs' _ ⟨hw, hd, ho⟩
    refine ⟨?_, ?_, ?_⟩
    · rw [dropped_append]
      exact (hl.without hn).trans hw
    · intro p hp
      rw [dropped_append, List.mem_append] at hp
      rcases hp with hp | hp
      · exact hl.doomed hs hs' p hp
      · exact (hd p hp).of_lets hl hn (hl.doomed hs hs')
    · intro p hp
      rw [dropped_append, List.mem_append]
      rcases List.mem_cons.1 hp with rfl | hp
      · left
        cases hl with
        | keeps _ not_owner => exact absurd rfl (not_owner p)
        | drops _ last named =>
          rcases last with e | ⟨e, -⟩
          · cases e
            simp [dropped, named]
          · cases e
      · exact .inr (ho p (List.mem_append_right _ hp))

/-- A cascade ends, the books stay right, and exactly the doomed objects are dropped, each of them
once. -/
theorem Sound.release {h : Heap α} {pending rest : List Handle} (hs : h.Sound (pending ++ rest)) :
    ∃ h' log, h.release pending = .ok (h', log) ∧ h'.Sound rest ∧ h.Without (dropped log) h' ∧
      ∀ p, p ∈ dropped log ↔ h.Doomed pending rest p := by
  obtain ⟨h', log, e, hs', hw, hd, ho⟩ := hs.release_spec
  refine ⟨h', log, e, hs', hw, fun p => ⟨hd p, fun hp => ?_⟩⟩
  induction hp with
  | @intro p x there can_go not_kept _ ih =>
    refine Decidable.byContradiction fun hp => ?_
    have there' : h'.objects.get? p = some x := by rw [hw.get?_of_not_mem hp, there]
    rcases can_go with hc | hm
    · obtain ⟨c, hc⟩ := Option.ne_none_iff_exists'.1 hc
      -- the object is still there, so something still holds it; not from outside, so from inside
      -- an object that is still there too, against the induction hypothesis
      have hm := (Balanced.attached hs' there' hc).1
      have hm := (List.mem_append.1 hm).resolve_left not_kept
      obtain ⟨q, y, hy, hk⟩ := mem_stored.1 hm
      obtain ⟨hy, hq⟩ := hw.get?_of_get? hy
      exact hq (ih hy (by simpa [Object.handles] using hk))
    · exact hp (ho p hm)

end Heap

end Custody
