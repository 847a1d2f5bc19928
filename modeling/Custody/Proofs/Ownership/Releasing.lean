import Mathlib.Data.List.Forall2
import Custody.Proofs.Ownership.Taking

/-!
# One release keeps the books

A release first lets go of its handle (`Heap.letGo`), and then drops the object of which this was
the last handle, if it was (`releaseOne_eq`).  In between the object is its own owner: no handle
finds it any more, and it is still there.

`Sound.releaseOne` is the step behind every release: from a sound heap it never stops, it leaves the
heap sound without the handle and with the handles of a dropped object pending in its place, and
`Heap.Lets` says what it did to the objects: nothing, or it dropped the one the handle was the last
to hold.

What an object finds out while it is dropped costs nothing: `Balanced.look` and `Balanced.lastWords`
give the heap back as it was.
-/

namespace Custody

namespace Heap

variable {α : Type}

/-! ### Letting go -/

/-- What a release comes to before it drops an object: the heap, and the object that is dropped
then, if one is. -/
def letGo (h : Heap α) : Handle → Except Fault (Heap α × Option ObjectId)
  | .strong ⟨none⟩ => .ok (h, none)
  | .holding o => do
    match ← h.attached o with
    | none => .ok (h, none)
    | some c => do
      let (h, left) ← h.discountStrong c
      if left > 0 then .ok (h, none) else .ok (← h.retire o c, some o)
  | .weak ⟨none⟩ => .ok (h, none)
  | .watching c => do
    let (h, left) ← h.discountWeak c
    let k ← h.counter c
    if left > 0 ∨ k.strong > 0 then .ok (h, none)
    else if k.living.isSome then .error .ownerless
    else .ok (← h.freeCounter c, none)
  | .owner o => .ok (h, some o)

theorem releaseOne_eq (h : Heap α) (t : Handle) :
    h.releaseOne t = h.letGo t >>= fun r => r.2.elim (.ok ⟨r.1, [], none⟩) r.1.destroy := by
  match t with
  | .strong ⟨none⟩ | .weak ⟨none⟩ | .owner o => rfl
  | .holding o =>
    simp only [Heap.releaseOne, letGo, bind_assoc]
    refine congrArg _ (funext fun slot => ?_)
    cases slot with
    | none => rfl
    | some c =>
      simp only [bind_assoc]
      refine congrArg _ (funext fun r => ?_)
      split
      · rfl
      · rw [bind_assoc]
        rfl
  | .watching c =>
    simp only [Heap.releaseOne, letGo, bind_assoc]
    refine congrArg _ (funext fun r => congrArg _ (funext fun k => ?_))
    split
    · rfl
    · split
      · rfl
      · rw [bind_assoc]
        rfl

theorem stored_letGo {h h' : Heap α} {t : Handle} {d : Option ObjectId}
    (e : h.letGo t = .ok (h', d)) : h'.stored = h.stored := by
  unfold letGo at e
  split at e
  · cases e
    rfl
  · simp only [bind_eq_ok_iff] at e
    obtain ⟨slot, -, e⟩ := e
    split at e
    · cases e
      rfl
    · simp only [bind_eq_ok_iff] at e
      obtain ⟨⟨h₁, left⟩, hd, e⟩ := e
      have hst := stored_eq_of_objects (discountStrong_objects hd)
      split at e
      · cases e
        exact hst
      · obtain ⟨h₂, hr, e⟩ := bind_eq_ok_iff.1 e
        cases e
        rw [stored_retire hr, hst]
  · cases e
    rfl
  · simp only [bind_eq_ok_iff] at e
    obtain ⟨⟨h₁, left⟩, hd, k, -, e⟩ := e
    have hst := stored_eq_of_objects (discountWeak_objects hd)
    split at e
    · cases e
      exact hst
    · split at e
      · cases e
      · obtain ⟨h₂, hf, e⟩ := bind_eq_ok_iff.1 e
        cases e
        rw [stored_eq_of_objects (freeCounter_objects hf), hst]
  · cases e
    rfl

/-- What letting go of `t` does to the objects of `h`. -/
inductive LetsGo (h : Heap α) (t : Handle) : Heap α → Option ObjectId → Prop
  /-- Nothing is to be dropped. -/
  | keeps {h' : Heap α} (same : h'.objects = h.objects) (not_owner : ∀ o, t ≠ .owner o) :
      LetsGo h t h' none
  /-- The object at `o` is to be dropped; it is not managed any more. -/
  | bares {h' : Heap α} {o : ObjectId} {x : Object α} (there : h.objects.get? o = some x)
      (last : t = .owner o ∨ t = .holding o ∧ x.slot ≠ none)
      (bare : h'.objects.get? o = some { x with slot := none })
      (others : h'.objects.erase o = h.objects.erase o) : LetsGo h t h' (some o)

/-- What one release of `t` does to the objects of `h`. -/
inductive Lets (h : Heap α) (t : Handle) : Released α → Prop
  /-- Nothing is dropped. -/
  | keeps {h' : Heap α} (same : h'.objects = h.objects) (not_owner : ∀ o, t ≠ .owner o) :
      Lets h t ⟨h', [], none⟩
  /-- The object at `o` is dropped, and its handles are pending. -/
  | drops {h' : Heap α} {o : ObjectId} {x : Object α} {rec : DropRecord α}
      (there : h.objects.get? o = some x)
      (last : t = .owner o ∨ t = .holding o ∧ x.slot ≠ none) (named : rec.object = o)
      (gone : h'.objects = h.objects.erase o) : Lets h t ⟨h', x.handles, some rec⟩

namespace Balanced

variable {h h' : Heap α} {hs hs' : List Handle} {o : ObjectId} {c : CounterId} {x : Object α}

/-! ### Counting down -/

theorem discountStrong_eq (hb : h.Balanced (.holding o :: hs)) (hx : h.objects.get? o = some x)
    (hc : x.slot = some c) :
    h.discountStrong c = .ok (h.setCounter c fun k => { k with strong := hs.count (.holding o) },
      hs.count (.holding o)) := by
  simp [discountStrong, counter_eq_ok_iff.2 (hb.attached hx hc).2, tally, bind, Except.bind]

/-- A handle that is not the last one is taken out of the count. -/
theorem discountStrong (hb : h.Balanced (.holding o :: hs)) (hx : h.objects.get? o = some x)
    (hc : x.slot = some c) (hm : .holding o ∈ hs) :
    (h.setCounter c fun k => { k with strong := hs.count (.holding o) }).Balanced hs := by
  refine hb.setCounter_tally hx hc ?_ hm ?_ ?_ ?_
  · simp [tally]
  · intro p hp
    simp [Ne.symm hp]
  · simp
  · simp

theorem discountWeak_eq {k : Counter} (hb : h.Balanced (.watching c :: hs))
    (hk : h.counters.get? c = some k) :
    h.discountWeak c = .ok (h.setCounter c fun k => { k with weak := hs.count (.watching c) },
      hs.count (.watching c)) := by
  have hw := hb.weak_eq hk
  rw [List.count_cons_self] at hw
  simp [discountWeak, counter_eq_ok_iff.2 hk, hw, bind, Except.bind]

theorem discountWeak (hb : h.Balanced (.watching c :: hs)) (hx : h.objects.get? o = some x)
    (hc : x.slot = some c) :
    (h.setCounter c fun k => { k with weak := hs.count (.watching c) }).Balanced hs := by
  refine hb.setCounter_tally hx hc ?_ (by simpa using (hb.attached hx hc).1) ?_ ?_ ?_
  · simp [tally]
  · simp
  · intro d hd
    simp [Ne.symm hd]
  · simp

/-- The counter of an object that is gone follows the handles that still watch it, and is freed
after the last of them. -/
theorem leave_remnant (hb : h.Balanced (.watching c :: hs))
    (hk : h.counters.get? c = some (remnant (.watching c :: hs) c)) (ho : h'.objects = h.objects)
    (other : ∀ d, d ≠ c → h'.counters.get? d = h.counters.get? d)
    (here : h'.counters.get? c = if .watching c ∈ hs then some (remnant hs c) else none) :
    h'.Balanced hs := by
  constructor
  · exact fun hp => ho ▸ hb.named (List.mem_cons_of_mem _ hp)
  · intro d hd
    by_cases e : d = c
    · subst e
      exact ⟨_, by rw [here, if_pos hd]⟩
    · exact other d e ▸ hb.bound (List.mem_cons_of_mem _ hd)
  · intro p y d hy hd
    rw [ho] at hy
    obtain ⟨hm, hk'⟩ := hb.attached hy hd
    have e : d ≠ c := by
      rintro rfl
      rw [hk] at hk'
      simp [remnant, tally] at hk'
    refine ⟨by simpa using hm, ?_⟩
    rw [other d e, hk']
    simp [tally, Ne.symm e]
  · intro d k hk'
    by_cases e : d = c
    · subst e
      rw [here] at hk'
      split at hk'
      · next hm => exact .inr ⟨hm, (Option.some.inj hk').symm⟩
      · cases hk'
    · rw [other d e] at hk'
      rw [ho]
      simpa [e, remnant, Ne.symm e] using hb.allocated hk'
  · intro p hp
    rw [ho]
    simpa using hb.owned (List.mem_cons_of_mem _ hp)

/-- An object whose last strong handle is gone, with its slot emptied and its counter left to what
watches it, is its own owner until it is freed. -/
theorem leave_owner (hb : h.Balanced (.holding o :: hs)) (hx : h.objects.get? o = some x)
    (hc : x.slot = some c) (hm : .holding o ∉ hs) (ho : h'.objects = (h.detach o).objects)
    (other : ∀ d, d ≠ c → h'.counters.get? d = h.counters.get? d)
    (here : h'.counters.get? c = if .watching c ∈ hs then some (remnant hs c) else none) :
    h'.Balanced (.owner o :: hs) := by
  have hn : .owner o ∉ hs := fun hn => hb.owner_not_mem_of_slot hx hc (List.mem_cons_of_mem _ hn)
  have get : ∀ p, h'.objects.get? p =
      if o = p then (h.objects.get? p).map fun x => { x with slot := none }
      else h.objects.get? p := fun p => by
    rw [ho, detach, setObject, Slab.get?_modify]
  have here' : h'.objects.get? o = some { x with slot := none } := by
    rw [get, if_pos rfl, hx, Option.map_some]
  constructor
  · intro p hp
    have hp' : .holding p ∈ hs := by simpa using hp
    have e : o ≠ p := fun e => hm (e ▸ hp')
    rw [get, if_neg e]
    exact hb.named (List.mem_cons_of_mem _ hp')
  · intro d hd
    have hd' : .watching d ∈ hs := by simpa using hd
    by_cases e : d = c
    · subst e
      exact ⟨_, by rw [here, if_pos hd']⟩
    · exact other d e ▸ hb.bound (List.mem_cons_of_mem _ hd')
  · intro p y d hy hd
    rw [get] at hy
    split at hy
    · next e =>
      subst e
      rw [hx] at hy
      cases hy
      cases hd
    · next e =>
      have e' : d ≠ c := by
        rintro rfl
        exact e (hb.slot_inj hy hd hx hc)
      obtain ⟨hp, hk⟩ := hb.attached hy hd
      refine ⟨by simpa [Ne.symm e] using hp, ?_⟩
      rw [other d e', hk]
      simp [tally, e]
  · intro d k hk
    by_cases e : d = c
    · subst e
      rw [here] at hk
      split at hk
      · next hw =>
        exact .inr ⟨List.mem_cons_of_mem _ hw, by rw [← Option.some.inj hk]; simp [remnant]⟩
      · cases hk
    · rw [other d e] at hk
      rcases hb.allocated hk with ⟨p, y, hy, hd⟩ | ⟨hw, rfl⟩
      · have e' : o ≠ p := by
          rintro rfl
          rw [hx] at hy
          cases hy
          exact e (Option.some.inj (hd.symm.trans hc))
        exact .inl ⟨p, y, by rw [get, if_neg e', hy], hd⟩
      · exact .inr ⟨by simpa using hw, by simp [remnant]⟩
  · intro p hp
    by_cases e : p = o
    · subst e
      refine ⟨?_, by simpa using hm, _, here', rfl⟩
      rw [List.count_cons_self, List.count_eq_zero.2 hn]
    · have hp' : .owner p ∈ hs := by simpa [e] using hp
      obtain ⟨h₁, h₂, y, hy, hs'⟩ := hb.owned (List.mem_cons_of_mem _ hp')
      refine ⟨by simpa [Ne.symm e] using h₁, by simpa [e] using h₂, y, ?_, hs'⟩
      rw [get, if_neg (Ne.symm e), hy]

/-- Retiring the counter of an object makes the object its own owner. -/
theorem retire (hb : h.Balanced (.holding o :: hs)) (hx : h.objects.get? o = some x)
    (hc : x.slot = some c) (hm : .holding o ∉ hs) :
    ∃ h', (h.setCounter c fun k => { k with strong := hs.count (.holding o) }).retire o c = .ok h' ∧
      h'.Balanced (.owner o :: hs) ∧ h'.objects = (h.detach o).objects ∧
      h'.counters.next = h.counters.next := by
  have hk := (hb.attached hx hc).2
  have hz : hs.count (.holding o) = 0 := List.count_eq_zero.2 hm
  have hk' : (h.setCounter c fun k => { k with strong := 0 }).counters.get? c =
      some { strong := 0, weak := hs.count (.watching c), object := some o } := by
    simp [setCounter, Slab.get?_modify, hk, tally]
  rw [hz, Heap.retire, counter_eq_ok_iff.2 hk']
  simp only [bind, Except.bind]
  by_cases hw : hs.count (.watching c) = 0
  · refine ⟨{ objects := (h.detach o).objects, counters := h.counters.erase c }, ?_, ?_, rfl,
      by simp⟩
    · have hk'' : ((h.setCounter c fun k => { k with strong := 0 }).detach o).counter c =
          .ok { strong := 0, weak := 0, object := some o } := by
        rw [counter_eq_ok_iff, detach, setObject_counters, hk', hw]
      rw [if_pos hw, freeCounter, hk'']
      simp [bind, Except.bind, detach, setObject, setCounter, Slab.erase_modify]
    · refine hb.leave_owner hx hc hm rfl (fun d hd => ?_) ?_
      · rw [Slab.get?_erase, if_neg (Ne.symm hd)]
      · rw [Slab.get?_erase, if_pos rfl, if_neg (List.count_eq_zero.1 hw)]
  · refine ⟨_, by rw [if_neg hw], ?_, ?_, ?_⟩
    · refine hb.leave_owner hx hc hm ?_ (fun d hd => ?_) ?_
      · simp [detach, setObject, setCounter]
      · simp [detach, setObject, setCounter, Slab.get?_modify, Ne.symm hd]
      · rw [if_pos (List.count_pos_iff.1 (Nat.pos_of_ne_zero hw))]
        simp [detach, setObject, setCounter, Slab.get?_modify, hk, tally, remnant]
    · simp [detach, setObject, setCounter]
    · simp [detach, setObject, setCounter]

/-! ### What an object finds out while it is dropped -/

theorem setCounter_countStrong (hb : h.Balanced hs) (hx : h.objects.get? o = some x)
    (hc : x.slot = some c) :
    ((h.countStrong c).setCounter c fun k => { k with strong := hs.count (.holding o) }) = h := by
  refine congrArg (Heap.mk h.objects) (Slab.modify_modify_cancel (hb.attached hx hc).2 ?_)
  simp [tally]

/-- A strong handle taken for a moment leaves no trace. -/
theorem giveBack_countStrong (hb : h.Balanced hs) (hx : h.objects.get? o = some x)
    (hc : x.slot = some c) : (h.countStrong c).giveBack ⟨some o⟩ = .ok h := by
  have hb' := hb.countStrong hx hc
  have hx' : (h.countStrong c).objects.get? o = some x := hx
  have hpos : hs.count (.holding o) ≠ 0 :=
    Nat.ne_of_gt (List.count_pos_iff.2 (hb.attached hx hc).1)
  simp [giveBack, hb'.attached_eq hx', hc, hb'.discountStrong_eq hx' hc, hpos, bind, Except.bind,
    hb.setCounter_countStrong hx hc]

theorem objectExists_of_visible {w : Weak} (hb : h.Balanced hs) (hm : .weak w ∈ hs)
    (hv : h.visible w = .ok none) : h.objectExists w = .ok false := by
  obtain ⟨_ | c⟩ := w
  · rfl
  · obtain ⟨k, hk⟩ := hb.bound hm
    have hl : k.living = none := by
      simpa [Heap.visible, boundTo, counter_eq_ok_iff.2 hk, Functor.map, Except.map, bind,
        Except.bind] using hv
    rw [(hb.eq_remnant_of_living hk hl).2] at hk
    simp [objectExists, boundTo, counter_eq_ok_iff.2 hk, remnant, Functor.map, Except.map, bind,
      Except.bind]

/-- Looking at a watched object gives its value if a handle holds it; else it is reported as not
existing.  The heap is as before. -/
theorem look {w : Weak} (hb : h.Balanced hs) (hm : .weak w ∈ hs) :
    h.visible w = .ok none ∧ h.look w = .ok (h, .missed false) ∨
      ∃ o x, h.visible w = .ok (some o) ∧ h.objects.get? o = some x ∧
        h.look w = .ok (h, .held x.value) := by
  rcases hb.visible hm with hv | ⟨o, c, x, -, hv, hx, hc⟩
  · refine .inl ⟨hv, ?_⟩
    simp [Heap.look, Heap.upgrade, hv, hb.objectExists_of_visible hm hv, bind, Except.bind]
  · refine .inr ⟨o, x, hv, hx, ?_⟩
    have hx' : (h.countStrong c).objects.get? o = some x := hx
    simp [Heap.look, Heap.upgrade, hv, hb.share_of_slot hx hc, object_eq_ok_iff.2 hx',
      hb.giveBack_countStrong hx hc, bind, Except.bind]

theorem lookAll (hb : h.Balanced hs) {ws : List Weak} (hm : ∀ w ∈ ws, .weak w ∈ hs) :
    ∃ seen, h.lookAll ws = .ok (h, seen) ∧
      List.Forall₂ (fun w s => h.look w = .ok (h, s)) ws seen := by
  induction ws with
  | nil => exact ⟨[], rfl, .nil⟩
  | cons w ws ih =>
    obtain ⟨seen, e, hf⟩ := ih fun v hv => hm v (List.mem_cons_of_mem _ hv)
    have hl : ∃ s, h.look w = .ok (h, s) := by
      rcases hb.look (hm w List.mem_cons_self) with ⟨-, hl⟩ | ⟨o, x, -, -, hl⟩
      · exact ⟨_, hl⟩
      · exact ⟨_, hl⟩
    obtain ⟨s, hl⟩ := hl
    exact ⟨s :: seen, by simp [Heap.lookAll, hl, e, bind, Except.bind], .cons hl hf⟩

/-- An object with an empty slot can take no handle on itself, and what it reports leaves the heap
as it was. -/
theorem lastWords (hb : h.Balanced hs) (hx : h.objects.get? o = some x) (hc : x.slot = none)
    (hm : ∀ w ∈ x.watch, .weak w ∈ hs) :
    ∃ seen, h.lastWords o x = .ok (h, ⟨o, x.value, false, false, seen⟩) ∧
      List.Forall₂ (fun w s => h.look w = .ok (h, s)) x.watch seen := by
  obtain ⟨seen, e, hf⟩ := hb.lookAll hm
  refine ⟨seen, ?_, hf⟩
  simp [Heap.lastWords, e, hb.share_of_unmanaged hx hc, hb.observe_of_unmanaged hx hc, giveBack,
    giveBackWeak, bind, Except.bind]

/-! ### Dropping an object -/

theorem erase_owner (hb : h.Balanced (.owner o :: hs)) :
    Balanced { h with objects := h.objects.erase o } hs := by
  obtain ⟨hone, hfree, x, hx, hn⟩ := hb.owned List.mem_cons_self
  have hno : .owner o ∉ hs := by
    rw [List.count_cons_self] at hone
    exact List.count_eq_zero.1 (by omega)
  constructor
  · intro p hp
    have e : o ≠ p := fun e => hfree (e ▸ List.mem_cons_of_mem _ hp)
    rw [Slab.get?_erase, if_neg e]
    exact hb.named (List.mem_cons_of_mem _ hp)
  · exact fun hd => hb.bound (List.mem_cons_of_mem _ hd)
  · intro p y d hy hd
    rw [Slab.get?_erase] at hy
    split at hy
    · cases hy
    · simpa [tally] using hb.attached hy hd
  · intro d k hk
    rcases hb.allocated hk with ⟨p, y, hy, hd⟩ | hr
    · have e : o ≠ p := by
        rintro rfl
        rw [hx] at hy
        cases hy
        rw [hn] at hd
        cases hd
      exact .inl ⟨p, y, by rw [Slab.get?_erase, if_neg e, hy], hd⟩
    · exact .inr (by simpa [remnant] using hr)
  · intro p hp
    have e : o ≠ p := fun e => hno (e ▸ hp)
    rw [Slab.get?_erase, if_neg e]
    simpa [e] using hb.owned (List.mem_cons_of_mem _ hp)

theorem destroy (hb : h.Balanced (.owner o :: hs)) (hx : h.objects.get? o = some x)
    (hm : ∀ w ∈ x.watch, .weak w ∈ hs) :
    ∃ rec : DropRecord α, rec.object = o ∧
      h.destroy o = .ok ⟨{ h with objects := h.objects.erase o }, x.handles, some rec⟩ := by
  obtain ⟨-, -, y, hy, hn⟩ := hb.owned List.mem_cons_self
  obtain rfl := Option.some.inj (hx.symm.trans hy)
  obtain ⟨seen, e, -⟩ := hb.lastWords hx hn fun w hw => List.mem_cons_of_mem _ (hm w hw)
  refine ⟨⟨o, x.value, false, false, seen⟩, rfl, ?_⟩
  simp [Heap.destroy, object_eq_ok_iff.2 hx, e, hn, bind, Except.bind]

/-! ### One release -/

theorem letGo_holding (hb : h.Balanced (.holding o :: hs)) :
    ∃ h' d, h.letGo (.holding o) = .ok (h', d) ∧ h'.Balanced (d.toList.map .owner ++ hs) ∧
      h.LetsGo (.holding o) h' d ∧ h'.counters.next = h.counters.next := by
  obtain ⟨x, hx⟩ := hb.named List.mem_cons_self
  simp only [Heap.letGo, hb.attached_eq hx, bind, Except.bind]
  cases hc : x.slot with
  | none =>
    refine ⟨h, none, rfl, ?_, .keeps rfl (fun _ => by simp), rfl⟩
    rw [Option.toList_none, List.map_nil, List.nil_append]
    constructor
    · exact fun hp => hb.named (List.mem_cons_of_mem _ hp)
    · exact fun hd => hb.bound (List.mem_cons_of_mem _ hd)
    · intro p y d hy hd
      have e : o ≠ p := by
        rintro rfl
        rw [hx] at hy
        cases hy
        rw [hc] at hd
        cases hd
      simpa [tally, e, Ne.symm e] using hb.attached hy hd
    · intro d k hk
      simpa [remnant] using hb.allocated hk
    · intro p hp
      obtain ⟨h₁, h₂, hy⟩ := hb.owned (List.mem_cons_of_mem _ hp)
      exact ⟨by simpa using h₁, fun hm => h₂ (List.mem_cons_of_mem _ hm), hy⟩
  | some c =>
    simp only [hb.discountStrong_eq hx hc]
    by_cases hm : .holding o ∈ hs
    · have hpos : 0 < hs.count (.holding o) := List.count_pos_iff.2 hm
      refine ⟨_, none, by rw [if_pos hpos], hb.discountStrong hx hc hm, ?_, by simp [setCounter]⟩
      exact .keeps rfl fun _ => by simp
    · have hz : hs.count (.holding o) = 0 := List.count_eq_zero.2 hm
      obtain ⟨h', e, hb', hobj, hnext⟩ := hb.retire hx hc hm
      refine ⟨h', some o, by rw [if_neg (by omega), e], hb', .bares hx (.inr ⟨rfl, ?_⟩) ?_ ?_,
        hnext⟩
      · simp [hc]
      · rw [hobj, detach, setObject, Slab.get?_modify, if_pos rfl, hx, Option.map_some]
      · simp only [hobj, detach, setObject, Slab.erase_modify]

theorem letGo_watching (hb : h.Balanced (.watching c :: hs)) :
    ∃ h', h.letGo (.watching c) = .ok (h', none) ∧ h'.Balanced hs ∧ h'.objects = h.objects ∧
      h'.counters.next = h.counters.next := by
  obtain ⟨k, hk⟩ := hb.bound List.mem_cons_self
  have hk' : (h.setCounter c fun k => { k with weak := hs.count (.watching c) }).counters.get? c =
      some { k with weak := hs.count (.watching c) } := by
    simp [setCounter, Slab.get?_modify, hk]
  simp only [Heap.letGo, hb.discountWeak_eq hk, counter_eq_ok_iff.2 hk', bind, Except.bind]
  cases hl : k.living with
  | some o =>
    obtain ⟨x, hx, hc⟩ := hb.slot_of_living hk hl
    have hpos : 0 < k.strong := by
      rw [hb.eq_tally_of_living hk hl]
      exact List.count_pos_iff.2 (hb.attached hx hc).1
    exact ⟨_, by rw [if_pos (.inr hpos)], hb.discountWeak hx hc, rfl, by simp [setCounter]⟩
  | none =>
    obtain ⟨-, rfl⟩ := hb.eq_remnant_of_living hk hl
    by_cases hm : .watching c ∈ hs
    · have hpos : 0 < hs.count (.watching c) := List.count_pos_iff.2 hm
      refine ⟨h.setCounter c fun k => { k with weak := hs.count (.watching c) },
        by rw [if_pos (.inl hpos)], ?_, rfl, by simp [setCounter]⟩
      refine hb.leave_remnant hk rfl (fun d hd => ?_) ?_
      · simp [setCounter, Slab.get?_modify, Ne.symm hd]
      · rw [if_pos hm, hk']
        rfl
    · have hz : hs.count (.watching c) = 0 := List.count_eq_zero.2 hm
      refine ⟨{ h with counters := h.counters.erase c }, ?_, ?_, rfl, by simp⟩
      · rw [if_neg (by simp [hz, remnant]), if_neg (by simp [Counter.living, remnant]), freeCounter,
          counter_eq_ok_iff.2 hk']
        simp only [bind, Except.bind]
        rw [if_pos ⟨rfl, hz⟩]
        simp [setCounter, Slab.erase_modify]
      · refine hb.leave_remnant hk rfl (fun d hd => ?_) ?_
        · rw [Slab.get?_erase, if_neg (Ne.symm hd)]
        · rw [Slab.get?_erase, if_pos rfl, if_neg hm]

/-- Letting go of a handle never stops; an object that is to be dropped then is its own owner. -/
theorem letGo {t : Handle} (hb : h.Balanced (t :: hs)) :
    ∃ h' d, h.letGo t = .ok (h', d) ∧ h'.Balanced (d.toList.map .owner ++ hs) ∧
      h.LetsGo t h' d ∧ h'.counters.next = h.counters.next := by
  match t with
  | .strong ⟨none⟩ =>
    exact ⟨h, none, rfl, cons_unset_iff.1 hb, .keeps rfl (fun _ => by simp), rfl⟩
  | .holding o => exact hb.letGo_holding
  | .weak ⟨none⟩ =>
    exact ⟨h, none, rfl, cons_unbound_iff.1 hb, .keeps rfl (fun _ => by simp), rfl⟩
  | .watching c =>
    obtain ⟨h', e, hb', same, hn⟩ := hb.letGo_watching
    exact ⟨h', none, e, hb', .keeps same (fun _ => by simp), hn⟩
  | .owner o =>
    obtain ⟨-, -, x, hx, hc⟩ := hb.owned List.mem_cons_self
    have hx' : { x with slot := none } = x := by rw [← hc]
    exact ⟨h, some o, rfl, hb, .bares hx (.inl rfl) (hx'.symm ▸ hx) rfl, rfl⟩

/-- A release never stops, and leaves the books right for the handles that are left. -/
theorem releaseOne {t : Handle} (hb : h.Balanced (t :: hs)) (sub : ∀ t ∈ h.stored, t ∈ hs) :
    ∃ r, h.releaseOne t = .ok r ∧ r.heap.Balanced hs ∧ h.Lets t r ∧
      r.heap.counters.next = h.counters.next := by
  obtain ⟨h', d, e, hb', hl, hn⟩ := hb.letGo
  rw [releaseOne_eq, e]
  cases hl with
  | keeps same not_owner => exact ⟨_, rfl, hb', .keeps same not_owner, hn⟩
  | @bares o x there last bare others =>
    have hw : ∀ w ∈ x.watch, .weak w ∈ hs := fun w hw =>
      sub _ (mem_stored.2 ⟨o, x, there, by simpa [Object.handles] using hw⟩)
    obtain ⟨rec, hrec, e'⟩ := Balanced.destroy hb' bare hw
    exact ⟨_, e', erase_owner hb', .drops (x := x) there last hrec others, hn⟩

end Balanced

/-- The step of a cascade: the handle is gone, and the handles of an object that was dropped take
its place. -/
theorem Sound.releaseOne {h : Heap α} {t : Handle} {held : List Handle}
    (hs : h.Sound (t :: held)) :
    ∃ r, h.releaseOne t = .ok r ∧ r.heap.Sound (r.freed ++ held) ∧ h.Lets t r ∧
      r.heap.counters.next = h.counters.next := by
  have hb : h.Balanced (t :: (held ++ h.stored)) := hs
  obtain ⟨r, e, hb, hl, hn⟩ := hb.releaseOne fun t ht => List.mem_append_right _ ht
  refine ⟨r, e, ?_, hl, hn⟩
  have hp : (held ++ h.stored).Perm (held ++ (r.freed ++ r.heap.stored)) :=
    (perm_stored_releaseOne e).append_left held
  refine hb.perm (hp.trans ?_)
  rw [List.append_assoc]
  exact List.perm_append_comm_assoc held r.freed r.heap.stored

end Heap

end Custody
