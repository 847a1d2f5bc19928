import Custody.Proofs.Ownership.Order

/-!
# Heaps that have grown

`Heap.Over b h` says that `h` is the heap `b` with new objects besides, which are managed and store
no handles.  Nothing that `b` had can hold a new object, and no new object holds anything.  So when
no handle on a new object is kept, a release drops all of them and nothing else, and the heap is `b`
again (`Over.release`): the same objects, the same counters and as many of them
(`Sound.counters_eq`, `Sound.live_eq`).

A strong handle that is one of several can be released without any such consequence
(`Sound.release_spare`).
-/

namespace Custody

namespace Heap

variable {α : Type} {b h h' : Heap α} {held kept pending rest hs : List Handle} {o : ObjectId}
  {c : CounterId} {x : Object α} {s : Strong}

/-! ### How many counters there are -/

/-- A counter is allocated if it is in a slot or watched. -/
theorem Balanced.isSome_counter_iff (hb : h.Balanced hs) : (h.counters.get? c).isSome ↔
    (∃ o x, h.objects.get? o = some x ∧ x.slot = some c) ∨ .watching c ∈ hs := by
  rw [Option.isSome_iff_exists]
  constructor
  · rintro ⟨k, hk⟩
    exact (hb.allocated hk).imp_right And.left
  · rintro (⟨o, x, hx, hc⟩ | hm)
    · exact ⟨_, (hb.attached hx hc).2⟩
    · exact hb.bound hm

theorem live_eq_of_isSome
    (hc : ∀ c, (h'.counters.get? c).isSome = (h.counters.get? c).isSome) : h'.live = h.live :=
  Slab.size_congr hc

theorem Takes.live_eq {t : Handle} (ht : h.Takes hs t h') : h'.live = h.live := by
  refine live_eq_of_isSome fun c => ?_
  have e := congrArg Option.isSome (ht.living c)
  rwa [Option.isSome_map, Option.isSome_map] at e

/-- Strong handles come and go without a counter being allocated or freed, as long as the objects
stay. -/
theorem Balanced.live_eq_of_objects {hs' : List Handle} (hb : h.Balanced hs)
    (hb' : h'.Balanced hs') (ho : h'.objects = h.objects)
    (hw : ∀ c, .watching c ∈ hs' ↔ .watching c ∈ hs) : h'.live = h.live := by
  refine live_eq_of_isSome fun c => Bool.eq_iff_iff.2 ?_
  rw [hb.isSome_counter_iff, hb'.isSome_counter_iff, ho, hw]

theorem live_adopt (h : Heap α) (x : Object α) : (h.adopt x).live = h.live + 1 := by
  rw [live, live, adopt, Slab.size, Slab.toList_insert, List.length_append]
  rfl

/-- The counters are known from the handles that are held and the objects. -/
theorem Sound.counters_eq (hs : h.Sound held) (hs' : h'.Sound held)
    (ho : ∀ p, h'.objects.get? p = h.objects.get? p) (c : CounterId) :
    h'.counters.get? c = h.counters.get? c := by
  have hst : h'.stored = h.stored := by
    rw [stored, stored, Slab.toList_congr ho]
  rw [Sound, hst] at hs'
  exact Balanced.counters_eq hs hs' ho c

theorem Sound.live_eq (hs : h.Sound held) (hs' : h'.Sound held)
    (ho : ∀ p, h'.objects.get? p = h.objects.get? p) : h'.live = h.live :=
  live_eq_of_isSome fun c => by rw [hs.counters_eq hs' ho]

/-! ### Handles to spare -/

/-- The strong count of a managed object says how many handles on it there are. -/
theorem Sound.strongCount_eq (hs : h.Sound held) (hx : h.objects.get? o = some x)
    (hc : x.slot = some c) : h.strongCount ⟨some o⟩ =
      .ok (held.count (.holding o) + h.stored.count (.holding o)) := by
  have hk := (Balanced.attached hs hx hc).2
  simp only [strongCount, counterOf, Balanced.attached_eq hs hx, hc, counter_eq_ok_iff.2 hk,
    Functor.map, Except.map, bind, Except.bind, Option.map_some, Option.getD_some, tally,
    List.count_append]

/-- Nothing goes as long as what stays holds every managed object. -/
theorem not_doomed (stays : ∀ {p x c}, h.objects.get? p = some x → x.slot = some c →
    .holding p ∈ rest ++ h.stored) (howner : ∀ o, .owner o ∉ pending) :
    ¬ h.Doomed pending rest o := by
  intro hd
  induction hd with
  | @intro p x there can_go not_kept holders ih =>
    obtain ⟨c, hc⟩ := Option.ne_none_iff_exists'.1 (can_go.resolve_right (howner p))
    rcases List.mem_append.1 (stays there hc) with hm | hm
    · exact not_kept hm
    · obtain ⟨q, y, hy, ht⟩ := mem_stored.1 hm
      exact ih hy (by simpa [Object.handles] using ht)

/-- One of several strong handles is released. -/
theorem Sound.release_spare (hs : h.Sound (.strong s :: rest)) (hm : .strong s ∈ rest) :
    ∃ h', h.release [.strong s] = .ok (h', []) ∧ h'.Sound rest ∧ h'.objects = h.objects ∧
      h'.counters.next = h.counters.next ∧ h'.live = h.live := by
  have hs₁ : h.Sound ([.strong s] ++ rest) := hs
  obtain ⟨h', log, e, hs', hw, hd⟩ := hs₁.release
  have hnone : ∀ p, p ∉ dropped log := fun p hp => by
    refine not_doomed (fun hx hc => ?_) (fun o ho => ?_) ((hd p).1 hp)
    · rcases List.mem_cons.1 (Balanced.attached hs hx hc).1 with ho | ho
      · exact ho ▸ List.mem_append_left _ hm
      · exact ho
    · cases List.mem_singleton.1 ho
  obtain rfl : log = [] := List.map_eq_nil_iff.1 (List.eq_nil_iff_forall_not_mem.2 hnone)
  have ho : h'.objects = h.objects := Slab.ext hw.next_objects fun p => by
    rw [hw.get?_of_not_mem (hnone p)]
  refine ⟨h', e, hs', ho, hw.next_counters, ?_⟩
  refine Balanced.live_eq_of_objects hs hs' ho fun c => ?_
  rw [stored_eq_of_objects ho, List.cons_append, List.mem_cons, or_iff_right (by simp)]

/-- A strong handle that is taken and released again leaves no trace. -/
theorem Takes.release (hs : h.Sound held)
    (ht : h.Takes (held ++ h.stored) (.strong s) h') (hm : .strong s ∈ held) :
    h'.release [.strong s] = .ok (h, []) := by
  obtain ⟨h₁, e, hs₁, ho, hn, -⟩ := ht.sound.release_spare hm
  have ho₁ : h₁.objects = h.objects := ho.trans ht.objects
  have hb₁ : h₁.Balanced (held ++ h.stored) := by
    rw [← stored_eq_of_objects ho₁]
    exact hs₁
  rw [e, Balanced.eq_of_objects hs hb₁ ho₁ (hn.trans ht.next)]

/-! ### New objects -/

/-- The heap `h` is `b` with new objects besides, which new counters manage and which store no
handles. -/
structure Over (b h : Heap α) : Prop where
  next : b.objects.next ≤ h.objects.next
  next_counters : b.counters.next ≤ h.counters.next
  before : ∀ o, o < b.objects.next → h.objects.get? o = b.objects.get? o
  made : ∀ o, b.objects.next ≤ o → o < h.objects.next → ∃ x c, h.objects.get? o = some x ∧
    x.slot = some c ∧ b.counters.next ≤ c ∧ x.handles = []

namespace Over

theorem refl (b : Heap α) : b.Over b where
  next := Nat.le_refl _
  next_counters := Nat.le_refl _
  before _ _ := rfl
  made o hle hlt := by omega

theorem of_objects (hov : b.Over h) (ho : h'.objects = h.objects)
    (hn : h'.counters.next = h.counters.next) : b.Over h' where
  next := by
    rw [ho]
    exact hov.next
  next_counters := by
    rw [hn]
    exact hov.next_counters
  before := by
    rw [ho]
    exact hov.before
  made := by
    rw [ho]
    exact hov.made

theorem adopt (hov : b.Over h) (hh : x.handles = []) : b.Over (h.adopt x) where
  next := by
    have := hov.next
    rw [Heap.adopt, Slab.next_insert]
    omega
  next_counters := by
    have := hov.next_counters
    rw [Heap.adopt, Slab.next_insert]
    omega
  before o hlt := by
    have := hov.next
    rw [Heap.adopt, Slab.get?_insert, if_neg (by omega)]
    exact hov.before o hlt
  made o hle hlt := by
    rw [Heap.adopt, Slab.next_insert] at hlt
    rw [Heap.adopt, Slab.get?_insert]
    by_cases e : o = h.objects.next
    · rw [if_pos e]
      exact ⟨_, _, rfl, rfl, hov.next_counters, hh⟩
    · rw [if_neg e]
      exact hov.made o hle (by omega)

/-- A new object is changed, but not its slot and not the handles stored in it. -/
theorem setObject (hov : b.Over h) (hle : b.objects.next ≤ o) {f : Object α → Object α}
    (hslot : ∀ y, (f y).slot = y.slot) (hh : ∀ y, (f y).handles = y.handles) :
    b.Over (h.setObject o f) where
  next := by
    rw [Heap.setObject, Slab.next_modify]
    exact hov.next
  next_counters := hov.next_counters
  before p hlt := by
    rw [Heap.setObject, Slab.get?_modify, if_neg (by omega)]
    exact hov.before p hlt
  made p hle' hlt := by
    rw [Heap.setObject, Slab.next_modify] at hlt
    obtain ⟨y, c, hy, hc, hle'', hnone⟩ := hov.made p hle' hlt
    rw [Heap.setObject, Slab.get?_modify]
    by_cases e : o = p
    · rw [if_pos e, hy]
      exact ⟨f y, c, rfl, (hslot y).trans hc, hle'', (hh y).trans hnone⟩
    · rw [if_neg e]
      exact ⟨y, c, hy, hc, hle'', hnone⟩

/-- Every handle that was there before is on an object that was there before. -/
theorem lt_of_mem (hb : b.Sound kept) (hm : .holding o ∈ kept ++ b.stored) :
    o < b.objects.next := by
  obtain ⟨x, hx⟩ := Balanced.named hb hm
  exact Slab.lt_next_of_get? hx

/-- The handle on an object that is stored in another is an old one. -/
theorem lt_of_kid (hov : b.Over h) (hb : b.Sound kept) {q : ObjectId} {y : Object α}
    (hy : h.objects.get? q = some y) (hk : ⟨some o⟩ ∈ y.kids) :
    q < b.objects.next ∧ o < b.objects.next := by
  have hq : q < b.objects.next := by
    by_contra hge
    obtain ⟨z, -, hz, -, -, hnone⟩ := hov.made q (Nat.not_lt.1 hge) (Slab.lt_next_of_get? hy)
    cases hy.symm.trans hz
    have hm : .holding o ∈ y.handles := by simpa [Object.handles] using hk
    rw [hnone] at hm
    cases hm
  rw [hov.before q hq] at hy
  exact ⟨hq, lt_of_mem hb (List.mem_append_right _ (mem_stored_of_mem_kids hy hk))⟩

/-- When the handles that stay are on the same objects as before, exactly the new objects go. -/
theorem doomed_iff (hov : b.Over h) (hb : b.Sound kept)
    (hrest : ∀ o, .holding o ∈ rest ↔ .holding o ∈ kept) (howner : ∀ o, .owner o ∉ pending) :
    h.Doomed pending rest o ↔ b.objects.next ≤ o ∧ o < h.objects.next := by
  constructor
  · intro hd
    induction hd with
    | @intro p x there can_go not_kept holders ih =>
      refine ⟨?_, Slab.lt_next_of_get? there⟩
      by_contra hlt
      obtain ⟨c, hc⟩ := Option.ne_none_iff_exists'.1 (can_go.resolve_right (howner p))
      rw [hov.before p (Nat.not_le.1 hlt)] at there
      -- the object is old, so something old holds it; that stays, or is an object that does not go
      rcases List.mem_append.1 (Balanced.attached hb there hc).1 with hm | hm
      · exact not_kept ((hrest p).2 hm)
      · obtain ⟨q, y, hy, ht⟩ := mem_stored.1 hm
        have hq := Slab.lt_next_of_get? hy
        have hy' := (hov.before q hq).trans hy
        exact absurd (ih hy' (by simpa [Object.handles] using ht)).1 (Nat.not_le.2 hq)
  · rintro ⟨hle, hlt⟩
    obtain ⟨x, c, hx, hc, -⟩ := hov.made o hle hlt
    refine .intro hx (.inl (by simp [hc])) (fun hm => ?_) fun {q y} hy hk => ?_
    · exact absurd (lt_of_mem hb (List.mem_append_left _ ((hrest o).1 hm))) (Nat.not_lt.2 hle)
    · exact absurd (hov.lt_of_kid hb hy hk).2 (Nat.not_lt.2 hle)

/-- When the handles that stay are on the same objects as before, a release drops each new object
once and leaves the old ones as they were. -/
theorem release (hov : b.Over h) (hb : b.Sound kept) (hs : h.Sound (pending ++ rest))
    (hrest : ∀ o, .holding o ∈ rest ↔ .holding o ∈ kept) (howner : ∀ o, .owner o ∉ pending) :
    ∃ h' log, h.release pending = .ok (h', log) ∧ h'.Sound rest ∧ (dropped log).Nodup ∧
      (∀ o, o ∈ dropped log ↔ b.objects.next ≤ o ∧ o < h.objects.next) ∧
      h'.objects.next = h.objects.next ∧ ∀ o, h'.objects.get? o = b.objects.get? o := by
  obtain ⟨h', log, e, hs', hw, hd⟩ := hs.release
  have hgone : ∀ o, o ∈ dropped log ↔ b.objects.next ≤ o ∧ o < h.objects.next := fun o =>
    (hd o).trans (hov.doomed_iff hb hrest howner)
  refine ⟨h', log, e, hs', hw.nodup, hgone, hw.next_objects, fun o => ?_⟩
  rw [hw.objects]
  split
  · next hm => rw [Slab.get?_eq_none_of_next_le ((hgone o).1 hm).1]
  · next hm =>
    rw [hgone] at hm
    by_cases hlt : o < b.objects.next
    · exact hov.before o hlt
    · have hle := Nat.not_lt.1 hlt
      have hle' : h.objects.next ≤ o := Nat.not_lt.1 fun hlt' => hm ⟨hle, hlt'⟩
      rw [Slab.get?_eq_none_of_next_le hle, Slab.get?_eq_none_of_next_le hle']

end Over

end Heap

end Custody
