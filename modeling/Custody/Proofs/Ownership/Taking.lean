import Custody.Proofs.Ownership.Balance

/-!
# Taking handles keeps the books

Every operation that makes a handle succeeds on a balanced heap and leaves it balanced with the new
handle counted in.  `Balanced.setCounter_tally` is the one argument behind all changes of a count:
only the counter of one object changes, and it changes as the handles do.
-/

namespace Custody

namespace Heap

variable {α : Type}

/-- The heap with the object `x` put under a counter of its own, and the first handle counted. -/
def adopt (h : Heap α) (x : Object α) : Heap α where
  objects := h.objects.insert { x with slot := some h.counters.next }
  counters := h.counters.insert { strong := 1, object := some h.objects.next }

theorem manage_eq (h : Heap α) {x : Object α} (hc : x.slot = none) :
    h.manage x = .ok (h.adopt x, ⟨some h.objects.next⟩) := by
  have ho : (h.objects.insert x).get? h.objects.next = some x := by simp [Slab.get?_insert]
  simp only [manage, hc, Option.isSome_none, Bool.false_eq_true, ↓reduceIte, Heap.place, attach,
    object, ho, bind, Except.bind]
  refine congrArg (fun h' => Except.ok (h', _)) ?_
  simp only [countStrong, setCounter, setObject, adopt, Heap.mk.injEq]
  constructor
  · refine Slab.ext (by simp) fun i => ?_
    by_cases e : i = h.objects.next
    · simp [Slab.get?_modify, Slab.get?_insert, e]
    · simp [Slab.get?_modify, Slab.get?_insert, e, Ne.symm e]
  · refine Slab.ext (by simp) fun i => ?_
    by_cases e : i = h.counters.next
    · simp [Slab.get?_modify, Slab.get?_insert, e]
    · simp [Slab.get?_modify, Slab.get?_insert, e, Ne.symm e]

/-- `h'` is `h` after the handle `t` was taken, besides the handles `hs` there are. -/
structure Takes (h : Heap α) (hs : List Handle) (t : Handle) (h' : Heap α) : Prop where
  balanced : h'.Balanced (t :: hs)
  objects : h'.objects = h.objects
  next : h'.counters.next = h.counters.next
  living : ∀ c, (h'.counters.get? c).map Counter.living = (h.counters.get? c).map Counter.living

theorem living_countStrong (h : Heap α) (c d : CounterId) :
    ((h.countStrong c).counters.get? d).map Counter.living =
      (h.counters.get? d).map Counter.living := by
  rw [countStrong, setCounter, Slab.get?_modify]
  split
  · rw [Option.map_map]
    rfl
  · rfl

theorem living_countWeak (h : Heap α) (c d : CounterId) :
    ((h.countWeak c).counters.get? d).map Counter.living =
      (h.counters.get? d).map Counter.living := by
  rw [countWeak, setCounter, Slab.get?_modify]
  split
  · rw [Option.map_map]
    rfl
  · rfl

namespace Balanced

variable {h : Heap α} {hs hs' : List Handle} {o : ObjectId} {c : CounterId}
  {x : Object α} {k : Counter}

/-! ### Changing one counter -/

/-- The counter of a managed object follows the handles on it. -/
theorem setCounter_tally (hb : h.Balanced hs) (hx : h.objects.get? o = some x)
    (hc : x.slot = some c) {f : Counter → Counter} (hf : f (tally hs o c) = tally hs' o c)
    (hm : .holding o ∈ hs') (hh : ∀ p, p ≠ o → hs'.count (.holding p) = hs.count (.holding p))
    (hw : ∀ d, d ≠ c → hs'.count (.watching d) = hs.count (.watching d))
    (ho : ∀ p, hs'.count (.owner p) = hs.count (.owner p)) : (h.setCounter c f).Balanced hs' := by
  have hk := (hb.attached hx hc).2
  have mem_holding : ∀ p, p ≠ o → (.holding p ∈ hs' ↔ .holding p ∈ hs) := fun p hp =>
    mem_iff_of_count_eq (hh p hp)
  have mem_watching : ∀ d, d ≠ c → (.watching d ∈ hs' ↔ .watching d ∈ hs) := fun d hd =>
    mem_iff_of_count_eq (hw d hd)
  constructor
  · intro p hp
    by_cases e : p = o
    · exact ⟨x, e ▸ hx⟩
    · exact hb.named ((mem_holding p e).1 hp)
  · intro d hd
    by_cases e : d = c
    · exact ⟨_, by rw [setCounter, e, Slab.get?_modify, if_pos rfl, hk]; rfl⟩
    · obtain ⟨k, hk⟩ := hb.bound ((mem_watching d e).1 hd)
      exact ⟨k, by rw [setCounter, Slab.get?_modify, if_neg (Ne.symm e), hk]⟩
  · intro p y d hy hd
    rw [setCounter_objects] at hy
    simp only [setCounter, Slab.get?_modify]
    by_cases e : d = c
    · subst e
      obtain rfl := hb.slot_inj hx hc hy hd
      rw [if_pos rfl, hk, Option.map_some, hf]
      exact ⟨hm, rfl⟩
    · have hp : p ≠ o := by
        rintro rfl
        rw [hx] at hy
        cases hy
        exact e (Option.some.inj (hd.symm.trans hc))
      rw [if_neg (Ne.symm e), mem_holding p hp, (hb.attached hy hd).2, tally, tally, hh p hp,
        hw d e]
      exact ⟨(hb.attached hy hd).1, rfl⟩
  · intro d k hk'
    by_cases e : d = c
    · exact .inl ⟨o, x, hx, e ▸ hc⟩
    · rw [setCounter, Slab.get?_modify, if_neg (Ne.symm e)] at hk'
      rw [mem_watching d e, remnant, hw d e]
      exact hb.allocated hk'
  · intro p hp
    have hp' : .owner p ∈ hs := (mem_iff_of_count_eq (ho p)).1 hp
    obtain ⟨h₁, h₂, y, hy, hn⟩ := hb.owned hp'
    have e : p ≠ o := by
      rintro rfl
      exact hb.owner_not_mem_of_slot hx hc hp'
    rw [ho, mem_holding p e]
    exact ⟨h₁, h₂, y, hy, hn⟩

theorem countStrong (hb : h.Balanced hs) (hx : h.objects.get? o = some x) (hc : x.slot = some c) :
    (h.countStrong c).Balanced (.holding o :: hs) := by
  refine hb.setCounter_tally hx hc ?_ (by simp) ?_ ?_ ?_
  · simp [tally]
  · intro p hp
    simp [Ne.symm hp]
  · simp
  · simp

theorem countWeak (hb : h.Balanced hs) (hx : h.objects.get? o = some x) (hc : x.slot = some c) :
    (h.countWeak c).Balanced (.watching c :: hs) := by
  refine hb.setCounter_tally hx hc ?_ (by simpa using (hb.attached hx hc).1) ?_ ?_ ?_
  · simp [tally]
  · simp
  · intro d hd
    simp [Ne.symm hd]
  · simp

/-- A handle on an object that no counter manages is not counted. -/
theorem cons_holding (hb : h.Balanced hs) (hx : h.objects.get? o = some x) (hc : x.slot = none)
    (ho : .owner o ∉ hs) : h.Balanced (.holding o :: hs) := by
  constructor
  · intro p hp
    rcases List.mem_cons.1 hp with e | hp
    · cases e
      exact ⟨x, hx⟩
    · exact hb.named hp
  · intro d hd
    exact hb.bound (by simpa using hd)
  · intro p y d hy hd
    have e : p ≠ o := by
      rintro rfl
      rw [hx] at hy
      cases hy
      rw [hc] at hd
      cases hd
    obtain ⟨hm, hk⟩ := hb.attached hy hd
    exact ⟨List.mem_cons_of_mem _ hm, by rw [hk]; simp [tally, Ne.symm e]⟩
  · intro d k hk
    simpa [remnant, List.count_cons] using hb.allocated hk
  · intro p hp
    have hp' : .owner p ∈ hs := by simpa using hp
    have e : p ≠ o := fun e => ho (e ▸ hp')
    simpa [List.count_cons, e] using hb.owned hp'

/-! ### Placing objects -/

theorem place (hb : h.Balanced hs) (hc : x.slot = none) : (h.place x).1.Balanced hs := by
  have old : ∀ p y, h.objects.get? p = some y → (h.objects.insert x).get? p = some y := by
    intro p y hy
    rw [Slab.get?_insert, if_neg (Nat.ne_of_lt (Slab.lt_next_of_get? hy)), hy]
  constructor
  · intro p hp
    obtain ⟨y, hy⟩ := hb.named hp
    exact ⟨y, old p y hy⟩
  · exact hb.bound
  · intro p y d hy hd
    rw [Heap.place, Slab.get?_insert] at hy
    split at hy
    · cases hy
      rw [hc] at hd
      cases hd
    · exact hb.attached hy hd
  · intro d k hk
    rcases hb.allocated hk with ⟨p, y, hy, hd⟩ | hr
    · exact .inl ⟨p, y, old p y hy, hd⟩
    · exact .inr hr
  · intro p hp
    obtain ⟨h₁, h₂, y, hy, hn⟩ := hb.owned hp
    exact ⟨h₁, h₂, y, old p y hy, hn⟩

/-- A new object can be given an owner. -/
theorem place_owner (hb : h.Balanced hs) (hc : x.slot = none) :
    (h.place x).1.Balanced (.owner h.objects.next :: hs) := by
  have hp := hb.place hc
  constructor
  · exact fun hm => hp.named (by simpa using hm)
  · exact fun hm => hp.bound (by simpa using hm)
  · intro p y d hy hd
    simpa [tally, List.count_cons] using hp.attached hy hd
  · intro d k hk
    simpa [remnant, List.count_cons] using hp.allocated hk
  · intro p hm
    by_cases e : p = h.objects.next
    · subst e
      refine ⟨?_, ?_, x, ?_, hc⟩
      · rw [List.count_cons_self, List.count_eq_zero.2 hb.next_not_owned]
      · simpa using hb.next_not_held
      · rw [Heap.place, Slab.get?_insert, if_pos rfl]
    · have hm' : .owner p ∈ hs := by simpa [e] using hm
      simpa [List.count_cons, Ne.symm e] using hp.owned hm'

theorem adopt (hb : h.Balanced hs) :
    (h.adopt x).Balanced (.holding h.objects.next :: hs) := by
  have old : ∀ p y, h.objects.get? p = some y → (h.adopt x).objects.get? p = some y := by
    intro p y hy
    rw [Heap.adopt, Slab.get?_insert, if_neg (Nat.ne_of_lt (Slab.lt_next_of_get? hy)), hy]
  have oldc : ∀ d k, h.counters.get? d = some k → (h.adopt x).counters.get? d = some k := by
    intro d k hk
    rw [Heap.adopt, Slab.get?_insert, if_neg (Nat.ne_of_lt (Slab.lt_next_of_get? hk)), hk]
  have new : (h.adopt x).objects.get? h.objects.next =
      some { x with slot := some h.counters.next } := by
    rw [Heap.adopt, Slab.get?_insert, if_pos rfl]
  constructor
  · intro p hp
    rcases List.mem_cons.1 hp with e | hp
    · cases e
      exact ⟨_, new⟩
    · obtain ⟨y, hy⟩ := hb.named hp
      exact ⟨y, old p y hy⟩
  · intro d hd
    obtain ⟨k, hk⟩ := hb.bound (by simpa using hd)
    exact ⟨k, oldc d k hk⟩
  · intro p y d hy hd
    rw [Heap.adopt, Slab.get?_insert] at hy
    split at hy
    · next e =>
      cases hy
      cases hd
      subst e
      refine ⟨by simp, ?_⟩
      rw [Heap.adopt, Slab.get?_insert, if_pos rfl, tally, List.count_cons_self,
        List.count_eq_zero.2 hb.next_not_held, List.count_cons_of_ne (by simp),
        List.count_eq_zero.2 hb.next_not_watched]
    · next e =>
      obtain ⟨hm, hk⟩ := hb.attached hy hd
      refine ⟨List.mem_cons_of_mem _ hm, ?_⟩
      rw [oldc d _ hk]
      simp [tally, Ne.symm e]
  · intro d k hk
    rw [Heap.adopt, Slab.get?_insert] at hk
    split at hk
    · next e => exact .inl ⟨_, _, new, by rw [e]⟩
    · rcases hb.allocated hk with ⟨p, y, hy, hd⟩ | ⟨hm, rfl⟩
      · exact .inl ⟨p, y, old p y hy, hd⟩
      · exact .inr ⟨List.mem_cons_of_mem _ hm, by simp [remnant]⟩
  · intro p hp
    have hp' : .owner p ∈ hs := by simpa using hp
    have e : p ≠ h.objects.next := fun e => hb.next_not_owned (e ▸ hp')
    obtain ⟨h₁, h₂, y, hy, hn⟩ := hb.owned hp'
    refine ⟨by simpa using h₁, ?_, y, old p y hy, hn⟩
    simpa [e] using h₂

/-! ### Taking handles -/

/-- Taking a handle that names nothing. -/
theorem takes_unset (hb : h.Balanced hs) : h.Takes hs (.strong ⟨none⟩) h :=
  ⟨cons_unset_iff.2 hb, rfl, rfl, fun _ => rfl⟩

theorem takes_unbound (hb : h.Balanced hs) : h.Takes hs (.weak ⟨none⟩) h :=
  ⟨cons_unbound_iff.2 hb, rfl, rfl, fun _ => rfl⟩

theorem takes_countStrong (hb : h.Balanced hs) (hx : h.objects.get? o = some x)
    (hc : x.slot = some c) : h.Takes hs (.holding o) (h.countStrong c) :=
  ⟨hb.countStrong hx hc, rfl, by simp [Heap.countStrong, setCounter], living_countStrong h c⟩

theorem takes_countWeak (hb : h.Balanced hs) (hx : h.objects.get? o = some x)
    (hc : x.slot = some c) : h.Takes hs (.watching c) (h.countWeak c) :=
  ⟨hb.countWeak hx hc, rfl, by simp [Heap.countWeak, setCounter], living_countWeak h c⟩

theorem share_of_slot (hb : h.Balanced hs) (hx : h.objects.get? o = some x)
    (hc : x.slot = some c) : h.share o = .ok (h.countStrong c, ⟨some o⟩) := by
  simp [Heap.share, hb.attached_eq hx, hc, bind, Except.bind]

theorem share_of_unmanaged (hb : h.Balanced hs) (hx : h.objects.get? o = some x)
    (hc : x.slot = none) : h.share o = .ok (h, ⟨none⟩) := by
  simp [Heap.share, hb.attached_eq hx, hc, bind, Except.bind]

theorem share (hb : h.Balanced hs) (hx : h.objects.get? o = some x) :
    ∃ h' s, h.share o = .ok (h', s) ∧ h.Takes hs (.strong s) h' := by
  cases hc : x.slot with
  | none => exact ⟨h, ⟨none⟩, hb.share_of_unmanaged hx hc, hb.takes_unset⟩
  | some c => exact ⟨_, _, hb.share_of_slot hx hc, hb.takes_countStrong hx hc⟩

theorem pin (hb : h.Balanced hs) (hx : h.objects.get? o = some x) (ho : .owner o ∉ hs) :
    ∃ h', h.pin o = .ok (h', ⟨some o⟩) ∧ h.Takes hs (.holding o) h' := by
  cases hc : x.slot with
  | none =>
    refine ⟨h, ?_, hb.cons_holding hx hc ho, rfl, rfl, fun _ => rfl⟩
    simp [Heap.pin, hb.attached_eq hx, hc, bind, Except.bind]
  | some c =>
    refine ⟨h.countStrong c, ?_, hb.takes_countStrong hx hc⟩
    simp [Heap.pin, hb.attached_eq hx, hc, bind, Except.bind]

/-- A copy of a strong handle names the same object. -/
theorem clone {s : Strong} (hb : h.Balanced hs) (hm : .strong s ∈ hs) :
    ∃ h', h.clone s = .ok (h', s) ∧ h.Takes hs (.strong s) h' := by
  obtain ⟨_ | o⟩ := s
  · exact ⟨h, rfl, hb.takes_unset⟩
  · obtain ⟨x, hx⟩ := hb.named hm
    simp only [Heap.clone, object_eq_ok_iff.2 hx, bind, Except.bind]
    cases hc : x.slot with
    | none =>
      refine ⟨h, by simp, ?_, rfl, rfl, fun _ => rfl⟩
      exact hb.cons_holding hx hc (hb.owner_not_mem_of_holding hm)
    | some c =>
      refine ⟨h.countStrong c, ?_, hb.takes_countStrong hx hc⟩
      simp [hb.share_of_slot hx hc]

theorem clone_or_unset {s : Strong} (hb : h.Balanced hs) (hm : .strong s ∈ hs ∨ s = ⟨none⟩) :
    ∃ h', h.clone s = .ok (h', s) ∧ h.Takes hs (.strong s) h' := by
  rcases hm with hm | rfl
  · exact hb.clone hm
  · exact ⟨h, rfl, hb.takes_unset⟩

theorem observeCounter (hb : h.Balanced hs) (hk : h.counters.get? c = some k) :
    ∃ h' w, h.observeCounter c = .ok (h', w) ∧ h.Takes hs (.weak w) h' := by
  simp only [Heap.observeCounter, counter_eq_ok_iff.2 hk, bind, Except.bind]
  cases hl : k.living with
  | none =>
    rw [(hb.eq_remnant_of_living hk hl).2]
    exact ⟨h, ⟨none⟩, by simp [remnant], hb.takes_unbound⟩
  | some o =>
    obtain ⟨x, hx, hc⟩ := hb.slot_of_living hk hl
    rw [hb.eq_tally_of_living hk hl]
    exact ⟨h.countWeak c, ⟨some c⟩, by simp [tally], hb.takes_countWeak hx hc⟩

/-- A weak handle can be taken on the counter of a managed object. -/
theorem observeCounter_of_slot (hb : h.Balanced hs) (hx : h.objects.get? o = some x)
    (hc : x.slot = some c) : h.observeCounter c = .ok (h.countWeak c, ⟨some c⟩) := by
  simp [Heap.observeCounter, counter_eq_ok_iff.2 (hb.attached hx hc).2, tally, bind, Except.bind]

theorem observe_of_slot (hb : h.Balanced hs) (hx : h.objects.get? o = some x)
    (hc : x.slot = some c) : h.observe o = .ok (h.countWeak c, ⟨some c⟩) := by
  simp [Heap.observe, hb.attached_eq hx, hc, hb.observeCounter_of_slot hx hc, bind, Except.bind]

theorem observe_of_unmanaged (hb : h.Balanced hs) (hx : h.objects.get? o = some x)
    (hc : x.slot = none) : h.observe o = .ok (h, ⟨none⟩) := by
  simp [Heap.observe, hb.attached_eq hx, hc, bind, Except.bind]

theorem observe (hb : h.Balanced hs) (hx : h.objects.get? o = some x) :
    ∃ h' w, h.observe o = .ok (h', w) ∧ h.Takes hs (.weak w) h' := by
  cases hc : x.slot with
  | none => exact ⟨h, ⟨none⟩, hb.observe_of_unmanaged hx hc, hb.takes_unbound⟩
  | some c => exact ⟨_, _, hb.observe_of_slot hx hc, hb.takes_countWeak hx hc⟩

theorem downgrade {s : Strong} (hb : h.Balanced hs) (hm : .strong s ∈ hs) :
    ∃ h' w, h.downgrade s = .ok (h', w) ∧ h.Takes hs (.weak w) h' := by
  obtain ⟨_ | o⟩ := s
  · exact ⟨h, ⟨none⟩, rfl, hb.takes_unbound⟩
  · obtain ⟨x, hx⟩ := hb.named hm
    exact hb.observe hx

theorem cloneWeak {w : Weak} (hb : h.Balanced hs) (hm : .weak w ∈ hs) :
    ∃ h' v, h.cloneWeak w = .ok (h', v) ∧ h.Takes hs (.weak v) h' := by
  obtain ⟨_ | c⟩ := w
  · exact ⟨h, ⟨none⟩, rfl, hb.takes_unbound⟩
  · obtain ⟨k, hk⟩ := hb.bound hm
    exact hb.observeCounter hk

/-- A weak handle sees a managed object through its counter. -/
theorem visible_of_slot (hb : h.Balanced hs) (hx : h.objects.get? o = some x)
    (hc : x.slot = some c) : h.visible ⟨some c⟩ = .ok (some o) := by
  simp [Heap.visible, boundTo, counter_eq_ok_iff.2 (hb.attached hx hc).2, Functor.map, Except.map,
    bind, Except.bind]

/-- What a weak handle sees is there, and managed by the counter it is bound to. -/
theorem visible {w : Weak} (hb : h.Balanced hs) (hm : .weak w ∈ hs) :
    h.visible w = .ok none ∨ ∃ o c x, w = ⟨some c⟩ ∧ h.visible w = .ok (some o) ∧
      h.objects.get? o = some x ∧ x.slot = some c := by
  obtain ⟨_ | c⟩ := w
  · exact .inl rfl
  · obtain ⟨k, hk⟩ := hb.bound hm
    have hv : h.visible ⟨some c⟩ = .ok k.living := by
      simp [Heap.visible, boundTo, counter_eq_ok_iff.2 hk, Functor.map, Except.map, bind,
        Except.bind]
    cases hl : k.living with
    | none => exact .inl (by rw [hv, hl])
    | some o =>
      obtain ⟨x, hx, hc⟩ := hb.slot_of_living hk hl
      exact .inr ⟨o, c, x, rfl, by rw [hv, hl], hx, hc⟩

theorem upgrade {w : Weak} (hb : h.Balanced hs) (hm : .weak w ∈ hs) :
    ∃ h' s, h.upgrade w = .ok (h', s) ∧ h.Takes hs (.strong s) h' := by
  rcases hb.visible hm with hv | ⟨o, c, x, -, hv, hx, -⟩
  · exact ⟨h, ⟨none⟩, by simp [Heap.upgrade, hv, bind, Except.bind], hb.takes_unset⟩
  · obtain ⟨h', s, e, ht⟩ := hb.share hx
    exact ⟨h', s, by simpa [Heap.upgrade, hv, bind, Except.bind] using e, ht⟩

/-- The counts of an object that is held can be read. -/
theorem counterOf {s : Strong} (hb : h.Balanced hs) (hm : .strong s ∈ hs) :
    ∃ k, h.counterOf s = .ok k := by
  obtain ⟨_ | o⟩ := s
  · exact ⟨none, rfl⟩
  · obtain ⟨y, hy⟩ := hb.named hm
    simp only [Heap.counterOf, hb.attached_eq hy, bind, Except.bind]
    cases hc : y.slot with
    | none => exact ⟨none, rfl⟩
    | some c =>
      exact ⟨some (tally hs o c), by
        simp [counter_eq_ok_iff.2 (hb.attached hy hc).2, Functor.map, Except.map]⟩

end Balanced

/-! ### Sound heaps -/

variable {h h' : Heap α} {held : List Handle} {x : Object α}

theorem Takes.sound {t : Handle} (ht : h.Takes (held ++ h.stored) t h') : h'.Sound (t :: held) := by
  rw [Sound, stored_eq_of_objects ht.objects]
  exact ht.balanced

/-- A new object that stores no handles is put under a counter. -/
theorem Sound.adopt (hs : h.Sound held) (hh : x.handles = []) :
    (h.adopt x).Sound (.holding h.objects.next :: held) := by
  have hst : (h.adopt x).stored = h.stored := by
    have hh' : Object.handles { x with slot := some h.counters.next } = [] := hh
    simp [stored, Heap.adopt, hh']
  rw [Sound, hst]
  exact Balanced.adopt hs

/-- A new object that stores no handles is given an owner. -/
theorem Sound.place_owner (hs : h.Sound held) (hc : x.slot = none) (hh : x.handles = []) :
    (h.place x).1.Sound (.owner h.objects.next :: held) := by
  have hst : (h.place x).1.stored = h.stored := by simp [stored, Heap.place, hh]
  rw [Sound, hst]
  exact Balanced.place_owner hs hc

/-- A new object that stores no handles and has no owner is held. -/
theorem Sound.place_holding (hs : h.Sound held) (hc : x.slot = none) (hh : x.handles = []) :
    (h.place x).1.Sound (.holding h.objects.next :: held) := by
  have hst : (h.place x).1.stored = h.stored := by simp [stored, Heap.place, hh]
  have hx : (h.place x).1.objects.get? h.objects.next = some x := by
    rw [Heap.place, Slab.get?_insert, if_pos rfl]
  rw [Sound, hst]
  exact (Balanced.place hs hc).cons_holding hx hc (Balanced.next_not_owned hs)

end Heap

end Custody
