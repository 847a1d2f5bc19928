import Custody.Proofs.Ownership.Cascade

/-!
# The course of a heap

`Heap.Leads h gone h'` says what every operation of a run, and so a run as a whole, does to the
population of a heap: objects are added under new numbers, those numbered `gone` are dropped, each
once, and no other is; a slot does not change while its object is there; a counter that was freed
stays free, and one that lost its object never gets another.  Almost every operation does this
without making a counter (`Heap.Passes`).
-/

namespace Custody

namespace Heap

variable {α : Type}

/-- From `h` the heap came to `h'`, and the objects `gone` were dropped on the way. -/
structure Leads (h : Heap α) (gone : List ObjectId) (h' : Heap α) : Prop where
  nodup : gone.Nodup
  next_objects : h.objects.next ≤ h'.objects.next
  next_counters : h.counters.next ≤ h'.counters.next
  /-- What is dropped was there before or is new. -/
  dropped_lt : ∀ {p}, p ∈ gone → p < h'.objects.next
  dropped_there : ∀ {p}, p ∈ gone → p < h.objects.next → ∃ x, h.objects.get? p = some x
  /-- What was there or is new is still there unless it was dropped. -/
  there_iff : ∀ {p}, p < h'.objects.next → ((∃ x, h'.objects.get? p = some x) ↔
    p ∉ gone ∧ (p < h.objects.next → ∃ x, h.objects.get? p = some x))
  slot : ∀ {p x x'}, h.objects.get? p = some x → h'.objects.get? p = some x' → x'.slot = x.slot
  counter : ∀ {c k'}, c < h.counters.next → h'.counters.get? c = some k' →
    ∃ k, h.counters.get? c = some k ∧ ∀ o, k'.living = some o → k.living = some o

namespace Leads

variable {h h₁ h₂ h' : Heap α} {gone gone' gone₁ gone₂ : List ObjectId} {hs hs' : List Handle}

theorem perm (hl : h.Leads gone h') (hp : gone.Perm gone') : h.Leads gone' h' where
  nodup := hp.nodup_iff.1 hl.nodup
  next_objects := hl.next_objects
  next_counters := hl.next_counters
  dropped_lt hm := hl.dropped_lt (hp.mem_iff.2 hm)
  dropped_there hm := hl.dropped_there (hp.mem_iff.2 hm)
  there_iff hm := by rw [hl.there_iff hm, hp.mem_iff]
  slot := hl.slot
  counter := hl.counter

theorem trans (l₁ : h.Leads gone₁ h₁) (l₂ : h₁.Leads gone₂ h₂) : h.Leads (gone₁ ++ gone₂) h₂ where
  nodup := by
    rw [List.nodup_append]
    refine ⟨l₁.nodup, l₂.nodup, ?_⟩
    rintro p hp q hq rfl
    have hlt := l₁.dropped_lt hp
    exact ((l₁.there_iff hlt).1 (l₂.dropped_there hq hlt)).1 hp
  next_objects := Nat.le_trans l₁.next_objects l₂.next_objects
  next_counters := Nat.le_trans l₁.next_counters l₂.next_counters
  dropped_lt {p} hp := by
    rcases List.mem_append.1 hp with hp | hp
    · exact Nat.lt_of_lt_of_le (l₁.dropped_lt hp) l₂.next_objects
    · exact l₂.dropped_lt hp
  dropped_there {p} hp hlt := by
    rcases List.mem_append.1 hp with hp | hp
    · exact l₁.dropped_there hp hlt
    · have hlt₁ := Nat.lt_of_lt_of_le hlt l₁.next_objects
      exact ((l₁.there_iff hlt₁).1 (l₂.dropped_there hp hlt₁)).2 hlt
  there_iff {p} hlt := by
    rw [l₂.there_iff hlt, List.mem_append, not_or]
    by_cases hlt₁ : p < h₁.objects.next
    · rw [imp_iff_right hlt₁, l₁.there_iff hlt₁]
      exact ⟨fun ⟨h₁, h₂, h₃⟩ => ⟨⟨h₂, h₁⟩, h₃⟩, fun ⟨⟨h₂, h₁⟩, h₃⟩ => ⟨h₁, h₂, h₃⟩⟩
    · have hnew : ¬ p < h.objects.next := fun hp => hlt₁ (Nat.lt_of_lt_of_le hp l₁.next_objects)
      simp only [hlt₁, hnew, false_imp_iff, and_true]
      exact ⟨fun h₂ => ⟨fun h₁ => hlt₁ (l₁.dropped_lt h₁), h₂⟩, And.right⟩
  slot {p x x''} hx hx'' := by
    have hlt := Nat.lt_of_lt_of_le (Slab.lt_next_of_get? hx) l₁.next_objects
    obtain ⟨x', hx'⟩ :=
      ((l₂.there_iff (Slab.lt_next_of_get? hx'')).1 ⟨x'', hx''⟩).2 hlt
    rw [l₂.slot hx' hx'', l₁.slot hx hx']
  counter {c k''} hc hk'' := by
    obtain ⟨k', hk', hl'⟩ := l₂.counter (Nat.lt_of_lt_of_le hc l₁.next_counters) hk''
    obtain ⟨k, hk, hl⟩ := l₁.counter hc hk'
    exact ⟨k, hk, fun o ho => hl o (hl' o ho)⟩

/-- An object was added. -/
theorem of_insert {x : Object α} (ho : h'.objects = h.objects.insert x)
    (hn : h.counters.next ≤ h'.counters.next)
    (hc : ∀ c, c < h.counters.next → h'.counters.get? c = h.counters.get? c) : h.Leads [] h' where
  nodup := .nil
  next_objects := by rw [ho, Slab.next_insert]; omega
  next_counters := hn
  dropped_lt hp := by cases hp
  dropped_there hp := by cases hp
  there_iff {p} hlt := by
    rw [ho, Slab.next_insert] at hlt
    rw [ho, Slab.get?_insert]
    by_cases e : p = h.objects.next
    · simp [e]
    · have : p < h.objects.next := by omega
      simp [e, this]
  slot {p x x'} hx hx' := by
    rw [ho, Slab.get?_insert, if_neg (Nat.ne_of_lt (Slab.lt_next_of_get? hx)), hx] at hx'
    cases hx'
    rfl
  counter {c k'} hlt hk' := ⟨k', (hc c hlt).symm.trans hk', fun _ ho => ho⟩

theorem adopt (h : Heap α) (x : Object α) : h.Leads [] (h.adopt x) := by
  refine of_insert rfl ?_ fun c hc => ?_
  · rw [Heap.adopt, Slab.next_insert]
    omega
  · rw [Heap.adopt, Slab.get?_insert, if_neg (Nat.ne_of_lt hc)]

end Leads

/-! ### Courses on which no counter is made -/

/-- `Leads` without a new counter. -/
structure Passes (h : Heap α) (gone : List ObjectId) (h' : Heap α) : Prop
    extends h.Leads gone h' where
  steady : h'.counters.next = h.counters.next

/-- Every counter of `h'` that is new since `h` is in a slot. -/
def Seats (h h' : Heap α) : Prop := ∀ c k, h.counters.next ≤ c → h'.counters.get? c = some k →
  ∃ o x, h'.objects.get? o = some x ∧ x.slot = some c

namespace Passes

variable {h h₁ h₂ h' : Heap α} {gone gone' gone₁ gone₂ : List ObjectId} {hs : List Handle}

theorem seats (hl : h.Passes gone h') : h.Seats h' := fun c k hc hk => by
  have hlt := Slab.lt_next_of_get? hk
  rw [hl.steady] at hlt
  omega

theorem trans (l₁ : h.Passes gone₁ h₁) (l₂ : h₁.Passes gone₂ h₂) : h.Passes (gone₁ ++ gone₂) h₂ :=
  ⟨l₁.toLeads.trans l₂.toLeads, l₂.steady.trans l₁.steady⟩

/-- Objects can be changed, but for their slots. -/
theorem of_slots (hn : h'.objects.next = h.objects.next) (hc : h'.counters.next = h.counters.next)
    (hs : ∀ p, (h'.objects.get? p).map Object.slot = (h.objects.get? p).map Object.slot)
    (hl : ∀ c, c < h.counters.next →
      (h'.counters.get? c).map Counter.living = (h.counters.get? c).map Counter.living) :
    h.Passes [] h' where
  nodup := .nil
  next_objects := Nat.le_of_eq hn.symm
  next_counters := Nat.le_of_eq hc.symm
  steady := hc
  dropped_lt hp := by cases hp
  dropped_there hp := by cases hp
  there_iff {p} hlt := by
    have hsome := congrArg Option.isSome (hs p)
    rw [Option.isSome_map, Option.isSome_map] at hsome
    rw [hn] at hlt
    simp only [List.not_mem_nil, not_false_eq_true, true_and, hlt, true_imp_iff,
      ← Option.isSome_iff_exists, hsome]
  slot {p x x'} hx hx' := by simpa [hx, hx'] using hs p
  counter {c k'} hlt hk' := by
    have := hl c hlt
    rw [hk', Option.map_some] at this
    obtain ⟨k, hk, e⟩ := Option.map_eq_some_iff.1 this.symm
    exact ⟨k, hk, fun o ho => e.trans ho⟩

theorem refl (h : Heap α) : h.Passes [] h := of_slots rfl rfl (fun _ => rfl) fun _ _ => rfl

theorem of_takes {t : Handle} (ht : h.Takes hs t h') : h.Passes [] h' :=
  of_slots (by rw [ht.objects]) ht.next (fun p => by rw [ht.objects]) fun c _ => ht.living c

theorem setObject (h : Heap α) (o : ObjectId) {f : Object α → Object α}
    (hf : ∀ x, (f x).slot = x.slot) : h.Passes [] (h.setObject o f) :=
  of_slots (by simp [Heap.setObject]) rfl (h.slot_setObject o hf) fun _ _ => rfl

theorem place (h : Heap α) (x : Object α) : h.Passes [] (h.place x).1 :=
  ⟨.of_insert rfl (Nat.le_refl _) fun _ _ => rfl, rfl⟩

/-- A heap passes to what it is without some objects, if nothing watches a counter that nothing
watched before. -/
theorem of_balanced {hs' : List Handle} (hb : h.Balanced hs) (hb' : h'.Balanced hs')
    (hw : h.Without gone h') (hsub : ∀ c, .watching c ∈ hs' → .watching c ∈ hs) :
    h.Passes gone h' where
  nodup := hw.nodup
  next_objects := Nat.le_of_eq hw.next_objects.symm
  next_counters := Nat.le_of_eq hw.next_counters.symm
  steady := hw.next_counters
  dropped_lt {p} hp := by
    obtain ⟨x, hx⟩ := hw.there p hp
    rw [hw.next_objects]
    exact Slab.lt_next_of_get? hx
  dropped_there {p} hp _ := hw.there p hp
  there_iff {p} hlt := by
    rw [hw.next_objects] at hlt
    rw [hw.objects, imp_iff_right hlt]
    by_cases hp : p ∈ gone <;> simp [hp]
  slot {p x x'} hx hx' := by
    obtain rfl := Option.some.inj (hx.symm.trans (hw.get?_of_get? hx').1)
    rfl
  counter {c k'} _ hk' := by
    rcases hl : k'.living with _ | o
    · obtain ⟨k, hk⟩ := hb.bound (hsub c (hb'.eq_remnant_of_living hk' hl).1)
      exact ⟨k, hk, by simp⟩
    · obtain ⟨x, hx, hc⟩ := hb'.slot_of_living hk' hl
      obtain ⟨k, hk, hl'⟩ := hb.living_of_slot (hw.get?_of_get? hx).1 hc
      refine ⟨k, hk, fun p hp => ?_⟩
      rw [hl', hp]

/-- A cascade passes to what it leaves. -/
theorem of_without {held held' : List Handle} (hs : h.Sound held) (hs' : h'.Sound held')
    (hw : h.Without gone h') (hsub : ∀ c, .watching c ∈ held' → .watching c ∈ held) :
    h.Passes gone h' :=
  of_balanced hs hs' hw fun c hm => (List.mem_append.1 hm).elim
    (fun hm => List.mem_append_left _ (hsub c hm))
    fun hm => List.mem_append_right _ (hw.mem_stored_of_mem hm)

end Passes

end Heap

end Custody
