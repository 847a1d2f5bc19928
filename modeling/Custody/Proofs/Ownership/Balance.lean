import Custody.Ownership.Release

/-!
# Balanced books

`Heap.Balanced h hs` says that the counters of the heap `h` are right for the handles `hs`, which
are all the handles there are: those kept outside the heap, those that wait to be released and those
stored inside objects (`Heap.stored`).  The counter of a managed object is `tally hs o c`; that of
an object that is gone is `remnant hs c`, and it is there only while something watches it.

`Heap.Sound h held` is the same with the stored handles left unsaid.  It is what holds between two
releases of a cascade, where `held` are the handles outside together with the pending ones.
-/

namespace Custody

variable {α : Type}

/-- A strong handle on the object numbered `o`. -/
@[match_pattern] abbrev Handle.holding (o : ObjectId) : Handle := .strong ⟨some o⟩

/-- A weak handle bound to the counter numbered `c`. -/
@[match_pattern] abbrev Handle.watching (c : CounterId) : Handle := .weak ⟨some c⟩

/-- What the counter `c` of the managed object `o` says. -/
def tally (hs : List Handle) (o : ObjectId) (c : CounterId) : Counter :=
  { strong := hs.count (.holding o), weak := hs.count (.watching c), object := some o }

/-- What the counter `c` says once its object is gone. -/
def remnant (hs : List Handle) (c : CounterId) : Counter :=
  { weak := hs.count (.watching c), deleted := true }

theorem mem_iff_of_count_eq {hs hs' : List Handle} {t : Handle} (e : hs'.count t = hs.count t) :
    t ∈ hs' ↔ t ∈ hs := by
  rw [← List.count_pos_iff, e, List.count_pos_iff]

@[simp] theorem tally_living (hs : List Handle) (o : ObjectId) (c : CounterId) :
    (tally hs o c).living = some o := rfl

@[simp] theorem remnant_living (hs : List Handle) (c : CounterId) : (remnant hs c).living = none :=
  rfl

namespace Heap

/-- The counters of `h` are right for the handles `hs`. -/
structure Balanced (h : Heap α) (hs : List Handle) : Prop where
  /-- A strong handle names an object that is there. -/
  named : ∀ {o}, .holding o ∈ hs → ∃ x, h.objects.get? o = some x
  /-- A weak handle names a counter that is allocated. -/
  bound : ∀ {c}, .watching c ∈ hs → ∃ k, h.counters.get? c = some k
  /-- The counter in a slot counts for the object that has the slot, which something holds. -/
  attached : ∀ {o x c}, h.objects.get? o = some x → x.slot = some c →
    .holding o ∈ hs ∧ h.counters.get? c = some (tally hs o c)
  /-- A counter is in a slot, or is what the watched remains of an object leave. -/
  allocated : ∀ {c k}, h.counters.get? c = some k →
    (∃ o x, h.objects.get? o = some x ∧ x.slot = some c) ∨ .watching c ∈ hs ∧ k = remnant hs c
  /-- An object with an owner has no other, is not managed, and nothing holds it. -/
  owned : ∀ {o}, .owner o ∈ hs →
    hs.count (.owner o) = 1 ∧ .holding o ∉ hs ∧ ∃ x, h.objects.get? o = some x ∧ x.slot = none

/-- The counters of `h` are right for the handles `held` and those stored inside objects. -/
def Sound (h : Heap α) (held : List Handle) : Prop := h.Balanced (held ++ h.stored)

theorem mem_stored {h : Heap α} {t : Handle} :
    t ∈ h.stored ↔ ∃ o x, h.objects.get? o = some x ∧ t ∈ x.handles := by
  simp only [stored, List.mem_flatMap, Slab.mem_toList]
  constructor
  · rintro ⟨x, ⟨o, hx⟩, ht⟩
    exact ⟨o, x, hx, ht⟩
  · rintro ⟨o, x, hx, ht⟩
    exact ⟨x, ⟨o, hx⟩, ht⟩

theorem mem_stored_of_mem_kids {h : Heap α} {o : ObjectId} {x : Object α} {s : Strong}
    (hx : h.objects.get? o = some x) (hs : s ∈ x.kids) : .strong s ∈ h.stored :=
  mem_stored.2 ⟨o, x, hx, by simpa [Object.handles] using hs⟩

/-- A change of an object that keeps its slot keeps the slots of all objects. -/
theorem slot_setObject (h : Heap α) (o : ObjectId) {f : Object α → Object α}
    (hf : ∀ x, (f x).slot = x.slot) (p : ObjectId) :
    ((h.setObject o f).objects.get? p).map Object.slot = (h.objects.get? p).map Object.slot := by
  rw [setObject, Slab.get?_modify]
  split
  · rw [Option.map_map]
    exact congrArg (fun g => Option.map g _) (funext hf)
  · rfl

theorem get?_setObject {h : Heap α} {o p : ObjectId} {f : Object α → Object α} {x : Object α}
    (hf : ∀ x, (f x).slot = x.slot) (hx : h.objects.get? p = some x) :
    ∃ x', (h.setObject o f).objects.get? p = some x' ∧ x'.slot = x.slot :=
  Option.map_eq_some_iff.1 ((h.slot_setObject o hf p).trans (congrArg (Option.map _) hx))

theorem get?_of_setObject {h : Heap α} {o p : ObjectId} {f : Object α → Object α} {x' : Object α}
    (hf : ∀ x, (f x).slot = x.slot) (hx' : (h.setObject o f).objects.get? p = some x') :
    ∃ x, h.objects.get? p = some x ∧ x.slot = x'.slot :=
  Option.map_eq_some_iff.1 ((h.slot_setObject o hf p).symm.trans (congrArg (Option.map _) hx'))

/-- Changing an object exchanges the handles stored in it. -/
theorem perm_stored_setObject {h : Heap α} {o : ObjectId} {x : Object α}
    (hx : h.objects.get? o = some x) (f : Object α → Object α) :
    (x.handles ++ (h.setObject o f).stored).Perm ((f x).handles ++ h.stored) := by
  have h₁ := Slab.perm_flatMap_erase hx Object.handles
  have h₂ := Slab.perm_flatMap_modify hx f Object.handles
  refine (h₂.append_left _).trans ((List.perm_append_comm_assoc _ _ _).trans ?_)
  exact h₁.symm.append_left _

theorem balanced_empty : ({} : Heap α).Balanced [] where
  named h := by cases h
  bound h := by cases h
  attached h := by simp at h
  allocated h := by simp at h
  owned h := by cases h

namespace Balanced

variable {h : Heap α} {hs hs' : List Handle} {o p : ObjectId} {c : CounterId} {x y : Object α}
  {k : Counter}

/-! ### What a balanced heap shows -/

/-- Only how often each handle occurs matters, and unset and unbound handles do not matter at
all. -/
theorem of_count (hb : h.Balanced hs)
    (hh : ∀ o, hs'.count (.holding o) = hs.count (.holding o))
    (hw : ∀ c, hs'.count (.watching c) = hs.count (.watching c))
    (ho : ∀ o, hs'.count (.owner o) = hs.count (.owner o)) : h.Balanced hs' := by
  have mh : ∀ o, .holding o ∈ hs' ↔ .holding o ∈ hs := fun o => mem_iff_of_count_eq (hh o)
  have mw : ∀ c, .watching c ∈ hs' ↔ .watching c ∈ hs := fun c => mem_iff_of_count_eq (hw c)
  have mo : ∀ o, .owner o ∈ hs' ↔ .owner o ∈ hs := fun o => mem_iff_of_count_eq (ho o)
  have ht : ∀ o c, tally hs' o c = tally hs o c := fun o c => by rw [tally, hh, hw, tally]
  have hr : ∀ c, remnant hs' c = remnant hs c := fun c => by rw [remnant, hw, remnant]
  constructor
  · exact fun hm => hb.named ((mh _).1 hm)
  · exact fun hm => hb.bound ((mw _).1 hm)
  · intro o x c hx hc
    rw [mh, ht]
    exact hb.attached hx hc
  · intro c k hk
    rw [mw, hr]
    exact hb.allocated hk
  · intro o hm
    rw [ho, mh]
    exact hb.owned ((mo _).1 hm)

theorem perm (hb : h.Balanced hs) (hp : hs.Perm hs') : h.Balanced hs' :=
  hb.of_count (fun _ => (hp.count_eq _).symm) (fun _ => (hp.count_eq _).symm)
    (fun _ => (hp.count_eq _).symm)

theorem cons_unset_iff : h.Balanced (.strong ⟨none⟩ :: hs) ↔ h.Balanced hs := by
  constructor <;> intro hb <;> exact hb.of_count (by simp) (by simp) (by simp)

theorem cons_unbound_iff : h.Balanced (.weak ⟨none⟩ :: hs) ↔ h.Balanced hs := by
  constructor <;> intro hb <;> exact hb.of_count (by simp) (by simp) (by simp)

theorem object_of_holding (hb : h.Balanced hs) (hm : .holding o ∈ hs) :
    ∃ x, h.object o = .ok x := by
  obtain ⟨x, hx⟩ := hb.named hm
  exact ⟨x, object_eq_ok_iff.2 hx⟩

theorem living_of_slot (hb : h.Balanced hs) (hx : h.objects.get? o = some x)
    (hc : x.slot = some c) : ∃ k, h.counters.get? c = some k ∧ k.living = some o :=
  ⟨_, (hb.attached hx hc).2, tally_living _ _ _⟩

/-- A counter is in one slot at most. -/
theorem slot_inj (hb : h.Balanced hs) (hx : h.objects.get? o = some x) (hc : x.slot = some c)
    (hy : h.objects.get? p = some y) (hd : y.slot = some c) : p = o := by
  have := (hb.attached hx hc).2.symm.trans (hb.attached hy hd).2
  exact (congrArg Counter.object (Option.some.inj this.symm) |> Option.some.inj)

/-- A counter that names an object is in its slot. -/
theorem slot_of_living (hb : h.Balanced hs) (hk : h.counters.get? c = some k)
    (hl : k.living = some o) : ∃ x, h.objects.get? o = some x ∧ x.slot = some c := by
  rcases hb.allocated hk with ⟨p, x, hx, hc⟩ | ⟨-, rfl⟩
  · have := (hb.attached hx hc).2
    rw [hk] at this
    obtain rfl := Option.some.inj this
    obtain rfl : p = o := by simpa using hl
    exact ⟨x, hx, hc⟩
  · cases hl

theorem eq_tally_of_living (hb : h.Balanced hs) (hk : h.counters.get? c = some k)
    (hl : k.living = some o) : k = tally hs o c := by
  obtain ⟨x, hx, hc⟩ := hb.slot_of_living hk hl
  exact Option.some.inj (hk.symm.trans (hb.attached hx hc).2)

theorem eq_remnant_of_living (hb : h.Balanced hs) (hk : h.counters.get? c = some k)
    (hl : k.living = none) : .watching c ∈ hs ∧ k = remnant hs c := by
  rcases hb.allocated hk with ⟨o, x, hx, hc⟩ | hr
  · have := (hb.attached hx hc).2
    rw [hk] at this
    obtain rfl := Option.some.inj this
    cases hl
  · exact hr

theorem weak_eq (hb : h.Balanced hs) (hk : h.counters.get? c = some k) :
    k.weak = hs.count (.watching c) := by
  rcases hl : k.living with _ | o
  · rw [(hb.eq_remnant_of_living hk hl).2, remnant]
  · rw [hb.eq_tally_of_living hk hl, tally]

/-- The counter that manages an object is the one in its slot. -/
theorem attached_eq (hb : h.Balanced hs) (hx : h.objects.get? o = some x) :
    h.attached o = .ok x.slot := by
  simp only [Heap.attached, object_eq_ok_iff.2 hx, bind, Except.bind]
  cases hc : x.slot with
  | none => rfl
  | some c =>
    simp [slotCounter, counter_eq_ok_iff.2 (hb.attached hx hc).2, bind, Except.bind]

theorem owner_not_mem_of_slot (hb : h.Balanced hs) (hx : h.objects.get? o = some x)
    (hc : x.slot = some c) : .owner o ∉ hs := by
  intro hm
  obtain ⟨-, -, y, hy, hn⟩ := hb.owned hm
  rw [hx] at hy
  cases hy
  rw [hc] at hn
  cases hn

theorem owner_not_mem_of_holding (hb : h.Balanced hs) (hm : .holding o ∈ hs) : .owner o ∉ hs :=
  fun ho => (hb.owned ho).2.1 hm

/-! ### Changing what is stored -/

/-- What an object stores is not asked for, only its slot is. -/
theorem modify {f : Object α → Object α} (hb : h.Balanced hs)
    (hf : ∀ z, (f z).slot = z.slot) : (h.setObject o f).Balanced hs := by
  constructor
  · intro p hp
    obtain ⟨z, hz⟩ := hb.named hp
    obtain ⟨z', hz', -⟩ := get?_setObject hf hz
    exact ⟨z', hz'⟩
  · exact hb.bound
  · intro p z' c hz' hc
    obtain ⟨z, hz, e⟩ := get?_of_setObject hf hz'
    exact hb.attached hz (e.trans hc)
  · intro c k hk
    rcases hb.allocated hk with ⟨p, z, hz, hc⟩ | hr
    · obtain ⟨z', hz', e⟩ := get?_setObject hf hz
      exact .inl ⟨p, z', hz', e.trans hc⟩
    · exact .inr hr
  · intro p hp
    obtain ⟨h₁, h₂, z, hz, hn⟩ := hb.owned hp
    obtain ⟨z', hz', e⟩ := get?_setObject hf hz
    exact ⟨h₁, h₂, z', hz', e.trans hn⟩

/-! ### Numbers not yet given out -/

theorem next_not_held (hb : h.Balanced hs) : .holding h.objects.next ∉ hs := by
  intro hm
  obtain ⟨x, hx⟩ := hb.named hm
  exact Nat.lt_irrefl _ (Slab.lt_next_of_get? hx)

theorem next_not_owned (hb : h.Balanced hs) : .owner h.objects.next ∉ hs := by
  intro hm
  obtain ⟨-, -, x, hx, -⟩ := hb.owned hm
  exact Nat.lt_irrefl _ (Slab.lt_next_of_get? hx)

theorem next_not_watched (hb : h.Balanced hs) : .watching h.counters.next ∉ hs := by
  intro hm
  obtain ⟨k, hk⟩ := hb.bound hm
  exact Nat.lt_irrefl _ (Slab.lt_next_of_get? hk)

end Balanced

/-! ### Sound heaps -/

namespace Sound

variable {h h' : Heap α} {held held' : List Handle}

theorem perm (hs : h.Sound held) (hp : held.Perm held') : h.Sound held' :=
  Balanced.perm hs (hp.append_right _)

/-- Handles can be moved between the outside and an object. -/
theorem setObject {o : ObjectId} {x : Object α} {f : Object α → Object α} (hs : h.Sound held)
    (hx : h.objects.get? o = some x) (hf : ∀ y, (f y).slot = y.slot)
    (hp : (held ++ x.handles).Perm (held' ++ (f x).handles)) : (h.setObject o f).Sound held' := by
  refine (Balanced.modify hs hf).perm ?_
  have hst := perm_stored_setObject hx f
  rw [List.perm_iff_count] at hp hst ⊢
  intro t
  have h₁ := hp t
  have h₂ := hst t
  simp only [List.count_append] at h₁ h₂ ⊢
  omega

end Sound

theorem sound_empty : ({} : Heap α).Sound [] := balanced_empty

end Heap

end Custody
