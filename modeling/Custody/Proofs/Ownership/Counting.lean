import Custody.Proofs.Ownership.History

/-!
# Counters count

`counters_count` is what the counters say after any run of commands: each counts the handles on its
object, and the objects that were ever managed and are still there are those that the counters in
use name.
-/

namespace Custody

namespace Session

variable {s : Session} {cs : List Command} {o : ObjectId} {c : CounterId} {k : Counter}

/-! ### Counters in a sound session -/

theorem Sound.weak_eq (hs : s.Sound) (hk : s.heap.counters.get? c = some k) :
    k.weak = s.handles.count (.watching c) := Heap.Balanced.weak_eq hs hk

theorem Sound.deleted_iff (hs : s.Sound) (hk : s.heap.counters.get? c = some k) :
    k.deleted = true ↔ k.strong = 0 := by
  rcases Heap.Balanced.allocated hs hk with ⟨o, x, hx, hc⟩ | ⟨-, rfl⟩
  · obtain ⟨hm, hk'⟩ := Heap.Balanced.attached hs hx hc
    obtain rfl := Option.some.inj (hk.symm.trans hk')
    have hpos := List.count_pos_iff.2 hm
    simp only [tally, Bool.false_eq_true, false_iff]
    omega
  · simp [remnant]

theorem Sound.in_use (hs : s.Sound) (hk : s.heap.counters.get? c = some k) :
    k.strong ≠ 0 ∨ k.weak ≠ 0 := by
  rcases Heap.Balanced.allocated hs hk with ⟨o, x, hx, hc⟩ | ⟨hm, rfl⟩
  · obtain ⟨hm, hk'⟩ := Heap.Balanced.attached hs hx hc
    obtain rfl := Option.some.inj (hk.symm.trans hk')
    have hpos := List.count_pos_iff.2 hm
    left
    simp only [tally]
    omega
  · have hpos := List.count_pos_iff.2 hm
    right
    simp only [remnant]
    omega

theorem Sound.backed (hs : s.Sound) (hk : s.heap.counters.get? c = some k)
    (hd : k.deleted = false) :
    ∃ o x, k.object = some o ∧ s.heap.objects.get? o = some x ∧ x.slot = some c := by
  rcases Heap.Balanced.allocated hs hk with ⟨o, x, hx, hc⟩ | ⟨-, rfl⟩
  · obtain ⟨-, hk'⟩ := Heap.Balanced.attached hs hx hc
    obtain rfl := Option.some.inj (hk.symm.trans hk')
    exact ⟨o, x, rfl, hx, hc⟩
  · cases hd

/-! ### Counters after a run -/

/-- A counter counts the handles on the object that it managed, also when that object is gone. -/
theorem EverManaged.strong_eq (hm : EverManaged cs o c) (hcs : ∀ c ∈ cs, c.lawful = true)
    (hk : (run {} cs).heap.counters.get? c = some k) :
    k.strong = (run {} cs).handles.count (.holding o) := by
  have hs := (run_leads sound_empty hcs).1
  rcases hl : k.living with _ | p
  · obtain ⟨-, rfl⟩ := Heap.Balanced.eq_remnant_of_living hs hk hl
    -- a handle on the object would show that it is still there, with the counter in its slot
    have hno : .holding o ∉ (run {} cs).handles := fun hmem => by
      obtain ⟨x, hx⟩ := Heap.Balanced.named hs hmem
      have hk' := (Heap.Balanced.attached hs hx (hm.slot hcs hx)).2
      rw [hk] at hk'
      rw [Option.some.inj hk', tally_living] at hl
      cases hl
    rw [List.count_eq_zero.2 hno, remnant]
  · obtain rfl := hm.eq_of_living hcs hk hl
    rw [Heap.Balanced.eq_tally_of_living hs hk hl, tally]
    rfl

/-- After any run of commands that respect the slots, every allocated counter has managed exactly
one object; its counts are the numbers of live handles on that object and on itself, it is marked if
and only if its strong count is 0, one of its counts is not 0, and unless it is marked it names its
object, which is there with the counter in its slot. Every object that was ever managed and is still
there is named by the counter in its slot, which is not marked. -/
theorem counters_count (cs : List Command) (hcs : ∀ c ∈ cs, c.lawful = true) :
    (∀ c k, (run {} cs).heap.counters.get? c = some k → ∃ o, (∀ p, EverManaged cs p c ↔ p = o) ∧
      k.strong = (run {} cs).handles.count (.holding o) ∧
      k.weak = (run {} cs).handles.count (.watching c) ∧
      (k.deleted = true ↔ k.strong = 0) ∧ (k.strong ≠ 0 ∨ k.weak ≠ 0) ∧
      (k.deleted = false → k.object = some o ∧
        ∃ x, (run {} cs).heap.objects.get? o = some x ∧ x.slot = some c)) ∧
    ∀ o c x, EverManaged cs o c → (run {} cs).heap.objects.get? o = some x →
      x.slot = some c ∧ ∃ k, (run {} cs).heap.counters.get? c = some k ∧ k.deleted = false ∧
        k.object = some o := by
  have hs := (run_leads sound_empty hcs).1
  constructor
  · intro c k hk
    obtain ⟨o, hm⟩ := exists_everManaged hcs hk
    refine ⟨o, fun p => ⟨fun hp => hm.unique hp hcs, fun e => e ▸ hm⟩, hm.strong_eq hcs hk,
      hs.weak_eq hk, hs.deleted_iff hk, hs.in_use hk, fun hd => ?_⟩
    obtain ⟨p, x, hp, hx, hc⟩ := hs.backed hk hd
    obtain rfl := hm.unique (everManaged_of_slot hx hc) hcs
    exact ⟨hp, x, hx, hc⟩
  · intro o c x hm hx
    have hc := hm.slot hcs hx
    exact ⟨hc, _, (Heap.Balanced.attached hs hx hc).2, rfl, rfl⟩

theorem counters_count_pair :
    ∃ k, (run {} pairRun).heap.counters.get? 0 = some k ∧
      k.strong = (run {} pairRun).handles.count (.holding 0) ∧
      k.weak = (run {} pairRun).handles.count (.watching 0) := by
  have hk : (run {} pairRun).heap.counters.get? 0 =
      some { strong := 1, weak := 1, object := some 0 } := by decide +kernel
  obtain ⟨o, -, hstrong, hweak, -, -, hback⟩ := (counters_count pairRun (by decide)).1 0 _ hk
  obtain rfl : 0 = o := Option.some.inj (hback rfl).1
  exact ⟨_, hk, hstrong, hweak⟩

end Session

end Custody
