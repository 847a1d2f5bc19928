import Mathlib.Data.List.Induction
import Custody.Proofs.Ownership.Runs

/-!
# The objects and counters of a run

`Session.EverManaged cs o d` says that at some time of the run `cs` the object `o` was managed by
the counter `d`.  Neither ever gets another: a counter manages exactly one object
(`exists_everManaged`, `EverManaged.unique`), and an object that is still there is still managed by
its counter.
-/

namespace Custody

namespace Session

variable {cs : List Command} {o p : ObjectId} {d : CounterId} {x : Object Label} {k : Counter}

/-- In some state of the run `cs` the object `o` is managed by the counter `d`. -/
def EverManaged (cs : List Command) (o : ObjectId) (d : CounterId) : Prop :=
  ∃ pre x, pre <+: cs ∧ (run {} pre).heap.objects.get? o = some x ∧ x.slot = some d

theorem everManaged_of_slot (hx : (run {} cs).heap.objects.get? o = some x)
    (hd : x.slot = some d) : EverManaged cs o d :=
  ⟨cs, x, List.prefix_refl cs, hx, hd⟩

namespace EverManaged

/-- An object that is still there is still managed by the counter that managed it. -/
theorem slot (hm : EverManaged cs o d) (hcs : ∀ c ∈ cs, c.lawful = true)
    (hx : (run {} cs).heap.objects.get? o = some x) : x.slot = some d := by
  obtain ⟨pre, y, hp, hy, hd⟩ := hm
  obtain ⟨gone, hl⟩ := run_leads_of_prefix hcs hp
  exact (hl.slot hy hx).trans hd

/-- A counter that is still there and still names an object names the one it managed. -/
theorem eq_of_living (hm : EverManaged cs o d) (hcs : ∀ c ∈ cs, c.lawful = true)
    (hk : (run {} cs).heap.counters.get? d = some k) (hl : k.living = some p) : p = o := by
  obtain ⟨pre, x, hp, hx, hd⟩ := hm
  have hs := (run_leads sound_empty fun c hc => hcs c (hp.subset hc)).1
  obtain ⟨gone, hlead⟩ := run_leads_of_prefix hcs hp
  obtain ⟨k₀, hk₀, hl₀⟩ := Heap.Balanced.living_of_slot hs hx hd
  obtain ⟨k₁, hk₁, hliv⟩ := hlead.counter (Slab.lt_next_of_get? hk₀) hk
  obtain rfl := Option.some.inj (hk₀.symm.trans hk₁)
  exact Option.some.inj ((hliv p hl).symm.trans hl₀)

theorem of_prefix {pre : List Command} (hm : EverManaged pre o d) (hp : pre <+: cs) :
    EverManaged cs o d := by
  obtain ⟨pre', x, hp', hx, hd⟩ := hm
  exact ⟨pre', x, hp'.trans hp, hx, hd⟩

/-- A counter manages one object at most. -/
theorem unique (ho : EverManaged cs o d) (hp : EverManaged cs p d)
    (hcs : ∀ c ∈ cs, c.lawful = true) : p = o := by
  obtain ⟨pre₁, x, h₁, hx, hd⟩ := ho
  obtain ⟨pre₂, y, h₂, hy, hd'⟩ := hp
  have hcs₁ : ∀ c ∈ pre₁, c.lawful = true := fun c hc => hcs c (h₁.subset hc)
  have hcs₂ : ∀ c ∈ pre₂, c.lawful = true := fun c hc => hcs c (h₂.subset hc)
  rcases List.prefix_or_prefix_of_prefix h₁ h₂ with h | h
  · have hm : EverManaged pre₂ o d := ⟨pre₁, x, h, hx, hd⟩
    obtain ⟨k, hk, hl⟩ := Heap.Balanced.living_of_slot (run_leads sound_empty hcs₂).1 hy hd'
    exact hm.eq_of_living hcs₂ hk hl
  · have hm : EverManaged pre₁ p d := ⟨pre₂, y, h, hy, hd'⟩
    obtain ⟨k, hk, hl⟩ := Heap.Balanced.living_of_slot (run_leads sound_empty hcs₁).1 hx hd
    exact (hm.eq_of_living hcs₁ hk hl).symm

end EverManaged

/-- Every counter that is allocated has managed an object. -/
theorem exists_everManaged (hcs : ∀ c ∈ cs, c.lawful = true)
    (hk : (run {} cs).heap.counters.get? d = some k) : ∃ o, EverManaged cs o d := by
  induction cs using List.reverseRecOn generalizing k with
  | nil => cases hk
  | append_singleton ds c ih =>
    have hds : ∀ c ∈ ds, c.lawful = true := fun c hc => hcs c (List.mem_append_left _ hc)
    have hc := hcs c (List.mem_append_right _ List.mem_cons_self)
    have hrun : run {} (ds ++ [c]) = ((run {} ds).step c).1 := run_append _ _ _
    obtain ⟨-, hl, hseats⟩ := step_leads (run_leads sound_empty hds).1 hc
    rw [hrun] at hk
    by_cases hlt : d < (run {} ds).heap.counters.next
    · obtain ⟨k₀, hk₀, -⟩ := hl.counter hlt hk
      obtain ⟨o, hm⟩ := ih hds hk₀
      exact ⟨o, hm.of_prefix (List.prefix_append ds [c])⟩
    · obtain ⟨o, x, hx, hd⟩ := hseats d k (Nat.le_of_not_lt hlt) hk
      exact ⟨o, everManaged_of_slot (hrun ▸ hx) hd⟩

end Session

end Custody
