import Mathlib.Data.List.Nodup
import Mathlib.Data.Set.Finite.Basic
import Mathlib.Logic.Relation
import Mathlib.Order.WellFounded
import Custody.Proofs.Ownership.Extent
import Custody.Proofs.Ownership.History

/-!
# Liveness is reachability

The strong handles stored in objects make a graph (`Heap.Owns`).  What can be reached in it from a
root is there, and a managed object that cannot be reached hangs on a cycle; so without cycles a
heap that loses all its roots loses all its managed objects.  `Session.live_reach` says this of the
sessions that a run of commands reaches.
-/

namespace Custody

open Heap (dropped)
open Relation (ReflTransGen TransGen)

/-! ### Walking backwards -/

/-- In a finite set where everything has a predecessor, everything is behind a cycle. -/
theorem exists_cycle {r : Nat → Nat → Prop} {U : Nat → Prop} {n q : Nat} (hn : ∀ p, U p → p < n)
    (hpred : ∀ p, U p → ∃ p', U p' ∧ r p' p) (hq : U q) :
    ∃ p, TransGen r p p ∧ ReflTransGen r p q := by
  by_contra hno
  let W := {p // U p ∧ ReflTransGen r p q}
  have hfin : Finite W := (Set.finite_lt_nat n).subset fun p hp => hn p hp.1
  have htrans : IsTrans W fun a b => TransGen r a.1 b.1 := ⟨fun _ _ _ => TransGen.trans⟩
  have hirrefl : Std.Irrefl fun a b : W => TransGen r a.1 b.1 :=
    ⟨fun a ha => hno ⟨a.1, ha, a.2.2⟩⟩
  have hwf : WellFounded fun a b : W => TransGen r a.1 b.1 :=
    Finite.wellFounded_of_trans_of_irrefl _
  obtain ⟨⟨m, hm, hmq⟩, -, hmin⟩ := hwf.has_min Set.univ ⟨⟨q, hq, .refl⟩, trivial⟩
  obtain ⟨m', hm', hr⟩ := hpred m hm
  exact hmin ⟨m', hm', .head hr hmq⟩ trivial (.single hr)

namespace Heap

variable {α : Type}

/-! ### The graph of strong handles -/

/-- The object numbered `p` stores a strong handle on the one numbered `q`. -/
def Owns (h : Heap α) (p q : ObjectId) : Prop := ∃ x, h.objects.get? p = some x ∧ ⟨some q⟩ ∈ x.kids

/-- A managed object stores a strong handle on a managed one. -/
def Links (h : Heap α) (p q : ObjectId) : Prop := h.Managed p ∧ h.Managed q ∧ h.Owns p q

/-- One of the handles `held` outside, or one stored in an object that no counter manages, names the
object numbered `q`. -/
def Root (h : Heap α) (held : List Handle) (q : ObjectId) : Prop :=
  .holding q ∈ held ∨ ∃ p x, h.objects.get? p = some x ∧ x.slot = none ∧ ⟨some q⟩ ∈ x.kids

/-- A path of strong handles leads from a root to the object numbered `q`. -/
def Reachable (h : Heap α) (held : List Handle) (q : ObjectId) : Prop :=
  ∃ r, h.Root held r ∧ ReflTransGen h.Owns r q

variable {h h' : Heap α} {held : List Handle} {p q : ObjectId} {gone : List ObjectId}

theorem Owns.mem_stored (ho : h.Owns p q) : .holding q ∈ h.stored := by
  obtain ⟨x, hx, hk⟩ := ho
  exact mem_stored_of_mem_kids hx hk

theorem Managed.lt_next (hm : h.Managed p) : p < h.objects.next := by
  obtain ⟨x, c, hx, -⟩ := hm
  exact Slab.lt_next_of_get? hx

theorem Sound.there_of_reachable (hs : h.Sound held) (hr : h.Reachable held q) :
    ∃ x, h.objects.get? q = some x := by
  obtain ⟨r, hroot, hpath⟩ := hr
  rcases hpath.cases_tail with rfl | ⟨p, -, ho⟩
  · rcases hroot with hm | ⟨p, x, hx, -, hk⟩
    · exact Balanced.named hs (List.mem_append_left _ hm)
    · exact Balanced.named hs (List.mem_append_right _ (mem_stored_of_mem_kids hx hk))
  · exact Balanced.named hs (List.mem_append_right _ ho.mem_stored)

/-- A managed object that no root names is held by a managed object. -/
theorem Sound.links_of_managed (hs : h.Sound held) (hm : h.Managed q) (hr : ¬ h.Root held q) :
    ∃ p, h.Links p q := by
  obtain ⟨x, c, hx, hc⟩ := hm
  have hmem := (Balanced.attached hs hx hc).1
  rcases List.mem_append.1 hmem with hmem | hmem
  · exact absurd (.inl hmem) hr
  · obtain ⟨p, y, hy, hk⟩ := mem_stored.1 hmem
    have hk : ⟨some q⟩ ∈ y.kids := by simpa [Object.handles] using hk
    cases hd : y.slot with
    | none => exact absurd (.inr ⟨p, y, hy, hd, hk⟩) hr
    | some d => exact ⟨p, ⟨y, d, hy, hd⟩, ⟨x, c, hx, hc⟩, y, hy, hk⟩

/-- A managed object that cannot be reached hangs on a cycle of managed objects. -/
theorem Sound.cycle_of_not_reachable (hs : h.Sound held) (hm : h.Managed q)
    (hr : ¬ h.Reachable held q) : ∃ p, TransGen h.Links p p ∧ ReflTransGen h.Links p q := by
  refine exists_cycle (U := fun p => h.Managed p ∧ ¬ h.Reachable held p)
    (fun p hp => hp.1.lt_next) (fun p hp => ?_) ⟨hm, hr⟩
  obtain ⟨p', hl⟩ := hs.links_of_managed hp.1 fun hroot => hp.2 ⟨p, hroot, .refl⟩
  refine ⟨p', ⟨hl.1, fun hr' => hp.2 ?_⟩, hl⟩
  obtain ⟨r, hroot, hpath⟩ := hr'
  exact ⟨r, hroot, hpath.tail hl.2.2⟩

/-! ### Letting everything go -/

theorem Without.owns (hw : h.Without gone h') (ho : h'.Owns p q) : h.Owns p q := by
  obtain ⟨x, hx, hk⟩ := ho
  exact ⟨x, (hw.get?_of_get? hx).1, hk⟩

/-- Without cycles, and without handles in the objects that nothing frees, releasing all handles
drops every managed object and frees every counter. -/
theorem Sound.release_all (hs : h.Sound held) (acyclic : ∀ p, ¬ TransGen h.Owns p p)
    (static : ∀ p x, h.objects.get? p = some x → x.slot = none → .owner p ∉ held → x.handles = []) :
    ∃ h' log, h.release held = .ok (h', log) ∧ h.Passes (dropped log) h' ∧
      (∀ p, ¬ h'.Managed p) ∧ h'.live = 0 := by
  rw [← List.append_nil held] at hs
  obtain ⟨h', log, e, hs', hw, -, howner⟩ := hs.release_spec
  have hl := Passes.of_without hs hs' hw fun c hm => List.mem_append_right _ hm
  have bare : ∀ p x, h'.objects.get? p = some x → x.slot = none → x.handles = [] := by
    intro p x hx hc
    obtain ⟨hx, hp⟩ := hw.get?_of_get? hx
    exact static p x hx hc fun ho => hp (howner p ho)
  have noroot : ∀ q, ¬ h'.Root [] q := by
    rintro q (hm | ⟨p, x, hx, hc, hk⟩)
    · cases hm
    · have := bare p x hx hc
      simp only [Object.handles, List.append_eq_nil_iff, List.map_eq_nil_iff] at this
      rw [this.1] at hk
      cases hk
  have none_managed : ∀ p, ¬ h'.Managed p := by
    intro p hm
    obtain ⟨q, hcycle, -⟩ := exists_cycle (U := h'.Managed) (fun p hp => hp.lt_next)
      (fun p hp => by
        obtain ⟨p', hl⟩ := hs'.links_of_managed hp (noroot p)
        exact ⟨p', hl.1, hl⟩) hm
    have hmono : h'.Links ≤ h.Owns := fun a b hl => hw.owns hl.2.2
    exact acyclic q (TransGen.mono hmono q q hcycle)
  refine ⟨h', log, e, hl, none_managed, ?_⟩
  have hnone : h'.counters.toList = [] := by
    refine List.eq_nil_iff_forall_not_mem.2 fun k hk => ?_
    obtain ⟨c, hk⟩ := Slab.mem_toList.1 hk
    rcases Balanced.allocated hs' hk with ⟨p, x, hx, hc⟩ | ⟨hm, -⟩
    · exact none_managed p ⟨x, c, hx, hc⟩
    · obtain ⟨p, x, hx, hm⟩ := mem_stored.1 hm
      cases hc : x.slot with
      | none =>
        rw [bare p x hx hc] at hm
        cases hm
      | some d => exact none_managed p ⟨x, d, hx, hc⟩
  rw [live, Slab.size, hnone, List.length_nil]

end Heap

namespace Session

/-- In every state that a run of commands reaches that respect the slots, what can be reached from a
root is there, and a managed object that cannot be reached hangs on a cycle of managed objects. If
there is no cycle and no handle is stored in an object that nothing frees, releasing all handles in
any order frees all counters, and then every object that was ever managed was dropped exactly once.
-/
theorem live_reach (cs : List Command) (hcs : ∀ c ∈ cs, c.lawful = true) :
    (∀ q, (run {} cs).heap.Reachable (run {} cs).held q →
      ∃ x, (run {} cs).heap.objects.get? q = some x) ∧
    (∀ q, (run {} cs).heap.Managed q → ¬ (run {} cs).heap.Reachable (run {} cs).held q →
      ∃ p, TransGen (run {} cs).heap.Links p p ∧ ReflTransGen (run {} cs).heap.Links p q) ∧
    ((∀ p, ¬ TransGen (run {} cs).heap.Owns p p) →
      (∀ p x, (run {} cs).heap.objects.get? p = some x → x.slot = none →
        .owner p ∉ (run {} cs).held → x.handles = []) →
      ∀ order, order.Perm (run {} cs).held →
        ∃ h' log, (run {} cs).heap.release order = .ok (h', log) ∧ h'.live = 0 ∧
          ∀ o c, EverManaged cs o c → (dropped (drops {} cs ++ log)).count o = 1) := by
  obtain ⟨hs, hl⟩ := run_leads sound_empty hcs
  refine ⟨fun q hq => hs.there_of_reachable hq, fun q hq hr => hs.cycle_of_not_reachable hq hr, ?_⟩
  intro acyclic static order hperm
  obtain ⟨h', log, e, hl', none_managed, hlive⟩ := (hs.perm hperm.symm).release_all acyclic
    fun p x hx hc ho => static p x hx hc fun hm => ho (hperm.mem_iff.2 hm)
  refine ⟨h', log, e, hlive, ?_⟩
  rintro o c ⟨pre, x, hp, hx, hc⟩
  obtain ⟨gone, hpre⟩ := run_leads_of_prefix hcs hp
  have hlead := hpre.trans hl'.toLeads
  have hall := hl.trans hl'.toLeads
  rw [← Heap.dropped_append] at hall
  refine List.count_eq_one_of_mem hall.nodup ?_
  -- otherwise the object would still be there, and managed
  by_contra hgone
  have hlt : o < h'.objects.next :=
    Nat.lt_of_lt_of_le (Slab.lt_next_of_get? hx) hlead.next_objects
  obtain ⟨x', hx'⟩ := (hall.there_iff hlt).2 ⟨hgone, fun h0 => absurd h0 (Nat.not_lt_zero o)⟩
  exact none_managed o ⟨x', c, hx', (hlead.slot hx hx').trans hc⟩

theorem live_reach_pair :
    ∃ h' log, (run {} pairRun).heap.release (run {} pairRun).held.reverse = .ok (h', log) ∧
      h'.live = 0 ∧ (dropped (drops {} pairRun ++ log)).count 0 = 1 ∧
      (dropped (drops {} pairRun ++ log)).count 1 = 1 := by
  have hnext : (run {} pairRun).heap.objects.next = 2 := by decide +kernel
  have hkids : ∀ p < 2, ((run {} pairRun).heap.objects.get? p).map Object.kids =
      some (if p = 0 then [⟨some 1⟩] else []) := by decide +kernel
  have hslot : ∀ p < 2, ((run {} pairRun).heap.objects.get? p).map Object.slot = some (some p) := by
    decide +kernel
  have hlt : ∀ {p x}, (run {} pairRun).heap.objects.get? p = some x → p < 2 := fun hx =>
    hnext ▸ Slab.lt_next_of_get? hx
  have hone : ∀ p q, (run {} pairRun).heap.Owns p q → p < q := by
    rintro p q ⟨x, hx, hk⟩
    have h₁ := hkids p (hlt hx)
    rw [hx, Option.map_some] at h₁
    rw [Option.some.inj h₁] at hk
    split at hk
    · next hp =>
      simp only [List.mem_singleton, Strong.mk.injEq, Option.some.injEq] at hk
      rw [hp, hk]
      exact Nat.zero_lt_one
    · cases hk
  have acyclic : ∀ p, ¬ TransGen (run {} pairRun).heap.Owns p p := by
    have hmono : ∀ p q, TransGen (run {} pairRun).heap.Owns p q → p < q := by
      intro p q hpq
      induction hpq with
      | single ho => exact hone _ _ ho
      | tail _ ho ih => exact Nat.lt_trans ih (hone _ _ ho)
    exact fun p hp => Nat.lt_irrefl _ (hmono p p hp)
  have managed : ∀ p < 2, EverManaged pairRun p p := fun p hp => by
    obtain ⟨x, hx, hc⟩ := Option.map_eq_some_iff.1 (hslot p hp)
    exact everManaged_of_slot hx hc
  obtain ⟨h', log, e, hlive, honce⟩ := (live_reach pairRun (by decide)).2.2 acyclic
    (fun p x hx hc _ => by
      have h₂ := hslot p (hlt hx)
      simp [hx, hc] at h₂)
    _ (List.reverse_perm _)
  exact ⟨h', log, e, hlive, honce 0 0 (managed 0 (by decide)), honce 1 1 (managed 1 (by decide))⟩

end Session

end Custody
