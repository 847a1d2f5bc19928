import Mathlib.Order.Bounds.Basic
import Custody.Proofs.Ownership.Runs

/-!
# What one release frees

`Heap.Frees` says what a release does that starts with one strong handle: which objects it drops,
the least set closed under being held from inside only, and what becomes of the counters.
`Session.release_frees` says that this is what happens to every strong handle of a session, wherever
it is kept.
-/

namespace Custody

open Heap (dropped)

namespace Heap

variable {α : Type}

/-- The object numbered `p` is there, and a counter manages it. -/
def Managed (h : Heap α) (p : ObjectId) : Prop :=
  ∃ x c, h.objects.get? p = some x ∧ x.slot = some c

/-- The handles that a release lets go when it starts with a strong handle on `o` and drops the
objects `gone`. -/
def released (h : Heap α) (o : ObjectId) (gone : List ObjectId) : List Handle :=
  .holding o :: gone.flatMap h.handlesOf

/-- From `h` to `h'` a strong handle on `o` was released while the handles `rest` were kept outside,
and the objects `gone` were dropped. -/
structure Frees (h : Heap α) (o : ObjectId) (rest : List Handle) (gone : List ObjectId)
    (h' : Heap α) : Prop where
  once : gone.Nodup
  /-- The dropped objects are the least set that has a managed object as a member if and only if
  every other handle on it is stored in a member. -/
  least : IsLeast {D : Set ObjectId | ∀ p, p ∈ D ↔ h.Managed p ∧ .holding p ∉ rest ∧
    ∀ q y, h.objects.get? q = some y → ⟨some p⟩ ∈ y.kids → q ∈ D} {p | p ∈ gone}
  /-- The other objects stay as they are. -/
  objects : ∀ p, h'.objects.get? p = if p ∈ gone then none else h.objects.get? p
  /-- The strong count of a managed object that stays falls by the handles on it that go. -/
  kept : ∀ p x c, p ∉ gone → h.objects.get? p = some x → x.slot = some c →
    ∃ k k', h.counters.get? c = some k ∧ h'.counters.get? c = some k' ∧
      k.strong = k'.strong + (h.released o gone).count (.holding p) ∧ k'.living = some p
  /-- The counts of every counter fall by the handles that go; a counter without a strong handle
  left is marked, and one without any handle left is freed. -/
  counters : ∀ c k, h.counters.get? c = some k → ∃ strong weak,
    (∀ p, k.living = some p → k.strong = strong + (h.released o gone).count (.holding p)) ∧
    (k.living = none → k.strong = strong) ∧
    k.weak = weak + (h.released o gone).count (.watching c) ∧
    h'.counters.get? c = if strong = 0 ∧ weak = 0 then none else
      some { strong, weak, deleted := strong = 0, object := if strong = 0 then none else k.object }
  free : ∀ c, h.counters.get? c = none → h'.counters.get? c = none
  next_objects : h'.objects.next = h.objects.next
  next_counters : h'.counters.next = h.counters.next

variable {h h' : Heap α} {o p : ObjectId} {c : CounterId} {k : Counter} {x : Object α}
  {rest hs ts : List Handle} {gone : List ObjectId}

/-! ### The dropped objects -/

/-- The object numbered `p` is there and can go: a counter manages it, or its owner is one of the
handles `ts`. -/
def Leavable (h : Heap α) (ts : List Handle) (p : ObjectId) : Prop :=
  ∃ x, h.objects.get? p = some x ∧ (x.slot ≠ none ∨ .owner p ∈ ts)

/-- The doomed objects are the least solution of what it means to be held from inside only. -/
theorem isLeast_doomed (h : Heap α) (ts rest : List Handle) :
    IsLeast {D : Set ObjectId | ∀ p, p ∈ D ↔ h.Leavable ts p ∧ .holding p ∉ rest ∧
      ∀ q y, h.objects.get? q = some y → ⟨some p⟩ ∈ y.kids → q ∈ D} {p | h.Doomed ts rest p} := by
  constructor
  · intro p
    constructor
    · rintro ⟨hx, hc, hr, hk⟩
      exact ⟨⟨_, hx, hc⟩, hr, fun q y hy hm => hk hy hm⟩
    · rintro ⟨⟨x, hx, hc⟩, hr, hk⟩
      exact .intro hx hc hr fun hy hm => hk _ _ hy hm
  · intro D hD p hp
    induction hp with
    | intro hx hc hr _ ih => exact (hD _).2 ⟨⟨_, hx, hc⟩, hr, fun q y hy hm => ih hy hm⟩

theorem leavable_holding_iff : h.Leavable [.holding o] p ↔ h.Managed p := by
  refine exists_congr fun x => ?_
  simp [Option.ne_none_iff_exists', exists_and_left]

/-! ### The counters -/

/-- The handles before a cascade are those it let go and those after it. -/
theorem Without.perm_handles (hw : h.Without gone h') (t : Handle) (rest : List Handle) :
    (t :: (rest ++ h.stored)).Perm
      ((t :: gone.flatMap h.handlesOf) ++ (rest ++ h'.stored)) := by
  refine List.Perm.cons _ ?_
  exact (hw.perm_stored.append_left rest).trans (List.perm_append_comm_assoc _ _ _)

/-- The counter of an object that stays. -/
theorem Without.counter_kept (hw : h.Without gone h') (hb : h.Balanced (ts ++ hs))
    (hb' : h'.Balanced hs) (hp : p ∉ gone) (hx : h.objects.get? p = some x) (hc : x.slot = some c) :
    .holding p ∈ hs ∧ h.counters.get? c = some (tally (ts ++ hs) p c) ∧
      h'.counters.get? c = some (tally hs p c) := by
  have hx' : h'.objects.get? p = some x := (hw.get?_of_not_mem hp).trans hx
  obtain ⟨hm, hk'⟩ := hb'.attached hx' hc
  exact ⟨hm, (hb.attached hx hc).2, hk'⟩

/-- A counter whose object is gone counts what still watches it, and is freed when nothing does. -/
theorem Without.counter_gone (hw : h.Without gone h') (hb : h.Balanced (ts ++ hs))
    (hb' : h'.Balanced hs) (hk : h.counters.get? c = some k)
    (hg : ∀ p, k.living = some p → p ∈ gone) :
    h'.counters.get? c = if hs.count (.watching c) = 0 then none else some (remnant hs c) := by
  have noslot : ∀ p x, h'.objects.get? p = some x → x.slot ≠ some c := fun p x hx' hc => by
    obtain ⟨hx, hp⟩ := hw.get?_of_get? hx'
    have hk' := (hb.attached hx hc).2
    rw [hk] at hk'
    exact hp (hg p (by rw [Option.some.inj hk', tally_living]))
  split
  · next h0 =>
    refine Option.eq_none_iff_forall_ne_some.2 fun k' hk' => ?_
    rcases hb'.allocated hk' with ⟨p, x, hx, hc⟩ | ⟨hm, -⟩
    · exact noslot p x hx hc
    · exact List.count_eq_zero.1 h0 hm
  · next h0 =>
    have hm : .watching c ∈ hs := by
      rw [← List.count_pos_iff]
      omega
    obtain ⟨k', hk'⟩ := hb'.bound hm
    rcases hb'.allocated hk' with ⟨p, x, hx, hc⟩ | ⟨-, rfl⟩
    · exact absurd hc (noslot p x hx)
    · exact hk'

theorem Without.no_handle_on_gone (hw : h.Without gone h') (hb' : h'.Balanced hs) (hp : p ∈ gone) :
    hs.count (.holding p) = 0 := by
  refine List.count_eq_zero.2 fun hm => ?_
  obtain ⟨x, hx⟩ := hb'.named hm
  exact (hw.get?_of_get? hx).2 hp

/-- What becomes of a counter, whether its object stays, goes or is gone already. -/
theorem Without.counter_after (hw : h.Without gone h') (hb : h.Balanced (ts ++ hs))
    (hb' : h'.Balanced hs) (hk : h.counters.get? c = some k) :
    ∃ strong weak, (∀ p, k.living = some p → k.strong = strong + ts.count (.holding p)) ∧
      (k.living = none → k.strong = strong) ∧ k.weak = weak + ts.count (.watching c) ∧
      h'.counters.get? c = if strong = 0 ∧ weak = 0 then none else
        some { strong, weak, deleted := strong = 0,
               object := if strong = 0 then none else k.object } := by
  have hweak : k.weak = hs.count (.watching c) + ts.count (.watching c) := by
    rw [hb.weak_eq hk, List.count_append, Nat.add_comm]
  rcases hl : k.living with _ | p
  · refine ⟨0, hs.count (.watching c), by simp, fun _ => ?_, hweak, ?_⟩
    · rw [(hb.eq_remnant_of_living hk hl).2, remnant]
    · rw [hw.counter_gone hb hb' hk (by simp [hl])]
      simp [remnant]
  · have hstrong : k.strong = hs.count (.holding p) + ts.count (.holding p) := by
      rw [hb.eq_tally_of_living hk hl, tally, List.count_append, Nat.add_comm]
    refine ⟨hs.count (.holding p), hs.count (.watching c), ?_, by simp, hweak, ?_⟩
    · rintro q ⟨⟩
      exact hstrong
    · by_cases hp : p ∈ gone
      · rw [hw.no_handle_on_gone hb' hp, hw.counter_gone hb hb' hk (by simp [hl, hp])]
        simp [remnant]
      · obtain ⟨x, hx, hc⟩ := hb.slot_of_living hk hl
        obtain ⟨hm, hk₀, hk'⟩ := hw.counter_kept hb hb' hp hx hc
        have hpos := List.count_pos_iff.2 hm
        obtain rfl := Option.some.inj (hk.symm.trans hk₀)
        have h0 : hs.count (.holding p) ≠ 0 := by omega
        rw [hk']
        simp [h0, tally]

/-- One release of a strong handle. -/
theorem Sound.frees (hs : h.Sound (.holding o :: rest)) :
    ∃ h' log, h.release [.holding o] = .ok (h', log) ∧ h.Frees o rest (dropped log) h' := by
  have hs₀ : h.Sound ([.holding o] ++ rest) := hs
  obtain ⟨h', log, e, hs', hw, hgone⟩ := hs₀.release
  have hb : h.Balanced (h.released o (dropped log) ++ (rest ++ h'.stored)) :=
    Balanced.perm hs (hw.perm_handles _ rest)
  have hleast := h.isLeast_doomed [.holding o] rest
  simp only [← hgone, leavable_holding_iff] at hleast
  refine ⟨h', log, e, hw.nodup, hleast, hw.objects, ?_, ?_, ?_, hw.next_objects,
    hw.next_counters⟩
  · intro p x c hp hx hc
    obtain ⟨-, hk, hk'⟩ := hw.counter_kept hb hs' hp hx hc
    refine ⟨_, _, hk, hk', ?_, rfl⟩
    simp only [tally, List.count_append]
    omega
  · exact fun c k hk => hw.counter_after hb hs' hk
  · intro c hk
    refine Option.eq_none_iff_forall_ne_some.2 fun k' hk' => ?_
    have hl := Passes.of_without hs hs' hw fun c hm => List.mem_cons_of_mem _ hm
    have hlt : c < h.counters.next := hw.next_counters ▸ Slab.lt_next_of_get? hk'
    obtain ⟨k, hk₀, -⟩ := hl.counter hlt hk'
    rw [hk] at hk₀
    cases hk₀

end Heap

namespace Session

variable {s t : Session} {o : ObjectId} {name : String}

/-- `t` is the session `s` with one strong handle on the object `o` taken out of the place where it
was kept: under a name that is reset or dropped, in the registry that shares its entries, or in an
object. -/
inductive Parts (s : Session) (o : ObjectId) : Session → Prop
  | reset {name : String} (kept : s.strong.get? name = some ⟨some o⟩) :
      Parts s o { s with strong := s.strong.insert name ⟨none⟩ }
  | drop {name : String} (kept : s.strong.get? name = some ⟨some o⟩) :
      Parts s o { s with strong := s.strong.erase name }
  | discard {key : String} (kept : s.shared.get? key = some ⟨some o⟩) :
      Parts s o { s with shared := s.shared.erase key }
  | unlink {q : ObjectId} {y : Object Label} {i : Nat} (there : s.heap.objects.get? q = some y)
      (kept : y.kids[i]? = some ⟨some o⟩) :
      Parts s o { s with heap := s.heap.setObject q fun y => { y with kids := y.kids.eraseIdx i } }

theorem Parts.sound (hp : s.Parts o t) (hs : s.Sound) : t.heap.Sound (.holding o :: t.held) := by
  cases hp with
  | reset kept =>
    have hs₁ : s.heap.Sound (.strong ⟨none⟩ :: s.held) := Heap.Balanced.cons_unset_iff.2 hs
    exact hs₁.perm (perm_held_exchange kept ⟨none⟩).symm
  | @drop name kept =>
    have hp := s.strong.perm_handles_erase name
    rw [Roster.handlesAt, kept] at hp
    exact hs.perm (hp.append_right _).symm
  | @discard key kept =>
    have hp := s.shared.perm_handles_erase key
    rw [Roster.handlesAt, kept] at hp
    refine (hs.perm s.perm_held_shared).perm ((hp.append_right _).symm.trans ?_)
    exact (perm_held_shared { s with shared := s.shared.erase key }).symm.cons _
  | unlink there kept =>
    exact Heap.Sound.setObject hs there (fun _ => rfl) (perm_erase_kid s.held kept)

theorem exec_reset (kept : s.strong.get? name = some ⟨some o⟩) :
    s.exec (.reset name) =
      release { s with strong := s.strong.insert name ⟨none⟩ } [.holding o] (.flag false) := by
  simp [exec, strongAt, kept, bind, Except.bind]

theorem exec_drop (kept : s.strong.get? name = some ⟨some o⟩) :
    s.exec (.drop name) =
      release { s with strong := s.strong.erase name } [.holding o] (.flag true) := by
  simp only [exec, Roster.discard, Roster.contains, release, kept, Holder.handles,
    Option.toList_some, List.flatMap_cons, List.flatMap_nil, List.append_nil, Option.isSome_some,
    bind, Except.bind]
  cases s.heap.release [.holding o] <;> rfl

/-- In every state that a run of commands reaches that respect the slots, releasing a strong handle
ends and frees what `Frees` says and nothing else changes, wherever the handle was kept; resetting
and dropping it under its name are such releases. -/
theorem release_frees (cs : List Command) (hcs : ∀ c ∈ cs, c.lawful = true) (o : ObjectId) :
    (∀ t, (run {} cs).Parts o t → ∃ h' log, t.heap.Frees o t.held (dropped log) h' ∧
      ∀ reply, t.release [.holding o] reply = .ok ({ t with heap := h' }, ⟨reply, log⟩)) ∧
    ∀ name, (run {} cs).strong.get? name = some ⟨some o⟩ →
      (run {} cs).exec (.reset name) =
        release { run {} cs with strong := (run {} cs).strong.insert name ⟨none⟩ } [.holding o]
          (.flag false) ∧
      (run {} cs).exec (.drop name) =
        release { run {} cs with strong := (run {} cs).strong.erase name } [.holding o]
          (.flag true) := by
  refine ⟨fun t ht => ?_, fun name kept => ⟨exec_reset kept, exec_drop kept⟩⟩
  obtain ⟨h', log, e, hf⟩ := (ht.sound (run_leads sound_empty hcs).1).frees
  refine ⟨h', log, hf, fun reply => ?_⟩
  simp [release, e, bind, Except.bind]

theorem release_frees_pair :
    ∃ t h' log, (run {} pairRun).Parts 0 t ∧ t.heap.Frees 0 t.held (dropped log) h' ∧
      (run {} pairRun).exec (.reset "a") = .ok ({ t with heap := h' }, ⟨.flag false, log⟩) := by
  have kept : (run {} pairRun).strong.get? "a" = some ⟨some 0⟩ := by decide +kernel
  obtain ⟨hall, hcmd⟩ := release_frees pairRun (by decide) 0
  obtain ⟨h', log, hf, e⟩ := hall _ (.reset kept)
  exact ⟨_, h', log, .reset kept, hf, (hcmd "a" kept).1.trans (e _)⟩

end Session

end Custody
