import Custody.Proofs.Ownership.Runs

/-!
# Nothing is freed twice or touched after it was freed

A freed object or counter that is touched, a count that would go below zero and every other breach
of the ownership rules is a fault.  `run_safe` says that a session meets none of them: a command
stops only because something it names is not there, objects that are dropped stay away, and so do
counters that are freed.
-/

namespace Custody

open Heap (dropped)

namespace Session

variable {s : Session} {cs pre : List Command}

/-! ### Looking at a session -/

theorem mapM_ok {β γ : Type} {f : β → Except Fault γ} {l : List β}
    (h : ∀ b ∈ l, ∃ c, f b = .ok c) : ∃ r, l.mapM f = .ok r := by
  induction l with
  | nil => exact ⟨[], rfl⟩
  | cons b l ih =>
    obtain ⟨c, e⟩ := h b List.mem_cons_self
    obtain ⟨r, e'⟩ := ih fun b hb => h b (List.mem_cons_of_mem _ hb)
    exact ⟨c :: r, by simp [List.mapM_cons, e, e', bind, Except.bind, pure, Except.pure]⟩

theorem viewStrong_ok {h : Heap Label} {hs : List Handle} {x : Strong} (hb : h.Balanced hs)
    (hm : .strong x ∈ hs) : ∃ v, viewStrong h x = .ok v := by
  obtain ⟨id, e₁⟩ := labelOf_ok hb hm
  obtain ⟨k, e₂⟩ := hb.counterOf hm
  cases id with
  | none => exact ⟨none, by simp [viewStrong, e₁, bind, Except.bind]⟩
  | some id =>
    simp only [viewStrong, Heap.strongCount, Heap.weakCount, e₁, e₂, bind, Except.bind]
    exact ⟨_, rfl⟩

theorem viewWeak_ok {h : Heap Label} {hs : List Handle} {w : Weak} (hb : h.Balanced hs)
    (hm : .weak w ∈ hs) : ∃ v, viewWeak h w = .ok v := by
  obtain ⟨_ | c⟩ := w
  · exact ⟨none, rfl⟩
  · obtain ⟨k, hk⟩ := hb.bound hm
    have e : h.boundTo ⟨some c⟩ = .ok (some k) := by
      simp [Heap.boundTo, Heap.counter_eq_ok_iff.2 hk, Functor.map, Except.map]
    have e' : ∃ id, labelOf h ⟨k.living⟩ = .ok id := by
      cases hl : k.living with
      | none => exact ⟨none, rfl⟩
      | some o =>
        obtain ⟨x, hx, hc⟩ := hb.slot_of_living hk hl
        exact labelOf_ok hb (hb.attached hx hc).1
    obtain ⟨id, e'⟩ := e'
    exact ⟨some (id, k), by simp [viewWeak, e, e', bind, Except.bind]⟩

theorem view_ok (hs : s.Sound) : ∃ v, s.view = .ok v := by
  have hstrong : ∀ e ∈ s.strong.entries, .strong e.2 ∈ s.handles := fun e he =>
    List.mem_append_left _ (List.mem_append_left _
      (List.mem_flatMap.2 ⟨e.2, List.mem_map_of_mem he, List.mem_cons_self⟩))
  have hweak : ∀ e ∈ s.weak.entries, .weak e.2 ∈ s.handles := fun e he =>
    List.mem_append_left _ (s.perm_held_weak.mem_iff.2 (List.mem_append_left _
      (List.mem_flatMap.2 ⟨e.2, List.mem_map_of_mem he, List.mem_cons_self⟩)))
  have e₁ := mapM_ok (f := fun e => do .ok (e.1, ← viewStrong s.heap e.2)) (l := s.strong.entries)
    fun e he => by
      obtain ⟨v, ev⟩ := viewStrong_ok hs (hstrong e he)
      exact ⟨(e.1, v), by simp [ev, bind, Except.bind]⟩
  have e₂ := mapM_ok (f := fun e => do .ok (e.1, ← viewWeak s.heap e.2)) (l := s.weak.entries)
    fun e he => by
      obtain ⟨v, ev⟩ := viewWeak_ok hs (hweak e he)
      exact ⟨(e.1, v), by simp [ev, bind, Except.bind]⟩
  obtain ⟨strong, e₁⟩ := e₁
  obtain ⟨weak, e₂⟩ := e₂
  exact ⟨⟨strong, weak, s.heap.live⟩, by
    simp only [bind, Except.bind] at e₁ e₂
    simp [view, e₁, e₂, bind, Except.bind]⟩

/-! ### The end of a session -/

theorem close_ok (hs : s.Sound) : ∃ r, s.close = .ok r := by
  obtain ⟨_, _, _, _, _, _, _, _, -, -, -, -, -, -, e⟩ := close_stages hs
  exact ⟨_, e⟩

/-! ### Safety -/

/-- After any run of commands that respect the slots, no such command meets a breach of the
ownership rules, and neither does releasing any of the handles in any order, looking at the session
or closing it. Every object is dropped at most once and is not there any more, and a counter that
was freed is not allocated again. -/
theorem run_safe (cs : List Command) (hcs : ∀ c ∈ cs, c.lawful = true) :
    (∀ c, c.lawful = true → (∃ r, (run {} cs).exec c = .ok r) ∨
      (run {} cs).exec c = .error .notFound ∧ ¬ (run {} cs).Resolves c) ∧
    (∀ pending rest, (run {} cs).held.Perm (pending ++ rest) →
      ∃ r, (run {} cs).heap.release pending = .ok r) ∧
    (∃ v, (run {} cs).view = .ok v) ∧ (∃ r, (run {} cs).close = .ok r) ∧
    (dropped (drops {} cs)).Nodup ∧
    (∀ p ∈ dropped (drops {} cs), (run {} cs).heap.objects.get? p = none) ∧
    ∀ pre c, pre <+: cs → c < (run {} pre).heap.counters.next →
      (run {} pre).heap.counters.get? c = none → (run {} cs).heap.counters.get? c = none := by
  obtain ⟨hs, hl⟩ := run_leads sound_empty hcs
  refine ⟨fun c hc => ?_, fun pending rest hp => ?_, view_ok hs, close_ok hs, hl.nodup,
    fun p hp => ?_, fun pre c hp hlt hk => ?_⟩
  · exact (exec_answers hs hc).imp_left fun ⟨s', out, e, _⟩ => ⟨(s', out), e⟩
  · obtain ⟨h, log, e, -⟩ := (hs.perm hp).release_passes
    exact ⟨(h, log), e⟩
  · refine Option.eq_none_iff_forall_ne_some.2 fun x hx => ?_
    exact ((hl.there_iff (hl.dropped_lt hp)).1 ⟨x, hx⟩).1 hp
  · obtain ⟨gone, hl'⟩ := run_leads_of_prefix hcs hp
    refine Option.eq_none_iff_forall_ne_some.2 fun k' hk' => ?_
    obtain ⟨k, hk₀, -⟩ := hl'.counter hlt hk'
    rw [hk] at hk₀
    cases hk₀

theorem run_safe_pair :
    (∃ r, (run {} pairRun).exec (.drop "a") = .ok r) ∧ (∃ r, (run {} pairRun).close = .ok r) := by
  obtain ⟨hexec, -, -, hclose, -⟩ := run_safe pairRun (by decide)
  refine ⟨?_, hclose⟩
  rcases hexec (.drop "a") rfl with hr | ⟨-, hn⟩
  · exact hr
  · exact absurd trivial hn

end Session

end Custody
