import Mathlib.Data.List.Pairwise
import Custody.Proofs.Ownership.History
import Custody.Proofs.Ownership.Scenes

/-!
# The moments of a run

The handles of a session can be looked at between two commands, and while a dropped object reports.
`Session.life` lists these `Moment`s of a run and of the release that ends it, in order.

Without the object that is dropped, the heap of a moment lies on the course of the run: the books
are right in it (`Moment.Sound`), and it leads to that of every later moment (`life_spec` says
both).  So an object and its counter are at every moment what they are in the states between the
commands (`EverManaged.eq_of_living_at`).
-/

namespace Custody

open Heap (dropped)

/-- A moment at which the handles on a heap can be looked at. -/
structure Moment where
  heap : Heap Label
  /-- All handles there are. -/
  handles : List Handle
  /-- The object that is dropped at this moment. -/
  dying : Option ObjectId := none

/-- The moment of a scene, when the handles `held` are those that are not released. -/
def Moment.ofScene (held : List Handle) (d : Heap.Scene Label) : Moment :=
  ⟨d.heap, d.pending ++ held ++ d.heap.stored, some d.object⟩

namespace Moment

/-- The heap without the object that is dropped. -/
def settled (m : Moment) : Heap Label :=
  m.dying.elim m.heap fun o => { m.heap with objects := m.heap.objects.erase o }

/-- The books are right at a moment. -/
def Sound (m : Moment) : Prop := m.heap.Balanced (m.dying.toList.map .owner ++ m.handles)

/-- The heap of `m` leads to that of `m'`. -/
def Before (m m' : Moment) : Prop := ∃ gone, m.settled.Leads gone m'.settled

theorem Before.refl (m : Moment) : m.Before m := ⟨[], (Heap.Passes.refl _).toLeads⟩

theorem Before.trans {m₁ m₂ m₃ : Moment} : m₁.Before m₂ → m₂.Before m₃ → m₁.Before m₃ :=
  fun ⟨gone, hl⟩ ⟨gone', hl'⟩ => ⟨gone ++ gone', hl.trans hl'⟩

/-- The books are right at a moment that lies between two others. -/
structure Between (m m₁ m₂ : Moment) : Prop where
  sound : m.Sound
  later : m₁.Before m
  earlier : m.Before m₂

theorem settled_counters (m : Moment) : m.settled.counters = m.heap.counters := by
  cases hd : m.dying <;> simp [settled, hd]

end Moment

namespace Session

variable {s t : Session} {c : Command} {cs pre : List Command} {pending : List Handle}

/-! ### Listing the moments -/

/-- The moment between two commands. -/
def moment (s : Session) : Moment := ⟨s.heap, s.handles, none⟩

/-- The moments at which objects report that are dropped when the session releases `pending`. -/
def scenes (s : Session) (pending : List Handle) : List Moment :=
  match s.heap.releaseMute pending with
  | .ok (_, scenes) => scenes.map (.ofScene s.held)
  | .error _ => []

/-- The moments within a command. -/
def within (s : Session) (c : Command) : List Moment :=
  match s.plan c with
  | .ok (t, pending) => t.scenes pending
  | .error _ => []

/-- The moments of a run. -/
def trace (s : Session) : List Command → List Moment
  | [] => [s.moment]
  | c :: cs => s.moment :: (s.within c ++ (s.step c).1.trace cs)

/-- The session when everything that it keeps is about to be released. -/
def emptied (s : Session) : Session := { heap := s.heap }

/-- The moments of a run and of the release of everything that is left after it. -/
def life (cs : List Command) : List Moment :=
  trace {} cs ++ (run {} cs).emptied.scenes (run {} cs).held

theorem moment_mem_trace (hp : pre <+: cs) : (s.run pre).moment ∈ s.trace cs := by
  induction cs generalizing s pre with
  | nil =>
    obtain rfl := List.prefix_nil.1 hp
    exact List.mem_cons_self
  | cons c cs ih =>
    cases pre with
    | nil => exact List.mem_cons_self
    | cons d pre =>
      obtain ⟨rfl, hp'⟩ := List.cons_prefix_cons.1 hp
      exact List.mem_cons_of_mem _ (List.mem_append_right _ (ih hp'))

theorem trace_subset (s : Session) (pre post : List Command) :
    (s.run pre).trace post ⊆ s.trace (pre ++ post) := by
  induction pre generalizing s with
  | nil => exact fun _ hm => hm
  | cons c pre ih =>
    exact fun m hm => List.mem_cons_of_mem _ (List.mem_append_right _ (ih _ hm))

/-- The moments of a release list the handles that are not released and those stored inside
objects. -/
theorem subset_of_mem_scenes {m : Moment} (hm : m ∈ s.scenes pending) :
    s.held ++ m.heap.stored ⊆ m.handles := by
  rw [scenes] at hm
  split at hm
  · obtain ⟨d, -, rfl⟩ := List.mem_map.1 hm
    rw [Moment.ofScene, List.append_assoc]
    exact List.subset_append_right _ _
  · cases hm

theorem stored_subset_of_mem_trace {m : Moment} (hm : m ∈ s.trace cs) :
    m.heap.stored ⊆ m.handles := by
  have here : ∀ s : Session, s.moment.heap.stored ⊆ s.moment.handles := fun s =>
    List.subset_append_right _ _
  induction cs generalizing s with
  | nil =>
    obtain rfl := List.mem_singleton.1 hm
    exact here s
  | cons c cs ih =>
    rcases List.mem_cons.1 hm with rfl | hm
    · exact here s
    rcases List.mem_append.1 hm with hm | hm
    · rw [within] at hm
      split at hm
      · exact fun _ ht => subset_of_mem_scenes hm (List.mem_append_right _ ht)
      · cases hm
    · exact ih hm

theorem stored_subset_of_mem_life {m : Moment} (hm : m ∈ life cs) : m.heap.stored ⊆ m.handles :=
  (List.mem_append.1 hm).elim stored_subset_of_mem_trace fun hm _ ht =>
    subset_of_mem_scenes hm (List.mem_append_right _ ht)

/-! ### Moments of one release -/

/-- The moments of a release: the books are right, the heap passes from one to the next, and the
objects that report are those that are dropped. -/
theorem scenes_spec (hs : t.heap.Sound (pending ++ t.held)) :
    ∃ h log, t.heap.release pending = .ok (h, log) ∧ h.Sound t.held ∧ t.heap.PassesTo h ∧
      (∀ m ∈ t.scenes pending, m.Sound ∧ t.heap.PassesTo m.settled ∧ m.settled.PassesTo h) ∧
      (t.scenes pending).Pairwise Moment.Before ∧
      (t.scenes pending).filterMap Moment.dying = dropped log := by
  obtain ⟨h, log, e, hs', ds, e', hrep, hds, hpw, hend⟩ := hs.scenes
  have hsc : t.scenes pending = ds.map (.ofScene t.held) := by simp only [scenes, e']
  refine ⟨h, log, e, hs', hend, ?_, ?_, ?_⟩
  · rw [hsc]
    intro m hm
    obtain ⟨d, hd, rfl⟩ := List.mem_map.1 hm
    exact hds d hd
  · rw [hsc]
    refine List.pairwise_map.2 (hpw.imp fun ⟨gone, hl⟩ => ⟨gone, hl.toLeads⟩)
  · rw [hsc, Heap.dropped_of_reports hrep, List.filterMap_map, ← List.filterMap_eq_map]
    rfl

/-! ### Moments of a run -/

/-- The moments within a command: a counter that is allocated at one of them was so before the
command or is so after it. -/
theorem within_spec (hs : s.Sound) (hc : c.lawful = true) :
    (∀ m ∈ s.within c, m.Between s.moment (s.step c).1.moment ∧
      ∀ {d k}, m.heap.counters.get? d = some k → (∃ k, s.heap.counters.get? d = some k) ∨
        ∃ k, (s.step c).1.heap.counters.get? d = some k) ∧
    (s.within c).Pairwise Moment.Before ∧
    ((s.within c).filterMap Moment.dying).Perm (dropped (s.step c).2.drops) := by
  rcases exec_follows hs hc with ⟨t, pending, ep, hr, hend⟩ | ⟨ep, er, -⟩
  · obtain ⟨h, log, e, hs', ⟨gone'', hpass⟩, hm, hpw, hd⟩ := scenes_spec hr.sound
    obtain ⟨out, er, hlog⟩ := hend h log e hs'
    have hw : s.within c = t.scenes pending := by rw [within, ep]
    have hst : s.step c = (t.withHeap h, out) := by rw [step, er]
    rw [hw, hst]
    refine ⟨fun m hmem => ?_, hpw, hd ▸ hlog.map _⟩
    obtain ⟨hsound, ⟨gone, hto⟩, gone', hfrom⟩ := hm m hmem
    refine ⟨⟨hsound, ⟨gone, hr.leads.trans hto.toLeads⟩, ⟨gone', hfrom.toLeads⟩⟩,
      fun {d k} hk => ?_⟩
    rw [← m.settled_counters] at hk
    obtain ⟨k₁, hk₁, -⟩ := hto.counter (hto.steady ▸ Slab.lt_next_of_get? hk) hk
    rcases Nat.lt_or_ge d s.heap.counters.next with hlt | hge
    · obtain ⟨k₀, hk₀, -⟩ := hr.leads.counter hlt hk₁
      exact .inl ⟨k₀, hk₀⟩
    · -- the counter is new, so the session keeps a handle on its object, which outlives the release
      obtain ⟨o, hl, ho⟩ := hr.made hge hk₁
      obtain ⟨x, hx, hc⟩ := Heap.Balanced.slot_of_living hr.sound hk₁ hl
      obtain ⟨y, hy⟩ := Heap.Balanced.named hs' (List.mem_append_left _ ho)
      exact .inr ⟨_, (Heap.Balanced.attached hs' hy ((hpass.slot hx hy).trans hc)).2⟩
  · have hw : s.within c = [] := by rw [within, ep]
    rw [hw, step, er]
    exact ⟨by simp, .nil, .refl _⟩

/-- The moments of a run: a counter that is allocated at one of them is so between two commands. -/
theorem trace_spec (hs : s.Sound) (hcs : ∀ c ∈ cs, c.lawful = true) :
    (∀ m ∈ s.trace cs, m.Between s.moment (s.run cs).moment ∧
      ∀ {d k}, m.heap.counters.get? d = some k →
        ∃ pre, pre <+: cs ∧ ∃ k, (s.run pre).heap.counters.get? d = some k) ∧
    (s.trace cs).Pairwise Moment.Before ∧
    ((s.trace cs).filterMap Moment.dying).Perm (dropped (s.drops cs)) := by
  induction cs generalizing s with
  | nil =>
    refine ⟨fun m hm => ?_, List.pairwise_singleton _ _, .refl _⟩
    obtain rfl := List.mem_singleton.1 hm
    exact ⟨⟨hs, .refl _, .refl _⟩, fun hk => ⟨[], List.prefix_refl _, _, hk⟩⟩
  | cons c cs ih =>
    obtain ⟨hw, hwp, hwd⟩ := within_spec hs (hcs c List.mem_cons_self)
    obtain ⟨hs', hl, -⟩ := step_leads hs (hcs c List.mem_cons_self)
    obtain ⟨ht, htp, htd⟩ := ih hs' fun d hd => hcs d (List.mem_cons_of_mem _ hd)
    have hstep : s.moment.Before (s.step c).1.moment := ⟨_, hl⟩
    have hrun : (s.step c).1.moment.Before (s.run (c :: cs)).moment :=
      (ht _ (moment_mem_trace List.nil_prefix)).1.earlier
    have here : s.moment.Between s.moment (s.run (c :: cs)).moment :=
      ⟨hs, .refl _, hstep.trans hrun⟩
    have inside : ∀ m ∈ s.within c, m.Between s.moment (s.run (c :: cs)).moment := fun m hm =>
      ⟨(hw m hm).1.sound, (hw m hm).1.later, (hw m hm).1.earlier.trans hrun⟩
    have next : ∀ m ∈ (s.step c).1.trace cs, m.Between s.moment (s.run (c :: cs)).moment :=
      fun m hm => ⟨(ht m hm).1.sound, hstep.trans (ht m hm).1.later, (ht m hm).1.earlier⟩
    refine ⟨fun m hm => ?_, ?_, ?_⟩
    · rcases List.mem_cons.1 hm with rfl | hm
      · exact ⟨here, fun hk => ⟨[], List.nil_prefix, _, hk⟩⟩
      rcases List.mem_append.1 hm with hm | hm
      · refine ⟨inside m hm, fun hk => ?_⟩
        rcases (hw m hm).2 hk with hk | hk
        · exact ⟨[], List.nil_prefix, hk⟩
        · exact ⟨[c], List.cons_prefix_cons.2 ⟨rfl, List.nil_prefix⟩, hk⟩
      · refine ⟨next m hm, fun hk => ?_⟩
        obtain ⟨pre, hp, hk⟩ := (ht m hm).2 hk
        exact ⟨c :: pre, List.cons_prefix_cons.2 ⟨rfl, hp⟩, hk⟩
    · refine List.pairwise_cons.2 ⟨fun m hm => ?_, List.pairwise_append.2 ⟨hwp, htp, ?_⟩⟩
      · exact (List.mem_append.1 hm).elim (fun hm => (inside m hm).later)
          fun hm => (next m hm).later
      · exact fun m hm m' hm' => (hw m hm).1.earlier.trans (ht m' hm').1.later
    · rw [trace, List.filterMap_cons_none rfl, List.filterMap_append, drops, Heap.dropped_append]
      exact hwd.append htd

/-! ### The end of a session -/

/-- Releasing weak handles drops nothing. -/
theorem dropped_weak {h h' : Heap Label} {rest : List Handle} {log : DropLog}
    (hs : h.Sound (pending ++ rest)) (hw : ∀ t ∈ pending, ∃ w, t = .weak w)
    (e : h.release pending = .ok (h', log)) : log = [] := by
  have hnone : ∀ p, ¬ h.Doomed pending rest p := by
    intro p hp
    induction hp with
    | @intro p x there can_go not_kept _ ih =>
      have not_pending : ∀ t, (∀ w, t ≠ .weak w) → t ∉ pending := fun t ht hm =>
        (hw t hm).elim fun w e => ht w e
      rcases can_go with hc | hm
      · obtain ⟨c, hc⟩ := Option.ne_none_iff_exists'.1 hc
        -- something holds the object; it is neither pending nor kept, so a doomed object stores it
        have hm := (Heap.Balanced.attached hs there hc).1
        simp only [List.mem_append, not_kept, not_pending (.holding p) (fun _ => by simp),
          false_or] at hm
        obtain ⟨q, y, hy, hk⟩ := Heap.mem_stored.1 hm
        exact ih hy (by simpa [Object.handles] using hk)
      · exact not_pending (.owner p) (fun _ => by simp) hm
  obtain ⟨h₁, log₁, e₁, -, -, hd⟩ := hs.release
  cases e.symm.trans e₁
  exact List.map_eq_nil_iff.1 (List.eq_nil_iff_forall_not_mem.2 fun p hp => hnone p ((hd p).1 hp))

/-- Closing a session is one release of everything that it keeps. -/
theorem close_spec (hs : s.Sound) : ∃ h log r, s.heap.release s.held = .ok (h, log) ∧
    s.close = .ok r ∧ r.live = h.live ∧ log.Perm (r.strong ++ r.shared ++ r.owned) := by
  obtain ⟨h₁, h₂, h₃, h₄, l₁, l₂, l₃, l₄, e₁, hs₁, e₂, e₃, -, e₄, e⟩ := close_stages hs
  obtain rfl : l₂ = [] := dropped_weak hs₁ (fun t ht => by
    obtain ⟨w, -, hw⟩ := List.mem_flatMap.1 ht
    exact ⟨w, List.mem_singleton.1 hw⟩) e₂
  refine ⟨h₄, l₁ ++ ([] ++ (l₃ ++ l₄)), _, ?_, e, rfl, ?_⟩
  · exact Heap.release_append e₁ (Heap.release_append e₂ (Heap.release_append e₃ e₄))
  · rw [List.nil_append, List.append_assoc]
    exact (((List.mergeSort_perm l₃ _).symm).append (List.mergeSort_perm l₄ _).symm).append_left l₁

/-! ### Moments of a whole life -/

variable {m m' : Moment} {o p : ObjectId} {d : CounterId} {k : Counter} {x : Object Label}

/-- The books are right at every moment, the heap of each moment leads to those of the later ones,
and every counter that is allocated at one of them has managed an object. -/
theorem life_spec (hcs : ∀ c ∈ cs, c.lawful = true) :
    (∀ m ∈ life cs, m.Sound ∧
      ∀ {d k}, m.heap.counters.get? d = some k → ∃ o, EverManaged cs o d) ∧
    (life cs).Pairwise Moment.Before ∧
    ∃ r, (run {} cs).close = .ok r ∧ ((life cs).filterMap Moment.dying).Perm
      (dropped (drops {} cs ++ (r.strong ++ r.shared ++ r.owned))) := by
  have hs := (run_leads sound_empty hcs).1
  obtain ⟨ht, htp, htd⟩ := trace_spec sound_empty hcs
  have hs' : (run {} cs).emptied.heap.Sound ((run {} cs).held ++ (run {} cs).emptied.held) := by
    have : (run {} cs).emptied.held = [] := rfl
    rw [this, List.append_nil]
    exact hs
  obtain ⟨h, log, e, -, -, hm, hpw, hd⟩ := scenes_spec hs'
  obtain ⟨h', log', r, e', er, -, hlog⟩ := close_spec hs
  cases e.symm.trans e'
  refine ⟨fun m hmem => ?_, ?_, r, er, ?_⟩
  · rcases List.mem_append.1 hmem with hmem | hmem
    · refine ⟨(ht m hmem).1.sound, fun hk => ?_⟩
      obtain ⟨pre, hp, k, hk⟩ := (ht m hmem).2 hk
      obtain ⟨o, ho⟩ := exists_everManaged (fun c hc => hcs c (hp.subset hc)) hk
      exact ⟨o, ho.of_prefix hp⟩
    · obtain ⟨hsound, ⟨gone, hto⟩, -⟩ := hm m hmem
      refine ⟨hsound, fun {d k} hk => ?_⟩
      rw [← m.settled_counters] at hk
      obtain ⟨k, hk, -⟩ := hto.counter (hto.steady ▸ Slab.lt_next_of_get? hk) hk
      exact exists_everManaged hcs hk
  · refine List.pairwise_append.2 ⟨htp, hpw, fun m hmem m' hmem' => ?_⟩
    obtain ⟨-, ⟨gone, hto⟩, -⟩ := hm m' hmem'
    exact (ht m hmem).1.earlier.trans ⟨gone, hto.toLeads⟩
  · rw [life, List.filterMap_append, Heap.dropped_append, hd]
    exact htd.append (hlog.map _)

theorem life_comparable (hcs : ∀ c ∈ cs, c.lawful = true) (hm : m ∈ life cs) (hm' : m' ∈ life cs) :
    m.Before m' ∨ m'.Before m := by
  have : Std.Symm fun m m' : Moment => m.Before m' ∨ m'.Before m := ⟨fun _ _ => Or.symm⟩
  have hpw : (life cs).Pairwise fun m m' => m.Before m' ∨ m'.Before m :=
    (life_spec hcs).2.1.imp .inl
  exact hpw.forall_of_forall (fun m _ => .inl (.refl m)) hm hm'

/-- A counter names at no moment another object than the one that it manages. -/
theorem EverManaged.eq_of_living_at (hm : EverManaged cs o d) (hcs : ∀ c ∈ cs, c.lawful = true)
    (hmem : m ∈ life cs) (hk : m.heap.counters.get? d = some k) (hl : k.living = some p) :
    p = o := by
  obtain ⟨pre, x, hp, hx, hd⟩ := hm
  have hs := (run_leads sound_empty fun c hc => hcs c (hp.subset hc)).1
  obtain ⟨k₀, hk₀, hl₀⟩ := Heap.Balanced.living_of_slot hs hx hd
  rw [← m.settled_counters] at hk
  rcases life_comparable hcs (List.mem_append_left _ (moment_mem_trace hp)) hmem with
    ⟨gone, hlead⟩ | ⟨gone, hlead⟩
  · obtain ⟨k₁, hk₁, hliv⟩ := hlead.counter (Slab.lt_next_of_get? hk₀) hk
    obtain rfl := Option.some.inj (hk₀.symm.trans hk₁)
    exact Option.some.inj ((hliv p hl).symm.trans hl₀)
  · obtain ⟨k₁, hk₁, hliv⟩ := hlead.counter (Slab.lt_next_of_get? hk) hk₀
    obtain rfl := Option.some.inj (hk.symm.trans hk₁)
    exact Option.some.inj (hl.symm.trans (hliv o hl₀))

/-- An object that is held is at no moment without the counter that manages it. -/
theorem EverManaged.slot_at (hm : EverManaged cs o d) (hcs : ∀ c ∈ cs, c.lawful = true)
    (hmem : m ∈ life cs) (ho : .holding o ∈ m.handles) :
    ∃ x, m.heap.objects.get? o = some x ∧ x.slot = some d := by
  have hb := ((life_spec hcs).1 m hmem).1
  obtain ⟨x, hx⟩ := Heap.Balanced.named hb (List.mem_append_right _ ho)
  refine ⟨x, hx, ?_⟩
  have hset : m.settled.objects.get? o = some x := by
    cases hd : m.dying with
    | none => rw [Moment.settled, hd]; exact hx
    | some q =>
      have hq : .owner q ∈ m.dying.toList.map .owner ++ m.handles := by simp [hd]
      have hne : q ≠ o := by
        rintro rfl
        exact (Heap.Balanced.owned hb hq).2.1 (List.mem_append_right _ ho)
      rw [Moment.settled, hd, Option.elim_some, Slab.get?_erase, if_neg hne, hx]
  obtain ⟨pre, y, hp, hy, hd⟩ := hm
  rcases life_comparable hcs (List.mem_append_left _ (moment_mem_trace hp)) hmem with
    ⟨gone, hlead⟩ | ⟨gone, hlead⟩
  · exact (hlead.slot hy hset).trans hd
  · exact (hlead.slot hset hy).symm.trans hd

end Session

end Custody
