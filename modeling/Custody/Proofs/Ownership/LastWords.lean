import Custody.Proofs.Ownership.Visibility

/-!
# Dropped objects disturb nothing

An object that reports while it is dropped can take no handle on itself, and it can hold what it
watches for a moment if and only if something else holds it (`Moment.Tries`).  The handles that it
takes are given back without a trace, so the report leaves the heap as it was, and a release comes
to the same heap as one in which nothing is reported (`last_words`).
-/

namespace Custody

open Heap (dropped)

namespace Heap.Balanced

variable {α : Type} {h : Heap α} {hs : List Handle} {o : ObjectId} {c : CounterId} {x : Object α}

/-- A strong handle taken on an object that others hold is released without a trace. -/
theorem release_countStrong (hb : h.Balanced hs) (hx : h.objects.get? o = some x)
    (hc : x.slot = some c) : (h.countStrong c).release [.holding o] = .ok (h, []) := by
  have hb' := hb.countStrong hx hc
  have hx' : (h.countStrong c).objects.get? o = some x := hx
  have hpos : 0 < hs.count (.holding o) := List.count_pos_iff.2 (hb.attached hx hc).1
  have e : (h.countStrong c).releaseOne (.holding o) = .ok ⟨h, [], none⟩ := by
    simp only [Heap.releaseOne, hb'.attached_eq hx', hc, hb'.discountStrong_eq hx' hc, bind,
      Except.bind, if_pos hpos, hb.setCounter_countStrong hx hc]
  exact release_cons e (release_nil h)

end Heap.Balanced

/-- What comes of an attempt, at a moment of the run `cs`, to hold the object behind `w` for a
moment: it succeeds if and only if something holds the object, and the handle is then released
without a trace; else the object does not exist any more. -/
def Moment.Tries (cs : List Command) (m : Moment) (w : Weak) (s : Sighting Label) : Prop :=
  match w.counter with
  | none => m.heap.upgrade w = .ok (m.heap, ⟨none⟩) ∧ s = .missed false
  | some c => ∃ o, (∀ p, Session.EverManaged cs p c ↔ p = o) ∧
    (.holding o ∈ m.handles → ∃ x h, m.heap.objects.get? o = some x ∧
      m.heap.upgrade w = .ok (h, ⟨some o⟩) ∧ h.release [.holding o] = .ok (m.heap, []) ∧
      s = .held x.value) ∧
    (.holding o ∉ m.handles → m.heap.upgrade w = .ok (m.heap, ⟨none⟩) ∧
      m.heap.objectExists w = .ok false ∧ s = .missed false)

namespace Session

variable {cs : List Command} {m : Moment} {o : ObjectId} {w : Weak} {s : Sighting Label}

theorem tries_of_look (hcs : ∀ c ∈ cs, c.lawful = true) (hmem : m ∈ life cs)
    (hw : .weak w ∈ m.handles) (hl : m.heap.look w = .ok (m.heap, s)) : m.Tries cs w s := by
  obtain ⟨hb, hman⟩ := (life_spec hcs).1 m hmem
  obtain ⟨_ | c⟩ := w
  · exact ⟨rfl, by cases hl; rfl⟩
  · obtain ⟨k, hk⟩ := Heap.Balanced.bound hb (List.mem_append_right _ hw)
    obtain ⟨o, ho⟩ := hman hk
    refine ⟨o, fun p => ⟨fun hp => ho.unique hp hcs, fun e => e ▸ ho⟩, fun hheld => ?_,
      fun hgone => ?_⟩
    · obtain ⟨x, hx, hc⟩ := ho.slot_at hcs hmem hheld
      have hsh := Heap.Balanced.showsLiving hb hx hc
      have hx' : (m.heap.countStrong c).objects.get? o = some x := hx
      refine ⟨x, _, hx, hsh.upgrade, Heap.Balanced.release_countStrong hb hx hc, ?_⟩
      simp only [Heap.look, hsh.upgrade, Heap.object_eq_ok_iff.2 hx',
        Heap.Balanced.giveBack_countStrong hb hx hc, bind, Except.bind] at hl
      cases hl
      rfl
    · have hsh := Heap.Balanced.showsGone hb hk (ho.not_living hcs hmem hk hgone)
      refine ⟨hsh.upgrade, hsh.existing, ?_⟩
      simp only [Heap.look, hsh.upgrade, hsh.existing, bind, Except.bind] at hl
      cases hl
      rfl

/-- What a dropped object finds out at its moment. -/
theorem dying_reports (hcs : ∀ c ∈ cs, c.lawful = true) (hmem : m ∈ life cs) (ho : o ∈ m.dying) :
    ∃ x seen, m.heap.objects.get? o = some x ∧ m.heap.share o = .ok (m.heap, ⟨none⟩) ∧
      m.heap.observe o = .ok (m.heap, ⟨none⟩) ∧
      m.heap.lastWords o x = .ok (m.heap, ⟨o, x.value, false, false, seen⟩) ∧
      List.Forall₂ (m.Tries cs) x.watch seen := by
  have hb := ((life_spec hcs).1 m hmem).1
  have hown : .owner o ∈ m.dying.toList.map .owner ++ m.handles := by
    rw [Option.mem_def.1 ho]
    exact List.mem_cons_self
  obtain ⟨-, -, x, hx, hc⟩ := Heap.Balanced.owned hb hown
  have hw : ∀ w ∈ x.watch, .weak w ∈ m.handles := fun w hw =>
    stored_subset_of_mem_life hmem
      (Heap.mem_stored.2 ⟨o, x, hx, by simpa [Object.handles] using hw⟩)
  obtain ⟨seen, e, hf⟩ := Heap.Balanced.lastWords hb hx hc fun w hw' =>
    List.mem_append_right _ (hw w hw')
  refine ⟨x, seen, hx, Heap.Balanced.share_of_unmanaged hb hx hc,
    Heap.Balanced.observe_of_unmanaged hb hx hc, e, ?_⟩
  exact ((List.forall₂_and_left _ _).2 ⟨hw, hf⟩).imp fun w s hws =>
    tries_of_look hcs hmem hws.1 hws.2

/-- Every object that is dropped in a run of commands that respect the slots, or at its end, can
take neither a strong nor a weak handle on itself when it reports. It can hold an object that it
watches if and only if something else holds it, and else the object does not exist any more; what it
takes is given back without a trace, so the report leaves the heap as it was. So the releases of a
command, and that of everything that is left after the run, come to the same heap as one in which
nothing is reported, and log what is reported in its scenes. -/
theorem last_words (cs : List Command) (hcs : ∀ c ∈ cs, c.lawful = true) :
    (∀ m ∈ life cs, ∀ o ∈ m.dying, ∃ x seen, m.heap.objects.get? o = some x ∧
      m.heap.share o = .ok (m.heap, ⟨none⟩) ∧ m.heap.observe o = .ok (m.heap, ⟨none⟩) ∧
      m.heap.lastWords o x = .ok (m.heap, ⟨o, x.value, false, false, seen⟩) ∧
      List.Forall₂ (m.Tries cs) x.watch seen) ∧
    (∀ pre c, pre ++ [c] <+: cs →
      (∃ t pending h log scenes, (run {} pre).plan c = .ok (t, pending) ∧
        t.heap.release pending = .ok (h, log) ∧ t.heap.releaseMute pending = .ok (h, scenes) ∧
        List.Forall₂ Heap.Scene.Reports scenes log ∧ run {} (pre ++ [c]) = t.withHeap h ∧
        log.Perm ((run {} pre).step c).2.drops) ∨
      (run {} pre).exec c = .error .notFound) ∧
    ∃ h log scenes r, (run {} cs).heap.release (run {} cs).held = .ok (h, log) ∧
      (run {} cs).heap.releaseMute (run {} cs).held = .ok (h, scenes) ∧
      List.Forall₂ Heap.Scene.Reports scenes log ∧ (run {} cs).close = .ok r ∧ r.live = h.live ∧
      log.Perm (r.strong ++ r.shared ++ r.owned) := by
  refine ⟨fun m hmem o ho => dying_reports hcs hmem ho, fun pre c hp => ?_, ?_⟩
  · have hpre : ∀ d ∈ pre, d.lawful = true := fun d hd =>
      hcs d (hp.subset (List.mem_append_left _ hd))
    have hc := hcs c (hp.subset (List.mem_append_right _ List.mem_cons_self))
    have hrun : run {} (pre ++ [c]) = ((run {} pre).step c).1 := run_append _ _ _
    rcases exec_follows (run_leads sound_empty hpre).1 hc with
      ⟨t, pending, ep, hr, hend⟩ | ⟨-, er, -⟩
    · obtain ⟨h, log, e, hs, scenes, e', hrep, -⟩ := hr.sound.scenes
      obtain ⟨out, er, hlog⟩ := hend h log e hs
      refine .inl ⟨t, pending, h, log, scenes, ep, e, e', hrep, ?_, ?_⟩
      · rw [hrun, step, er]
      · rw [step, er]
        exact hlog
    · exact .inr er
  · have hs := (run_leads sound_empty hcs).1
    obtain ⟨h, log, r, e, er, hlive, hlog⟩ := close_spec hs
    have hs' : (run {} cs).heap.Sound ((run {} cs).held ++ []) := by
      rw [List.append_nil]
      exact hs
    obtain ⟨h', log', e', -, scenes, em, hrep, -⟩ := hs'.scenes
    cases e.symm.trans e'
    exact ⟨h, log, scenes, r, e, em, hrep, er, hlive, hlog⟩

theorem last_words_pair : ∃ m ∈ life (pairRun ++ [.drop "a"]), m.dying = some 1 ∧
    m.heap.share 1 = .ok (m.heap, ⟨none⟩) ∧ m.heap.observe 1 = .ok (m.heap, ⟨none⟩) := by
  obtain ⟨hrep, -⟩ := last_words (pairRun ++ [.drop "a"]) (by decide)
  have hex : ∃ m ∈ life (pairRun ++ [.drop "a"]), m.dying = some 1 := by decide +kernel
  obtain ⟨m, hm, hd⟩ := hex
  obtain ⟨x, seen, -, hshare, hobserve, -⟩ := hrep m hm 1 hd
  exact ⟨m, hm, hd, hshare, hobserve⟩

end Session

end Custody
