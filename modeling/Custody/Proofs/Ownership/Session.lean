import Mathlib.Data.List.Perm.Basic
import Custody.Proofs.Ownership.Plan

/-!
# Sessions keep the books

`Session.held` are the handles that a session keeps outside its heap, and `Session.Sound` says that
the counters of the heap are right for them.  The work that a command does once everything it names
was found goes by its plan (`Session.Performs`), and so it comes to its end and leaves a sound
session (`Session.Proceeds`); a lemma for each kind of work says so.
-/

namespace Custody

open Heap (dropped)

namespace Session

variable {s : Session} {h : Heap Label} {x : Strong} {w : Weak} {name : String} {o : ObjectId}

/-- The handles that are kept outside the heap. -/
def held (s : Session) : List Handle :=
  s.strong.handles ++ (s.weak.handles ++ (s.shared.handles ++ s.owned.handles))

/-- All handles there are: those the session keeps and those stored inside objects. -/
def handles (s : Session) : List Handle := s.held ++ s.heap.stored

/-- The counters of the session's heap are right for its handles. -/
def Sound (s : Session) : Prop := s.heap.Sound s.held

/-! ### What is held -/

theorem perm_held_weak (s : Session) :
    s.held.Perm (s.weak.handles ++ (s.strong.handles ++ (s.shared.handles ++ s.owned.handles))) :=
  List.perm_append_comm_assoc _ _ _

theorem perm_held_shared (s : Session) :
    s.held.Perm (s.shared.handles ++ (s.strong.handles ++ (s.weak.handles ++ s.owned.handles))) :=
  (List.Perm.append_left _ (List.perm_append_comm_assoc _ _ _)).trans
    (List.perm_append_comm_assoc _ _ _)

theorem perm_held_owned (s : Session) :
    s.held.Perm
      (s.owned.handles ++ (s.strong.handles ++ (s.weak.handles ++ s.shared.handles))) := by
  have h₁ : s.held =
      (s.strong.handles ++ (s.weak.handles ++ s.shared.handles)) ++ s.owned.handles := by
    simp [held]
  rw [h₁]
  exact List.perm_append_comm

/-- A handle that is put under a name takes the place of those that were there, in whichever roster
of the session. -/
theorem perm_held_insert {β : Type} [Holder β] {r : Roster β} {name : String} {b : β}
    {s s' : Session} {rest : List Handle} (hs : s.held.Perm (r.handles ++ rest))
    (hs' : s'.held.Perm ((r.insert name b).handles ++ rest)) :
    (r.handlesAt name ++ s'.held).Perm (Holder.handles b ++ s.held) := by
  have hp := (r.perm_handles_insert name b).append_right rest
  rw [List.append_assoc, List.append_assoc] at hp
  exact (hs'.append_left _).trans (hp.trans (hs.symm.append_left _))

theorem perm_held_insert_strong (s : Session) (name : String) (y : Strong) :
    (s.strong.handlesAt name ++ { s with strong := s.strong.insert name y }.held).Perm
      (.strong y :: s.held) :=
  perm_held_insert (.refl _) (.refl _)

theorem perm_held_insert_weak (s : Session) (name : String) (v : Weak) :
    (s.weak.handlesAt name ++ { s with weak := s.weak.insert name v }.held).Perm
      (.weak v :: s.held) :=
  perm_held_insert s.perm_held_weak (perm_held_weak _)

theorem perm_held_insert_shared (s : Session) (key : String) (y : Strong) :
    (s.shared.handlesAt key ++ { s with shared := s.shared.insert key y }.held).Perm
      (.strong y :: s.held) :=
  perm_held_insert s.perm_held_shared (perm_held_shared _)

theorem perm_held_insert_owned (s : Session) (key : String) (b : Owned) :
    (s.owned.handlesAt key ++ { s with owned := s.owned.insert key b }.held).Perm
      (.owner b.object :: s.held) :=
  perm_held_insert s.perm_held_owned (perm_held_owned _)

/-- Work on what is kept under a name begins with it, or stops because nothing is there. -/
theorem lookup_cases {β γ : Type} (r : Roster β) (name : String) (act : β → Except Fault γ) :
    (∃ b, (r.get? name).elim (.error .notFound) act = act b ∧ r.get? name = some b) ∨
      (r.get? name).elim (.error .notFound) act = .error .notFound := by
  cases r.get? name with
  | none => exact .inr rfl
  | some b => exact .inl ⟨b, rfl, rfl⟩

theorem strongAt_cases (s : Session) (name : String) :
    (∃ x, s.strongAt name = .ok x ∧ s.strong.get? name = some x) ∨
      s.strongAt name = .error .notFound :=
  lookup_cases s.strong name .ok

theorem weakAt_cases (s : Session) (name : String) :
    (∃ w, s.weakAt name = .ok w ∧ s.weak.get? name = some w) ∨
      s.weakAt name = .error .notFound :=
  lookup_cases s.weak name .ok

theorem objectAt_cases (s : Session) (name : String) :
    (∃ o, s.objectAt name = .ok o ∧ s.strong.get? name = some ⟨some o⟩) ∨
      s.objectAt name = .error .notFound := by
  rcases s.strongAt_cases name with ⟨⟨_ | o⟩, e, hk⟩ | e
  · exact .inr (by simp [objectAt, e, bind, Except.bind])
  · exact .inl ⟨o, by simp [objectAt, e, bind, Except.bind], hk⟩
  · exact .inr (by simp [objectAt, e, bind, Except.bind])

theorem ownedAt_cases (s : Session) (key : String) :
    (∃ o, s.ownedAt key = .ok o ∧ s.owned.get? key = some ⟨o⟩) ∨
      s.ownedAt key = .error .notFound :=
  (lookup_cases s.owned key fun b => .ok b.object).imp_left fun ⟨b, e, hk⟩ => ⟨b.object, e, hk⟩

theorem strong_mem_held (hk : s.strong.get? name = some x) : .strong x ∈ s.held :=
  List.mem_append_left _ (Roster.mem_handles hk List.mem_cons_self)

theorem weak_mem_held (hk : s.weak.get? name = some w) : .weak w ∈ s.held :=
  s.perm_held_weak.mem_iff.2 (List.mem_append_left _ (Roster.mem_handles hk List.mem_cons_self))

theorem owner_mem_held {key : String} (hk : s.owned.get? key = some ⟨o⟩) : .owner o ∈ s.held :=
  s.perm_held_owned.mem_iff.2 (List.mem_append_left _ (Roster.mem_handles hk List.mem_cons_self))

/-- An object that is kept under a name is there. -/
theorem there_of_strong (hs : s.Sound) (hk : s.strong.get? name = some ⟨some o⟩) :
    ∃ y, s.heap.objects.get? o = some y :=
  Heap.Balanced.named hs (List.mem_append_left _ (strong_mem_held hk))

theorem there_of_owned {key : String} (hs : s.Sound) (hk : s.owned.get? key = some ⟨o⟩) :
    ∃ y, s.heap.objects.get? o = some y := by
  obtain ⟨-, -, y, hy, -⟩ := Heap.Balanced.owned hs (List.mem_append_left _ (owner_mem_held hk))
  exact ⟨y, hy⟩

/-! ### What a command leaves -/

/-- A command whose work started with the heap `h` comes to its end and leaves a sound session, in
which every new counter is in a slot. -/
def Proceeds (h : Heap Label) (r : Except Fault (Session × Outcome)) : Prop :=
  ∃ s' out, r = .ok (s', out) ∧ s'.Sound ∧ h.Leads (dropped out.drops) s'.heap ∧ h.Seats s'.heap

/-- What a command has come to, from the heap `h`, before it releases the handles `pending`: the
session `t` is right for its handles besides these, nothing was dropped, and something in the
session holds the object of every new counter. -/
structure Ready (h : Heap Label) (t : Session) (pending : List Handle) : Prop where
  sound : t.heap.Sound (pending ++ t.held)
  leads : h.Leads [] t.heap
  made : ∀ {d k}, h.counters.next ≤ d → t.heap.counters.get? d = some k →
    ∃ o, k.living = some o ∧ .holding o ∈ t.held

/-- The work `r` of a command, from the heap `h`, is to release what its plan `p` leaves to be
released. -/
def Performs (h : Heap Label) (p : Except Fault (Session × List Handle))
    (r : Except Fault (Session × Outcome)) : Prop :=
  ∃ t pending, p = .ok (t, pending) ∧ Ready h t pending ∧
    ∀ h' log, t.heap.release pending = .ok (h', log) → h'.Sound t.held →
      ∃ out, r = .ok (t.withHeap h', out) ∧ log.Perm out.drops

namespace Ready

variable {h₀ : Heap Label} {t : Session} {pending : List Handle}

theorem of_passes (hs : t.heap.Sound (pending ++ t.held)) (hl : h.Passes [] t.heap) :
    Ready h t pending where
  sound := hs
  leads := hl.toLeads
  made hd hk := by
    have hlt := Slab.lt_next_of_get? hk
    rw [hl.steady] at hlt
    omega

theorem after (hl : h₀.Passes [] h) (hr : Ready h t pending) : Ready h₀ t pending where
  sound := hr.sound
  leads := hl.toLeads.trans hr.leads
  made hd hk := hr.made (hl.steady ▸ hd) hk

/-- An object was put under a counter, and the session holds it. -/
theorem of_adopt {y : Object Label} (hs : t.heap.Sound (pending ++ t.held))
    (hl : (h.adopt y).Passes [] t.heap) (kept : .holding h.objects.next ∈ t.held) :
    Ready h t pending where
  sound := hs
  leads := (Heap.Leads.adopt h y).trans hl.toLeads
  made {d k} hd hk := by
    obtain ⟨z, hz⟩ := Heap.Balanced.named hs
      (List.mem_append_left _ (List.mem_append_right _ kept))
    have hy : (h.adopt y).objects.get? h.objects.next =
        some { y with slot := some h.counters.next } := by
      rw [Heap.adopt, Slab.get?_insert, if_pos rfl]
    obtain rfl : d = h.counters.next := by
      have hlt := Slab.lt_next_of_get? hk
      rw [hl.steady, Heap.adopt, Slab.next_insert] at hlt
      omega
    have hk' := (Heap.Balanced.attached hs hz (hl.slot hy hz)).2
    obtain rfl := Option.some.inj (hk.symm.trans hk')
    exact ⟨_, rfl, kept⟩

end Ready

namespace Performs

variable {h₀ : Heap Label} {p : Except Fault (Session × List Handle)}
  {r : Except Fault (Session × Outcome)} {t : Session}

theorem after (hl : h₀.Passes [] h) (hp : Performs h p r) : Performs h₀ p r := by
  obtain ⟨t, pending, e, hr, hend⟩ := hp
  exact ⟨t, pending, e, hr.after hl, hend⟩

theorem of_takes {hs : List Handle} {t : Handle} (ht : h₀.Takes hs t h) (hp : Performs h p r) :
    Performs h₀ p r :=
  hp.after (.of_takes ht)

/-- Work that releases nothing. -/
theorem of_exec {reply : Reply} (e : r = .ok (t, ⟨reply, []⟩)) (hs : t.Sound)
    (hl : h.Passes [] t.heap) : Performs h (r >>= fun x => .ok (x.1, [])) r := by
  refine ⟨t, [], by simp [e, bind, Except.bind], .of_passes hs hl, fun h' log el _ => ?_⟩
  rw [Heap.release_nil] at el
  cases el
  exact ⟨_, e, .refl _⟩

theorem proceeds (hp : Performs h p r) : Proceeds h r := by
  obtain ⟨t, pending, -, hr, hend⟩ := hp
  obtain ⟨h', log, e, hs', hl⟩ := hr.sound.release_passes
  obtain ⟨out, e', hlog⟩ := hend h' log e hs'
  refine ⟨t.withHeap h', out, e', hs', (hr.leads.trans hl.toLeads).perm (hlog.map _), ?_⟩
  intro d k' hd hk'
  obtain ⟨k, hk, -⟩ := hl.counter (hl.steady ▸ Slab.lt_next_of_get? hk') hk'
  obtain ⟨o, hliv, hheld⟩ := hr.made hd hk
  obtain ⟨x, hx, hc⟩ := Heap.Balanced.slot_of_living hr.sound hk hliv
  obtain ⟨z, hz⟩ := Heap.Balanced.named hs' (List.mem_append_left _ hheld)
  exact ⟨o, z, hz, (hl.slot hx hz).trans hc⟩

end Performs

/-- A command that only looks. -/
theorem performs_same (hs : s.Sound) (reply : Reply) :
    Performs s.heap (.ok (s, [])) (.ok (s, ⟨reply, []⟩)) :=
  .of_exec rfl hs (.refl _)

/-! ### Keeping and releasing handles -/

theorem labelOf_ok {hs : List Handle} (hb : h.Balanced hs) (hm : .strong x ∈ hs) :
    ∃ id, labelOf h x = .ok id := by
  obtain ⟨_ | o⟩ := x
  · exact ⟨none, rfl⟩
  · obtain ⟨y, hy⟩ := hb.object_of_holding hm
    exact ⟨some y.value, by simp [labelOf, hy, bind, Except.bind]⟩

theorem keep_eq {h' : Heap Label} {log : DropLog} {id : Option Label} (e₁ : labelOf h x = .ok id)
    (e₂ : h.release (s.strong.handlesAt name) = .ok (h', log)) :
    s.keep name (h, x) = .ok ((s.replace name (h, x)).1.withHeap h', ⟨.label id, log⟩) := by
  simp [keep, e₁, Roster.store_eq e₂, replace, withHeap, bind, Except.bind]

theorem keep_performs (hs : h.Sound (.strong x :: s.held)) (name : String) :
    Performs h (.ok (s.replace name (h, x))) (s.keep name (h, x)) := by
  obtain ⟨id, e⟩ := labelOf_ok hs List.mem_cons_self
  have hs' : h.Sound ((s.replace name (h, x)).2 ++ (s.replace name (h, x)).1.held) :=
    Roster.sound_insert (r := s.strong) name hs
  exact ⟨_, _, rfl, .of_passes hs' (.refl _), fun h' log e' _ => ⟨_, keep_eq e e', .refl _⟩⟩

theorem holding_mem_replace : .strong x ∈ (s.replace name (h, x)).1.held :=
  strong_mem_held ((s.strong.get?_insert name x name).trans (if_pos rfl))

theorem keepWeak_performs (hs : h.Sound (.weak w :: s.held)) (name : String) :
    Performs h (.ok (s.replaceWeak name (h, w))) (s.keepWeak name (h, w)) := by
  have hs₁ := Roster.sound_insert (r := s.weak) name (b := w) (hs.perm (s.perm_held_weak.cons _))
  have hs' : h.Sound ((s.replaceWeak name (h, w)).2 ++ (s.replaceWeak name (h, w)).1.held) :=
    hs₁.perm ((s.replaceWeak name (h, w)).1.perm_held_weak.symm.append_left _)
  refine ⟨_, _, rfl, .of_passes hs' (.refl _), fun h' log e _ => ?_⟩
  refine ⟨⟨.flag w.counter.isSome, log⟩, ?_, .refl _⟩
  simp only [keepWeak, Roster.store_eq e, withHeap, bind, Except.bind]

theorem release_eq {t : Session} {h' : Heap Label} {log : DropLog} {pending : List Handle}
    (e : t.heap.release pending = .ok (h', log)) (reply : Reply) :
    t.release pending reply = .ok (t.withHeap h', ⟨reply, log⟩) := by
  simp [release, e, withHeap, bind, Except.bind]

/-- Releasing handles that the session does not keep. -/
theorem release_performs {t : Session} {pending : List Handle}
    (hs : t.heap.Sound (pending ++ t.held)) (reply : Reply) :
    Performs t.heap (.ok (t, pending)) (t.release pending reply) :=
  ⟨t, pending, rfl, .of_passes hs (.refl _), fun _ _ e _ => ⟨_, release_eq e reply, .refl _⟩⟩

/-! ### Changing what an object stores -/

theorem perm_push_kid (held : List Handle) (y : Object Label) (x : Strong) :
    ((.strong x :: held) ++ y.handles).Perm
      (held ++ Object.handles { y with kids := y.kids ++ [x] }) := by
  rw [List.perm_iff_count]
  intro t
  simp only [Object.handles, List.cons_append, List.map_append, List.map_cons, List.map_nil,
    List.count_append, List.count_cons, List.count_nil]
  omega

theorem perm_push_watch (held : List Handle) (y : Object Label) (w : Weak) :
    ((.weak w :: held) ++ y.handles).Perm
      (held ++ Object.handles { y with watch := y.watch ++ [w] }) := by
  rw [List.perm_iff_count]
  intro t
  simp only [Object.handles, List.cons_append, List.map_append, List.map_cons, List.map_nil,
    List.count_append, List.count_cons, List.count_nil]
  omega

theorem perm_erase_kid (held : List Handle) {y : Object Label} {i : Nat} {x : Strong}
    (hi : y.kids[i]? = some x) :
    (held ++ y.handles).Perm
      ((.strong x :: held) ++ Object.handles { y with kids := y.kids.eraseIdx i }) := by
  obtain ⟨hlt, rfl⟩ := List.getElem?_eq_some_iff.1 hi
  have hp := (List.getElem_cons_eraseIdx_perm hlt).map Handle.strong
  rw [List.perm_iff_count] at hp ⊢
  intro t
  have := hp t
  simp only [Object.handles, List.cons_append, List.map_cons, List.count_append,
    List.count_cons] at this ⊢
  omega

theorem perm_erase_watch (held : List Handle) (y : Object Label) :
    (held ++ y.handles).Perm
      ((y.watch.map .weak ++ held) ++ Object.handles { y with watch := [] }) := by
  rw [List.perm_iff_count]
  intro t
  simp only [Object.handles, List.count_append, List.map_nil, List.count_nil]
  omega

theorem linkTo_ok {y : Object Label} {src : String} (hs : s.Sound)
    (hy : s.heap.objects.get? o = some y) (hk : s.strong.get? src = some x) :
    ∃ t : Session, s.linkTo o src = .ok (t, ⟨.nothing, []⟩) ∧ t.Sound ∧
      s.heap.Passes [] t.heap := by
  obtain ⟨h, e, ht⟩ := Heap.Balanced.clone hs (List.mem_append_left _ (strong_mem_held hk))
  have hy' : h.objects.get? o = some y := by rw [ht.objects, hy]
  have hs' := ht.sound.setObject (f := fun y => { y with kids := y.kids ++ [x] }) hy'
    (fun _ => rfl) (perm_push_kid _ y x)
  refine ⟨s.withHeap (h.setObject o _), ?_, hs', (Heap.Passes.of_takes ht).trans
    (.setObject h o fun _ => rfl)⟩
  simp [linkTo, strongAt, hk, e, Heap.amend, Heap.object_eq_ok_iff.2 hy', withHeap, bind,
    Except.bind]

theorem watchFrom_ok {y : Object Label} {src : String} (hs : s.Sound)
    (hy : s.heap.objects.get? o = some y) (hk : s.strong.get? src = some x) :
    ∃ t : Session, s.watchFrom o src = .ok (t, ⟨.nothing, []⟩) ∧ t.Sound ∧
      s.heap.Passes [] t.heap := by
  obtain ⟨h, w, e, ht⟩ := Heap.Balanced.downgrade hs (List.mem_append_left _ (strong_mem_held hk))
  have hy' : h.objects.get? o = some y := by rw [ht.objects, hy]
  have hs' := ht.sound.setObject (f := fun y => { y with watch := y.watch ++ [w] }) hy'
    (fun _ => rfl) (perm_push_watch _ y w)
  refine ⟨s.withHeap (h.setObject o _), ?_, hs', (Heap.Passes.of_takes ht).trans
    (.setObject h o fun _ => rfl)⟩
  simp [watchFrom, strongAt, hk, e, Heap.amend, Heap.object_eq_ok_iff.2 hy', withHeap, bind,
    Except.bind]

theorem unlinkFrom_performs {y : Object Label} {i : Nat} (hs : s.Sound)
    (hy : s.heap.objects.get? o = some y) (hi : y.kids[i]? = some x) :
    Performs s.heap (.ok (s.withHeap (s.heap.setObject o fun y =>
      { y with kids := y.kids.eraseIdx i }), [.strong x])) (s.unlinkFrom o i) := by
  have hs' := Heap.Sound.setObject (f := fun y => { y with kids := y.kids.eraseIdx i }) hs hy
    (fun _ => rfl) (perm_erase_kid s.held hi)
  simp only [unlinkFrom, Heap.object_eq_ok_iff.2 hy, hi, bind, Except.bind]
  refine .after ?_ (release_performs hs' .nothing)
  exact .setObject s.heap o fun _ => rfl

theorem unwatchFrom_performs {y : Object Label} (hs : s.Sound)
    (hy : s.heap.objects.get? o = some y) :
    Performs s.heap (.ok (s.withHeap (s.heap.setObject o fun y => { y with watch := [] }),
      y.watch.map .weak)) (s.unwatchFrom o) := by
  have hs' := Heap.Sound.setObject (f := fun y => { y with watch := [] }) hs hy
    (fun _ => rfl) (perm_erase_watch s.held y)
  simp only [unwatchFrom, Heap.object_eq_ok_iff.2 hy, bind, Except.bind]
  refine .after ?_ (release_performs hs' (.count y.watch.length))
  exact .setObject s.heap o fun _ => rfl

/-! ### Exchanging what is kept under a name -/

theorem perm_held_exchange (hk : s.strong.get? name = some x) (y : Strong) :
    (.strong x :: { s with strong := s.strong.insert name y }.held).Perm (.strong y :: s.held) := by
  have hp := s.perm_held_insert_strong name y
  rwa [Roster.handlesAt_of_get? hk] at hp

theorem perm_held_exchange_weak (hk : s.weak.get? name = some w) (v : Weak) :
    (.weak w :: { s with weak := s.weak.insert name v }.held).Perm (.weak v :: s.held) := by
  have hp := s.perm_held_insert_weak name v
  rwa [Roster.handlesAt_of_get? hk] at hp

theorem assign_performs {src : Option String} {y : Strong} (hs : s.Sound)
    (hk : s.strong.get? name = some x) (e : src.elim (.ok ⟨none⟩) s.strongAt = .ok y)
    (hm : .strong y ∈ s.held ∨ y = ⟨none⟩) :
    Performs s.heap (s.plan (.assign name src)) (s.exec (.assign name src)) := by
  have hx : s.strongAt name = .ok x := by rw [strongAt, hk]; rfl
  by_cases ht : x.target = y.target
  · obtain ⟨id, el⟩ := labelOf_ok hs (List.mem_append_left _ (strong_mem_held hk))
    have hs' : Sound { s with strong := s.strong.insert name x } :=
      Heap.Sound.perm hs (perm_held_exchange hk x).symm.cons_inv
    have er : s.exec (.assign name src) =
        .ok ({ s with strong := s.strong.insert name x }, ⟨.label id, []⟩) := by
      simp only [exec, hx, e, Heap.assign, ht, el, ↓reduceIte, bind, Except.bind]
    have ep : s.plan (.assign name src) =
        .ok ({ s with strong := s.strong.insert name x }, []) := by
      simp only [plan, hx, e, ht, ↓reduceIte, bind, Except.bind]
    rw [ep, er]
    exact .of_exec rfl hs' (.refl _)
  · obtain ⟨h, ec, ht'⟩ :=
      Heap.Balanced.clone_or_unset hs (hm.imp_left (List.mem_append_left _))
    have hat : s.strong.handlesAt name = [.strong x] := Roster.handlesAt_of_get? hk
    have hs₁ : h.Sound ((s.replace name (h, y)).2 ++ (s.replace name (h, y)).1.held) :=
      Roster.sound_insert (r := s.strong) name ht'.sound
    have hr : Ready s.heap (s.replace name (h, y)).1 (s.replace name (h, y)).2 :=
      .of_passes hs₁ (.of_takes ht')
    refine ⟨_, _, ?_, hr, fun h' log er hs' => ?_⟩
    · simp only [plan, hx, e, ht, ec, ↓reduceIte, Functor.map, Except.map, bind, Except.bind]
    · obtain ⟨id, el⟩ := labelOf_ok hs' (List.mem_append_left _ holding_mem_replace)
      simp only [replace, hat] at er
      refine ⟨⟨.label id, log⟩, ?_, .refl _⟩
      simp only [exec, hx, e, Heap.assign, ht, ec, er, el, replace, withHeap, ↓reduceIte, bind,
        Except.bind]

/-- Two handles change their places. -/
theorem perm_held_swap {a b : String} {y : Strong} (ha : s.strong.get? a = some x)
    (hb : s.strong.get? b = some y) :
    s.held.Perm { s with strong := (s.strong.insert a y).insert b x }.held := by
  have hb' : (s.strong.insert a y).get? b = some y := by
    rw [Roster.get?_insert, hb, ite_self]
  have h₁ := perm_held_exchange ha y
  have h₂ := perm_held_exchange (s := { s with strong := s.strong.insert a y }) hb' x
  exact ((h₂.cons _).trans ((List.Perm.swap _ _ _).trans (h₁.cons _))).cons_inv.cons_inv.symm

/-! ### Single commands -/

theorem lookAtPlain_performs (hs : s.Sound) (label : Label) :
    Performs s.heap (s.plan (.plain label)) (s.lookAtPlain label) := by
  have hs₁ := hs.place_owner (x := { value := label }) rfl rfl
  have hx : (s.heap.place { value := label }).1.objects.get? s.heap.objects.next =
      some { value := label } := by
    rw [Heap.place, Slab.get?_insert, if_pos rfl]
  let t := s.withHeap (s.heap.place { value := label }).1
  have hs₂ : t.heap.Sound ([.strong ⟨none⟩, .weak ⟨none⟩, .owner s.heap.objects.next] ++ t.held) :=
    Heap.Balanced.cons_unset_iff.2 (Heap.Balanced.cons_unbound_iff.2 hs₁)
  have e₁ := Heap.Balanced.share_of_unmanaged hs₁ hx rfl
  have e₂ := Heap.Balanced.observe_of_unmanaged hs₁ hx rfl
  have hp := release_performs hs₂ (.flags [false, false])
  have ep : s.plan (.plain label) =
      .ok (t, [.strong ⟨none⟩, .weak ⟨none⟩, .owner s.heap.objects.next]) := by
    simp only [Heap.place] at e₁ e₂
    simp [plan, Heap.place, e₁, e₂, t, bind, Except.bind]
  have er : s.lookAtPlain label =
      t.release [.strong ⟨none⟩, .weak ⟨none⟩, .owner s.heap.objects.next]
        (.flags [false, false]) := by
    simp only [Heap.place] at e₁ e₂
    simp [lookAtPlain, Heap.place, e₁, e₂, t, withHeap, bind, Except.bind]
  rw [ep, er]
  exact .after (.place _ _) hp

theorem leak_performs (hs : s.Sound) (name : String) (label : Label) :
    Performs s.heap (s.plan (.leak name label)) (s.exec (.leak name label)) := by
  have hs₁ := hs.place_holding (x := { value := label }) rfl rfl
  have hx : (s.heap.place { value := label }).1.objects.get? s.heap.objects.next =
      some { value := label } := by
    rw [Heap.place, Slab.get?_insert, if_pos rfl]
  have e' := Heap.Balanced.attached_eq hs₁ hx
  simp only [Heap.place] at e'
  have er : s.exec (.leak name label) =
      s.keep name ((s.heap.place { value := label }).1, ⟨some s.heap.objects.next⟩) := by
    simp [exec, Heap.pin, Heap.place, e', bind, Except.bind]
  have ep : s.plan (.leak name label) =
      .ok (s.replace name ((s.heap.place { value := label }).1, ⟨some s.heap.objects.next⟩)) := by
    simp [plan, Heap.pin, Heap.place, e', Functor.map, Except.map, bind, Except.bind]
  rw [ep, er]
  exact .after (.place _ _) (keep_performs hs₁ name)

theorem create_performs (hs : s.Sound) (name : String) (label : Label) :
    Performs s.heap (s.plan (.create name label)) (s.exec (.create name label)) := by
  have e := Heap.manage_eq s.heap (x := { value := label }) rfl
  have ep : s.plan (.create name label) =
      .ok (s.replace name (s.heap.adopt { value := label }, ⟨some s.heap.objects.next⟩)) := by
    simp only [plan, e, Functor.map, Except.map]
  have er : s.exec (.create name label) =
      s.keep name (s.heap.adopt { value := label }, ⟨some s.heap.objects.next⟩) := by
    simp only [exec, e, bind, Except.bind]
  obtain ⟨t, pending, et, hr, hend⟩ := keep_performs (hs.adopt (x := { value := label }) rfl) name
  cases et
  rw [ep, er]
  exact ⟨_, _, rfl, .of_adopt hr.sound (.refl _) holding_mem_replace, hend⟩

theorem reset_performs (hs : s.Sound) (hk : s.strong.get? name = some x) :
    Performs s.heap (.ok ({ s with strong := s.strong.insert name ⟨none⟩ }, [.strong x]))
      ({ s with strong := s.strong.insert name ⟨none⟩ }.release [.strong x] (.flag false)) := by
  have hs₁ : s.heap.Sound (.strong ⟨none⟩ :: s.held) := Heap.Balanced.cons_unset_iff.2 hs
  have hs₂ : s.heap.Sound ([.strong x] ++ { s with strong := s.strong.insert name ⟨none⟩ }.held) :=
    hs₁.perm (perm_held_exchange hk ⟨none⟩).symm
  exact release_performs hs₂ _

theorem resetWeak_performs (hs : s.Sound) (hk : s.weak.get? name = some w) :
    Performs s.heap (.ok ({ s with weak := s.weak.insert name ⟨none⟩ }, [.weak w]))
      ({ s with weak := s.weak.insert name ⟨none⟩ }.release [.weak w] (.flag false)) := by
  have hs₁ : s.heap.Sound (.weak ⟨none⟩ :: s.held) := Heap.Balanced.cons_unbound_iff.2 hs
  have hs₂ : s.heap.Sound ([.weak w] ++ { s with weak := s.weak.insert name ⟨none⟩ }.held) :=
    hs₁.perm (perm_held_exchange_weak hk ⟨none⟩).symm
  exact release_performs hs₂ _

theorem drop_performs (hs : s.Sound) (name : String) :
    Performs s.heap (s.plan (.drop name)) (s.exec (.drop name)) := by
  have hs' : s.heap.Sound
      (s.strong.handlesAt name ++ { s with strong := s.strong.erase name }.held) :=
    Roster.sound_erase name hs
  refine ⟨_, _, rfl, .of_passes hs' (.refl _), fun h' log e _ => ?_⟩
  refine ⟨⟨.flag (s.strong.contains name), log⟩, ?_, .refl _⟩
  simp [exec, Roster.discard_eq e, withHeap, bind, Except.bind]

theorem dropWeak_performs (hs : s.Sound) (name : String) :
    Performs s.heap (s.plan (.dropWeak name)) (s.exec (.dropWeak name)) := by
  have hs₁ := Roster.sound_erase name (hs.perm s.perm_held_weak)
  have hs' : s.heap.Sound (s.weak.handlesAt name ++ { s with weak := s.weak.erase name }.held) :=
    hs₁.perm ((perm_held_weak { s with weak := s.weak.erase name }).symm.append_left _)
  refine ⟨_, _, rfl, .of_passes hs' (.refl _), fun h' log e _ => ?_⟩
  refine ⟨⟨.flag (s.weak.contains name), log⟩, ?_, .refl _⟩
  simp [exec, Roster.discard_eq e, withHeap, bind, Except.bind]

theorem sound_replaceOwned (hs : s.Sound) (key : String) (label : Label) :
    (s.replaceOwned key label).1.heap.Sound
      ((s.replaceOwned key label).2 ++ (s.replaceOwned key label).1.held) := by
  have hs₁ := hs.place_owner (x := { value := label }) rfl rfl
  exact hs₁.perm (s.perm_held_insert_owned key ⟨s.heap.objects.next⟩).symm

theorem ownNew_eq {key : String} {label : Label} {h' : Heap Label} {log : DropLog}
    (e : (s.replaceOwned key label).1.heap.release (s.owned.handlesAt key) = .ok (h', log))
    (reply : Reply) : s.ownNew key label reply =
      .ok ((s.replaceOwned key label).1.withHeap h', ⟨reply, log⟩) := by
  have e' : s.owned.store (s.heap.place { value := label }).1 key ⟨s.heap.objects.next⟩ = _ :=
    Roster.store_eq e
  simp only [Heap.place] at e'
  simp [ownNew, replaceOwned, Heap.place, e', withHeap, bind, Except.bind]

theorem ownNew_performs (hs : s.Sound) (key : String) (label : Label) (reply : Reply) :
    Performs s.heap (.ok (s.replaceOwned key label)) (s.ownNew key label reply) :=
  ⟨_, _, rfl, .of_passes (sound_replaceOwned hs key label) (.place _ _),
    fun _ log e _ => ⟨⟨reply, log⟩, ownNew_eq e reply, .refl _⟩⟩

theorem dropped_sortDrops (log : DropLog) : (dropped log).Perm (dropped (sortDrops log)) :=
  (List.mergeSort_perm log _).symm.map _

theorem clearShared_performs (hs : s.Sound) (reply : Reply) :
    Performs s.heap (.ok ({ s with shared := .empty }, s.shared.handles))
      (s.clearShared reply) := by
  refine ⟨_, _, rfl, .of_passes (hs.perm s.perm_held_shared) (.refl _), fun h' log e _ => ?_⟩
  refine ⟨⟨reply, sortDrops log⟩, ?_, (List.mergeSort_perm log _).symm⟩
  simp only [clearShared, Roster.releaseAll, e, withHeap, bind, Except.bind]

theorem perm_held_clearOwned (s : Session) :
    s.held.Perm (s.owned.handles ++ { s with owned := .empty }.held) :=
  s.perm_held_owned.trans ((perm_held_owned { s with owned := .empty }).symm.append_left _)

theorem clearOwned_performs (hs : s.Sound) (reply : Reply) :
    Performs s.heap (.ok ({ s with owned := .empty }, s.owned.handles)) (s.clearOwned reply) := by
  refine ⟨_, _, rfl, .of_passes (hs.perm s.perm_held_clearOwned) (.refl _), fun h' log e _ => ?_⟩
  refine ⟨⟨reply, sortDrops log⟩, ?_, (List.mergeSort_perm log _).symm⟩
  simp only [clearOwned, Roster.releaseAll, e, withHeap, bind, Except.bind]

theorem boundTo_ok {hs : List Handle} (hb : h.Balanced hs) (hm : .weak w ∈ hs) :
    ∃ k, h.boundTo w = .ok k := by
  obtain ⟨_ | c⟩ := w
  · exact ⟨none, rfl⟩
  · obtain ⟨k, hk⟩ := hb.bound hm
    exact ⟨some k, by simp [Heap.boundTo, Heap.counter_eq_ok_iff.2 hk, Functor.map, Except.map]⟩

/-- What can be read off a handle that is kept. -/
theorem strongInfo_ok {hs : List Handle} (hb : h.Balanced hs) (hm : .strong x ∈ hs) :
    ∃ i, strongInfo h x = .ok i := by
  obtain ⟨k, e⟩ := hb.counterOf hm
  obtain ⟨_ | o⟩ := x
  · simp only [strongInfo, e, bind, Except.bind]
    exact ⟨_, rfl⟩
  · obtain ⟨y, hy⟩ := hb.object_of_holding hm
    simp only [strongInfo, e, hy, bind, Except.bind]
    exact ⟨_, rfl⟩

theorem weakInfo_ok {hs : List Handle} (hb : h.Balanced hs) (hm : .weak w ∈ hs) :
    ∃ i, weakInfo h w = .ok i := by
  obtain ⟨k, e⟩ := boundTo_ok hb hm
  simp only [weakInfo, Heap.objectExists, Heap.visible, e, bind, Except.bind]
  exact ⟨_, rfl⟩

/-- A handle that is stored in the registry is cloned twice: one clone is handed over, and the
registry keeps a clone of that. -/
theorem sharedSet_clones {src : String} (hs : s.Sound) (hk : s.strong.get? src = some x)
    (key : String) : ∃ h₁ h₂, s.heap.clone x = .ok (h₁, x) ∧
      s.heap.Takes (s.held ++ s.heap.stored) (.strong x) h₁ ∧ h₁.clone x = .ok (h₂, x) ∧
      h₁.Takes (.strong x :: s.held ++ h₁.stored) (.strong x) h₂ ∧
      s.plan (.sharedSet key src) = .ok ({ s with heap := h₂, shared := s.shared.insert key x },
        s.shared.handlesAt key ++ [.strong x]) := by
  obtain ⟨h₁, e₁, ht₁⟩ := Heap.Balanced.clone hs (List.mem_append_left _ (strong_mem_held hk))
  obtain ⟨h₂, e₂, ht₂⟩ :=
    Heap.Balanced.clone ht₁.sound (List.mem_append_left _ List.mem_cons_self)
  exact ⟨h₁, h₂, e₁, ht₁, e₂, ht₂, by simp [plan, strongAt, hk, e₁, e₂, bind, Except.bind]⟩

theorem sharedSet_performs {src : String} (hs : s.Sound) (hk : s.strong.get? src = some x)
    (key : String) :
    Performs s.heap (s.plan (.sharedSet key src)) (s.exec (.sharedSet key src)) := by
  obtain ⟨h₁, h₂, e₁, ht, e₂, ht₂, ep⟩ := sharedSet_clones hs hk key
  let t : Session := { s with heap := h₂, shared := s.shared.insert key x }
  have hs₂ : h₂.Sound (s.shared.handlesAt key ++ ([.strong x] ++ t.held)) := by
    have hp := (s.perm_held_insert_shared key x).symm.cons (.strong x)
    exact ht₂.sound.perm (hp.trans List.perm_middle.symm)
  have hpass := (Heap.Passes.of_takes ht).trans (.of_takes ht₂)
  have hs₂' : t.heap.Sound (s.shared.handlesAt key ++ [.strong x] ++ t.held) := by
    rw [List.append_assoc]
    exact hs₂
  refine ⟨t, s.shared.handlesAt key ++ [.strong x], ep, .of_passes hs₂' hpass, fun h' log e _ => ?_⟩
  obtain ⟨h₃, log₃, e₃, hs₃, -⟩ := hs₂.release_passes
  obtain ⟨h₄, log₄, e₄, -, -⟩ := hs₃.release_passes
  cases e.symm.trans (Heap.release_append e₃ e₄)
  obtain ⟨id, e₅⟩ := labelOf_ok hs₃ (List.mem_append_left _ List.mem_cons_self)
  obtain ⟨k, e₆⟩ := Heap.Balanced.counterOf hs₃ (List.mem_append_left _ List.mem_cons_self)
  refine ⟨⟨.held id ((k.map Counter.strong).getD 0), log₃ ++ log₄⟩, ?_, .refl _⟩
  simp [exec, strongAt, hk, e₁, Roster.enlist, e₂, Roster.store_eq e₃, e₅, Heap.strongCount, e₆,
    e₄, t, withHeap, bind, Except.bind]

theorem sharedGet_performs (hs : s.Sound) (name key : String) :
    Performs s.heap (s.plan (.sharedGet name key)) (s.exec (.sharedGet name key)) := by
  cases hk : s.shared.get? key with
  | none =>
    simp only [plan, exec, Roster.lend_of_get?_eq_none hk, bind, Except.bind]
    exact performs_same hs _
  | some x =>
    obtain ⟨h, e, ht⟩ := Roster.lend_of_get? hk (hs.perm s.perm_held_shared)
    have hs₁ := ht.sound.perm (s.perm_held_shared.symm.cons _)
    obtain ⟨t, pending, ep, hr, hend⟩ := keep_performs hs₁ name
    refine ⟨t, pending, ?_, hr.after (.of_takes ht), fun h' log el hs' => ?_⟩
    · simpa [plan, e, bind, Except.bind] using ep
    · obtain ⟨out, er, hlog⟩ := hend h' log el hs'
      exact ⟨{ out with reply := .flag true }, by simp [exec, e, er, bind, Except.bind], hlog⟩

theorem sharedMake_performs (hs : s.Sound) (name key : String) (label : Label) :
    Performs s.heap (s.plan (.sharedMake name key label))
      (s.exec (.sharedMake name key label)) := by
  have hs₀ := hs.perm s.perm_held_shared
  cases hk : s.shared.get? key with
  | some x =>
    obtain ⟨h, e, ht⟩ := Roster.lendOrMake_of_get? (x := { value := label }) hk hs₀
    have hs₁ := ht.sound.perm (s.perm_held_shared.symm.cons _)
    obtain ⟨t, pending, ep, hr, hend⟩ := keep_performs hs₁ name
    refine ⟨t, pending, ?_, hr.after (.of_takes ht), fun h' log el hs' => ?_⟩
    · simpa [plan, e, bind, Except.bind] using ep
    · obtain ⟨out, er, hlog⟩ := hend h' log el hs'
      exact ⟨⟨.flag false, out.drops⟩, by simp [exec, e, er, bind, Except.bind], hlog⟩
  | none =>
    obtain ⟨h, e, hs₁, hl, -⟩ :=
      Roster.lendOrMake_of_get?_eq_none (x := { value := label }) hk rfl rfl hs₀
    let t : Session := { s with shared := s.shared.insert key ⟨some s.heap.objects.next⟩ }
    have hs₂ : h.Sound (.strong ⟨some s.heap.objects.next⟩ :: t.held) :=
      hs₁.perm (t.perm_held_shared.symm.cons _)
    obtain ⟨t', pending, ep, hr, hend⟩ := keep_performs hs₂ name
    cases ep
    refine ⟨_, _, ?_, .of_adopt hr.sound hl holding_mem_replace, fun h' log el hs' => ?_⟩
    · simp only [plan, e, bind, Except.bind]
      rfl
    · obtain ⟨out, er, hlog⟩ := hend h' log el hs'
      exact ⟨⟨.flag true, out.drops⟩, by simp [exec, e, er, t, bind, Except.bind], hlog⟩

/-! ### The end of a session -/

/-- Closing a session is four releases, one after the other. -/
theorem close_stages (hs : s.Sound) : ∃ h₁ h₂ h₃ h₄ l₁ l₂ l₃ l₄,
    s.heap.release s.strong.handles = .ok (h₁, l₁) ∧
    h₁.Sound (s.weak.handles ++ (s.shared.handles ++ s.owned.handles)) ∧
    h₁.release s.weak.handles = .ok (h₂, l₂) ∧
    h₂.release s.shared.handles = .ok (h₃, l₃) ∧ h₃.Sound s.owned.handles ∧
    h₃.release s.owned.handles = .ok (h₄, l₄) ∧
    s.close = .ok ⟨l₁, sortDrops l₃, sortDrops l₄, h₄.live⟩ := by
  obtain ⟨h₁, l₁, e₁, hs₁, -⟩ := Heap.Sound.release_passes hs
  obtain ⟨h₂, l₂, e₂, hs₂, -⟩ := hs₁.release_passes
  obtain ⟨h₃, l₃, e₃, hs₃, -⟩ := hs₂.release_passes
  have hs₃' : h₃.Sound (s.owned.handles ++ []) := by rwa [List.append_nil]
  obtain ⟨h₄, l₄, e₄, -⟩ := hs₃'.release_passes
  refine ⟨h₁, h₂, h₃, h₄, l₁, l₂, l₃, l₄, e₁, hs₁, e₂, e₃, hs₃, e₄, ?_⟩
  simp [close, Roster.releaseAll, e₁, e₂, e₃, e₄, bind, Except.bind]

end Session

end Custody
