import Custody.Proofs.Market.Sessions

/-!
# Users of a market

A `UserMove` is what the user of a market can do: give it a command, or copy a handle that it gave
out.  Every move leaves a session sound (`moves_sound`).  To the series themselves it does no more
than make, feed and free some, so what these three keep lasts (`Lasting.moves`).  One such fact is
that a series stores no handles: there are none but those of the market and those kept outside it
(`moves_flat`).
-/

namespace Custody

/-- What the user of a market can do. -/
inductive UserMove where
  | command (c : MarketCommand)
  /-- Takes a further handle on a series that is held. -/
  | copy (dst : Option String) (src : String)
  | copyWeak (dst src : String)
  /-- Takes a weak handle on a series that is held. -/
  | downgrade (dst src : String)
  /-- Takes a handle on the source of an indicator that the market keeps. -/
  | copySource (dst : Option String) (key : String)

namespace MarketSession

/-- Keeps a weak handle just taken in `h` under a name. -/
def keepWeak (s : MarketSession) (dst : String) (h : Heap Series) (w : Weak) :
    Except Fault (MarketSession × MarketReply) := do
  let (seen, heap, _) ← s.seen.store h dst w
  .ok ({ s with heap, seen }, .nothing)

def act (s : MarketSession) : UserMove → Except Fault (MarketSession × MarketReply)
  | .command c => s.exec c
  | .copy dst src => do
    let (h, x) ← s.heap.clone (← s.heldAt src)
    s.keep dst h x .nothing
  | .copyWeak dst src => do
    let (h, w) ← s.heap.cloneWeak (← s.seenAt src)
    s.keepWeak dst h w
  | .downgrade dst src => do
    let (h, w) ← s.heap.downgrade (← s.heldAt src)
    s.keepWeak dst h w
  | .copySource dst key =>
    match s.market.tryIndicator key with
    | none => .ok (s, .flag false)
    | some i => do
      let (h, x) ← s.heap.clone i.source
      s.keep dst h x (.flag true)

/-- Makes a move.  One that is stopped by a fault changes nothing. -/
def move (s : MarketSession) (u : UserMove) : MarketSession :=
  match s.act u with
  | .ok r => r.1
  | .error _ => s

def moves (s : MarketSession) (us : List UserMove) : MarketSession := us.foldl move s

variable {s s' : MarketSession} {h h' : Heap Series} {u : UserMove} {us : List UserMove}

/-! ### Moves keep the books -/

theorem move_command (s : MarketSession) (c : MarketCommand) :
    s.move (.command c) = (s.step c).1 := by
  rw [move, step, act]
  cases s.exec c <;> rfl

theorem keepWeak_works {w : Weak} (hs : s.market.Sound h (.weak w :: s.outside)) (dst : String) :
    Works s.market (s.keepWeak dst h w) := by
  have hs₁ : s.market.Sound h
      (Holder.handles w ++ (s.seen.handles ++ (s.held.handles ++ s.kept.handles))) :=
    hs.perm (.cons _ s.perm_outside_seen)
  obtain ⟨h', log, e, hs', -⟩ := hs₁.store dst
  refine .inl ⟨{ s with heap := h', seen := s.seen.insert dst w }, .nothing, ?_,
    .of_perm hs' (perm_outside_seen _), rfl⟩
  simp only [keepWeak, e, bind, Except.bind]

/-- A copy is taken, or it stops because there is nothing to copy. -/
theorem act_works (hs : s.Sound) (hu : ∀ c, u ≠ .command c) : Works s.market (s.act u) := by
  cases u with
  | command c => exact absurd rfl (hu c)
  | copy dst src =>
    refine Works.lookup fun x hk => ?_
    obtain ⟨h, e, ht⟩ := Heap.Balanced.clone hs.heap (strong_mem_handles hk)
    simp only [e, bind, Except.bind]
    exact keep_works (hs.takes ht).1 dst _
  | copyWeak dst src =>
    refine Works.lookup fun w hk => ?_
    obtain ⟨h, v, e, ht⟩ := Heap.Balanced.cloneWeak hs.heap (weak_mem_handles hk)
    simp only [e, bind, Except.bind]
    exact keepWeak_works (hs.takes ht).1 dst
  | downgrade dst src =>
    refine Works.lookup fun x hk => ?_
    obtain ⟨h, w, e, ht⟩ := Heap.Balanced.downgrade hs.heap (strong_mem_handles hk)
    simp only [e, bind, Except.bind]
    exact keepWeak_works (hs.takes ht).1 dst
  | copySource dst key =>
    simp only [act]
    cases hk : s.market.tryIndicator key with
    | none => exact works_same hs _
    | some a =>
      obtain ⟨h, e, ht⟩ := Heap.Balanced.clone hs.heap (Market.Sound.source_mem hk)
      simp only [e, bind, Except.bind]
      exact keep_works (hs.takes ht).1 dst _

theorem move_sound (hs : s.Sound) (u : UserMove) : (s.move u).Sound := by
  by_cases hu : ∃ c, u = .command c
  · obtain ⟨c, rfl⟩ := hu
    rw [move_command]
    cases hc : c.clears with
    | true => exact (step_clears hs hc).1
    | false => exact (step_grows hs hc).1
  · rcases act_works hs fun c e => hu ⟨c, e⟩ with ⟨s', reply, e, hs', -⟩ | e
    · rwa [move, e]
    · rwa [move, e]

theorem moves_sound (hs : s.Sound) (us : List UserMove) : (s.moves us).Sound := by
  induction us generalizing s with
  | nil => exact hs
  | cons u us ih => exact ih (move_sound hs u)

end MarketSession

/-! ### What a release does to the objects -/

namespace Heap

variable {α : Type} {h h' : Heap α} {o : ObjectId} {c : CounterId}

theorem destroy_objects {r : Released α} (e : h.destroy o = .ok r) :
    r.heap.objects = h.objects.erase o := by
  grind [destroy, = bind_eq_ok_iff, → lastWords_objects]

theorem retire_objects (e : h.retire o c = .ok h') : h'.objects = (h.detach o).objects := by
  grind [retire, detach, setObject, setCounter, = bind_eq_ok_iff, → freeCounter_objects]

/-- A release frees one object or none, and changes no other. -/
theorem releaseOne_objects {t : Handle} {r : Released α} (e : h.releaseOne t = .ok r) :
    r.heap.objects = h.objects ∨ ∃ o, r.heap.objects = h.objects.erase o := by
  match t with
  | .strong ⟨none⟩ | .weak ⟨none⟩ => grind [releaseOne]
  | .owner o => exact .inr ⟨o, destroy_objects e⟩
  | .weak ⟨some c⟩ =>
    refine .inl ?_
    grind [releaseOne, = bind_eq_ok_iff, → discountWeak_objects, → freeCounter_objects]
  | .strong ⟨some o⟩ =>
    have hlast {h₁ h₂ : Heap α} {c : CounterId} (er : h₁.retire o c = .ok h₂)
        (ed : h₂.destroy o = .ok r) : r.heap.objects = h₁.objects.erase o := by
      rw [destroy_objects ed, retire_objects er]
      exact Slab.erase_modify ..
    grind [releaseOne, = bind_eq_ok_iff, → discountStrong_objects]

end Heap

theorem Market.trySeries_objects {m : Market} {h h' : Heap Series} {k : String}
    {s : Option Strong} (e : m.trySeries h k = .ok (h', s)) : h'.objects = h.objects :=
  Roster.lend_objects e

/-! ### What lasts -/

/-- Something true of the series on a heap that stays true when one is made, fed or freed. -/
structure Lasting (P : Slab (Object Series) → Prop) : Prop where
  insert : ∀ {t} (i : SeriesId) (c : CounterId), P t → P (t.insert { i.fresh with slot := some c })
  feed : ∀ {t o x} (bars : List Bar), t.get? o = some x → P t →
    P (t.modify o fun y => { y with value := (x.value.feed bars).1 })
  erase : ∀ {t} (o : ObjectId), P t → P (t.erase o)

namespace Lasting

variable {P : Slab (Object Series) → Prop} {h h' : Heap Series} {s : Strong} {ts : List Handle}
  {log : List (DropRecord Series)} {i : SeriesId}

theorem releaseOne (hP : Lasting P) {t : Handle} {r : Heap.Released Series}
    (e : h.releaseOne t = .ok r) (hh : P h.objects) : P r.heap.objects := by
  obtain e | ⟨o, e⟩ := Heap.releaseOne_objects e
  · rwa [e]
  · rw [e]
    exact hP.erase o hh

theorem release (hP : Lasting P) (e : h.release ts = .ok (h', log)) (hh : P h.objects) :
    P h'.objects := by
  induction h, ts using Heap.release.induct generalizing log with
  | case1 h =>
    rw [Heap.release_nil] at e
    cases e
    exact hh
  | case2 h t ts f ef =>
    obtain ⟨r, -, er, -⟩ := Heap.release_cons_inv e
    cases ef.symm.trans er
  | case3 h t ts r er _ f ef =>
    obtain ⟨r', l, er', el, -⟩ := Heap.release_cons_inv e
    cases er.symm.trans er'
    cases ef.symm.trans el
  | case4 h t ts r er _ g l el ih =>
    obtain ⟨r', l', er', el', -⟩ := Heap.release_cons_inv e
    cases er.symm.trans er'
    exact ih el' (hP.releaseOne er hh)

theorem manage (hP : Lasting P) (e : h.manage i.fresh = .ok (h', s)) (hh : P h.objects) :
    P h'.objects := by
  rw [Heap.manage_eq h rfl] at e
  cases e
  exact hP.insert i _ hh

theorem feedSeries (hP : Lasting P) {bars : List Bar} {n : Option Nat}
    (e : feedSeries h s bars = .ok (h', n)) (hh : P h.objects) : P h'.objects := by
  unfold Custody.feedSeries at e
  split at e
  · cases e
    exact hh
  · obtain ⟨x, hx, e⟩ := bind_eq_ok_iff.1 e
    cases e
    exact hP.feed bars (Heap.object_eq_ok_iff.1 hx) hh

section Roster

variable {β : Type} [Holder β] {r r' : Roster β} {b : β} {k : String}

theorem store (hP : Lasting P) (e : r.store h k b = .ok (r', h', log)) (hh : P h.objects) :
    P h'.objects := by
  grind [Roster.store, = bind_eq_ok_iff, → Lasting.release]

theorem discard (hP : Lasting P) (e : r.discard h k = .ok (r', h', log)) (hh : P h.objects) :
    P h'.objects := by
  grind [Roster.discard, = bind_eq_ok_iff, → Lasting.release]

theorem releaseAll (hP : Lasting P) (e : r.releaseAll h = .ok (h', log)) (hh : P h.objects) :
    P h'.objects :=
  hP.release e hh

end Roster

section Shared

variable {r r' : Roster Strong} {k : String}

theorem enlist (hP : Lasting P) (e : r.enlist h k s = .ok (r', h', log)) (hh : P h.objects) :
    P h'.objects := by
  grind [Roster.enlist, = bind_eq_ok_iff, → Heap.clone_objects, → Lasting.store]

theorem lendOrMake (hP : Lasting P) {made : Bool}
    (e : r.lendOrMake h k i.fresh = .ok (r', h', s, made, log)) (hh : P h.objects) :
    P h'.objects := by
  grind [Roster.lendOrMake, = bind_eq_ok_iff, → Roster.lend_objects, → Lasting.manage,
    → Lasting.enlist]

end Shared

section Market

variable {m m' : Market} {bars : List Bar} {k : String}

theorem openSeries (hP : Lasting P) (e : m.openSeries h i = .ok (m', h', s)) (hh : P h.objects) :
    P h'.objects := by
  grind [Market.openSeries, = bind_eq_ok_iff, → Lasting.lendOrMake]

theorem load (hP : Lasting P) {n : Nat} (e : m.load h i bars = .ok (m', h', s, n))
    (hh : P h.objects) : P h'.objects := by
  grind [Market.load, = bind_eq_ok_iff, → Lasting.openSeries, → Lasting.feedSeries]

theorem indicator (hP : Lasting P) {kind : IndicatorKind} {a : Indicator}
    (e : m.indicator h i kind = .ok (m', h', a)) (hh : P h.objects) : P h'.objects := by
  grind [Market.indicator, = bind_eq_ok_iff, → Lasting.openSeries, → Lasting.store]

theorem observe (hP : Lasting P) {w : Weak} (e : m.observe h k = .ok (h', w))
    (hh : P h.objects) : P h'.objects := by
  grind [Market.observe, = bind_eq_ok_iff, → Market.trySeries_objects,
    → Heap.downgrade_objects, → Lasting.release]

theorem shutdown (hP : Lasting P) (e : m.shutdown h = .ok h') (hh : P h.objects) :
    P h'.objects := by
  grind [Market.shutdown, Market.clear, = bind_eq_ok_iff, → Lasting.releaseAll]

end Market

section Session

variable {s s' : MarketSession} {c : MarketCommand} {u : UserMove} {reply reply' : MarketReply}

theorem keep (hP : Lasting P) {dst : Option String} {x : Strong}
    (e : s.keep dst h x reply = .ok (s', reply')) (hh : P h.objects) : P s'.heap.objects := by
  cases dst <;> grind [MarketSession.keep, = bind_eq_ok_iff, → Lasting.release, → Lasting.store]

theorem keepWeak (hP : Lasting P) {dst : String} {w : Weak}
    (e : s.keepWeak dst h w = .ok (s', reply)) (hh : P h.objects) : P s'.heap.objects := by
  grind [MarketSession.keepWeak, = bind_eq_ok_iff, → Lasting.store]

theorem exec (hP : Lasting P) (e : s.exec c = .ok (s', reply)) (hh : P s.heap.objects) :
    P s'.heap.objects := by
  cases c with
  | ownSeries dst id =>
    obtain ⟨⟨h, x⟩, em, e⟩ := bind_eq_ok_iff.1 e
    exact hP.keep e (hP.manage em hh)
  | _ =>
    simp only [MarketSession.exec] at e
    grind [= bind_eq_ok_iff, → Lasting.keep, → Lasting.openSeries, → Lasting.load,
      → Lasting.indicator, → Lasting.feedSeries, → Market.trySeries_objects, → Lasting.observe,
      → Lasting.shutdown, → Heap.upgrade_objects, → Heap.clone_objects, → Lasting.store,
      → Lasting.discard]

theorem act (hP : Lasting P) (e : s.act u = .ok (s', reply)) (hh : P s.heap.objects) :
    P s'.heap.objects := by
  cases u with
  | command c => exact hP.exec e hh
  | _ =>
    simp only [MarketSession.act] at e
    grind [= bind_eq_ok_iff, → Lasting.keep, → Lasting.keepWeak, → Heap.clone_objects,
      → Heap.cloneWeak_objects, → Heap.downgrade_objects]

theorem move (hP : Lasting P) (u : UserMove) (hh : P s.heap.objects) :
    P (s.move u).heap.objects := by
  rw [MarketSession.move]
  split
  · next e => exact hP.act e hh
  · exact hh

theorem moves (hP : Lasting P) (us : List UserMove) (hh : P s.heap.objects) :
    P (s.moves us).heap.objects := by
  induction us generalizing s with
  | nil => exact hh
  | cons u us ih => exact ih (hP.move u hh)

end Session

end Lasting

/-! ### Series store no handles -/

theorem Heap.stored_eq_nil_iff {α : Type} {h : Heap α} :
    h.stored = [] ↔ ∀ o x, h.objects.get? o = some x → x.handles = [] := by
  rw [stored, List.flatMap_eq_nil_iff]
  constructor
  · exact fun hn o x hx => hn x (Slab.mem_toList.2 ⟨o, hx⟩)
  · intro hn x hx
    obtain ⟨o, hx⟩ := Slab.mem_toList.1 hx
    exact hn o x hx

theorem lasting_flat : Lasting fun t => ∀ o x, t.get? o = some x → x.handles = [] where
  insert := by grind [Slab.get?_insert, SeriesId.fresh, Object.handles]
  feed := by grind [Slab.get?_modify, Object.handles]
  erase := by grind [Slab.get?_erase]

theorem Market.stored_shutdown {m : Market} {h h' : Heap Series} (e : m.shutdown h = .ok h')
    (hn : h.stored = []) : h'.stored = [] :=
  Heap.stored_eq_nil_iff.2 (lasting_flat.shutdown e (Heap.stored_eq_nil_iff.1 hn))

namespace MarketSession

variable {s s' : MarketSession}

theorem stored_exec {c : MarketCommand} {reply : MarketReply} (e : s.exec c = .ok (s', reply))
    (hn : s.heap.stored = []) : s'.heap.stored = [] :=
  Heap.stored_eq_nil_iff.2 (lasting_flat.exec e (Heap.stored_eq_nil_iff.1 hn))

/-- No series stores a handle, whatever a user does. -/
theorem moves_flat (hn : s.heap.stored = []) (us : List UserMove) :
    (s.moves us).heap.stored = [] :=
  Heap.stored_eq_nil_iff.2 (lasting_flat.moves us (Heap.stored_eq_nil_iff.1 hn))

end MarketSession

end Custody
