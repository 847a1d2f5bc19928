import Custody.Market.Session
import Custody.Proofs.Market.Entries

/-!
# Market sessions keep the books

Every command leaves a market session sound (`MarketSession.Sound`), and it comes to its end or
stops because it names something that is not there.  `exec_works` is the step for the commands that
shut nothing down; they also lose nothing that the market keeps, and so does every run of them
(`run_extends`).
-/

namespace Custody

/-- Whether a command gives up what the market keeps. -/
def MarketCommand.clears : MarketCommand → Bool
  | .shutdown | .renew => true
  | _ => false

namespace MarketSession

variable {s : MarketSession} {m : Market} {h : Heap Series} {c : MarketCommand}
  {cs : List MarketCommand} {x : Strong} {others : List Handle}

/-- The handles that are kept outside the market. -/
def outside (s : MarketSession) : List Handle :=
  s.held.handles ++ (s.seen.handles ++ s.kept.handles)

theorem perm_outside_seen (s : MarketSession) :
    s.outside.Perm (s.seen.handles ++ (s.held.handles ++ s.kept.handles)) :=
  List.perm_append_comm_assoc _ _ _

theorem perm_outside_kept (s : MarketSession) :
    s.outside.Perm (s.kept.handles ++ (s.held.handles ++ s.seen.handles)) := by
  rw [outside, ← List.append_assoc]
  exact List.perm_append_comm

/-- The market and the heap are sound, whatever is kept outside the market. -/
def Sound (s : MarketSession) : Prop := s.market.Sound s.heap s.outside

theorem Sound.of_perm (hs : s.market.Sound s.heap others) (hp : s.outside.Perm others) : s.Sound :=
  Market.Sound.perm hs hp.symm

/-! ### What a command leaves -/

/-- Work is done and leaves the market `m`, or it stops because it names something that is not
there. -/
def Works (m : Market) (r : Except Fault (MarketSession × MarketReply)) : Prop :=
  (∃ s' reply, r = .ok (s', reply) ∧ s'.Sound ∧ s'.market = m) ∨ r = .error .notFound

theorem works_same (hs : s.Sound) (reply : MarketReply) : Works s.market (.ok (s, reply)) :=
  .inl ⟨s, reply, rfl, hs, rfl⟩

/-- Work that begins by looking for something under a name. -/
theorem Works.lookup {β : Type} {r : Roster β} {name : String}
    {act : β → Except Fault (MarketSession × MarketReply)}
    (ha : ∀ b, r.get? name = some b → Works m (act b)) :
    Works m ((r.get? name).elim (.error .notFound) .ok >>= act) := by
  cases hk : r.get? name with
  | none => exact .inr rfl
  | some b => exact ha b hk

/-- A handle just taken is released, or it is kept under a name. -/
theorem keep_ok (hs : s.market.Sound h (.strong x :: s.outside)) (dst : Option String)
    (reply : MarketReply) : ∃ s', s.keep dst h x reply = .ok (s', reply) ∧ s'.Sound ∧
      s'.market = s.market ∧ ∀ name ∈ dst, s'.held.get? name = some x := by
  cases dst with
  | none =>
    have hs' : s.market.Sound h ([.strong x] ++ s.outside) := hs
    obtain ⟨h', log, e, hs', -⟩ := hs'.release
    exact ⟨{ s with heap := h' }, by simp [keep, e, bind, Except.bind], hs', rfl, by simp⟩
  | some name =>
    obtain ⟨h', log, e, hs', -⟩ := Market.Sound.store (b := x) hs name
    exact ⟨{ s with heap := h', held := s.held.insert name x },
      by simp [keep, e, bind, Except.bind], hs', rfl, by simp [Roster.get?_insert]⟩

theorem keep_works (hs : s.market.Sound h (.strong x :: s.outside)) (dst : Option String)
    (reply : MarketReply) : Works s.market (s.keep dst h x reply) := by
  obtain ⟨s', e, hs', hm, -⟩ := keep_ok hs dst reply
  exact .inl ⟨s', reply, e, hs', hm⟩

/-! ### Indicators -/

theorem viewIndicator_ok {hs : List Handle} (hb : h.Balanced hs) {a : Indicator}
    (hm : .strong a.source ∈ hs) : ∃ v, viewIndicator h a = .ok v := by
  obtain ⟨k, e⟩ := hb.counterOf hm
  obtain ⟨kind, _ | o⟩ := a
  · simp only [viewIndicator, Indicator.stored, seriesOf, Heap.strongCount, e, bind, Except.bind]
    exact ⟨_, rfl⟩
  · obtain ⟨y, hy⟩ := hb.object_of_holding hm
    simp only [viewIndicator, Indicator.stored, seriesOf, Heap.strongCount, e, hy, bind,
      Except.bind]
    exact ⟨_, rfl⟩

/-- The indicator asked for is kept under its key, now if not before, and it can be looked at. -/
theorem exec_indicator (hs : s.Sound) (i : SeriesId) (kind : IndicatorKind) :
    ∃ m h a v, s.market.indicator s.heap i kind = .ok (m, h, a) ∧
      s.exec (.indicator i kind) = .ok ({ s with heap := h, market := m }, .indicator v) ∧
      m.Sound h s.outside ∧ s.market.Grows m ∧
      m.indicators.get? (Indicator.keyOf i.key kind) = some a ∧ a.kind = kind ∧
      m.series.get? i.key = some a.source := by
  obtain ⟨m, h, a, e, hs', hg, -, hk, hkind, hsrc⟩ := Market.Sound.indicator hs i kind
  obtain ⟨v, ev⟩ := viewIndicator_ok hs'.heap (Market.Sound.source_mem hk)
  exact ⟨m, h, a, v, e, by simp only [exec, e, ev, bind, Except.bind], hs', hg, hk, hkind, hsrc⟩

/-! ### What is kept outside -/

/-- All handles there are: those of the market, those kept outside and those stored in series. -/
def handles (s : MarketSession) : List Handle :=
  s.market.series.handles ++ (s.market.indicators.handles ++ s.outside) ++ s.heap.stored

theorem mem_handles_of_mem_outside {t : Handle} (ht : t ∈ s.outside) : t ∈ s.handles :=
  List.mem_append_left _ (List.mem_append_right _ (List.mem_append_right _ ht))

theorem strong_mem_handles {name : String} (hk : s.held.get? name = some x) :
    .strong x ∈ s.handles :=
  mem_handles_of_mem_outside
    (List.mem_append_left _ (Roster.mem_handles hk List.mem_cons_self))

theorem weak_mem_handles {name : String} {w : Weak} (hk : s.seen.get? name = some w) :
    .weak w ∈ s.handles :=
  mem_handles_of_mem_outside (s.perm_outside_seen.mem_iff.2
    (List.mem_append_left _ (Roster.mem_handles hk List.mem_cons_self)))

theorem source_mem_handles {name : String} {a : Indicator} (hk : s.kept.get? name = some a) :
    .strong a.source ∈ s.handles :=
  mem_handles_of_mem_outside (s.perm_outside_kept.mem_iff.2
    (List.mem_append_left _ (Roster.mem_handles hk List.mem_cons_self)))

theorem balanced_handles (hs : s.Sound) : s.heap.Balanced s.handles := hs.heap

/-! ### Single commands -/

theorem tryIndicator_works (hs : s.Sound) (key : String) :
    Works s.market (s.exec (.tryIndicator key)) := by
  simp only [exec]
  cases hk : s.market.tryIndicator key with
  | none => exact works_same hs _
  | some a =>
    obtain ⟨v, ev⟩ := viewIndicator_ok hs.heap (Market.Sound.source_mem hk)
    simp only [ev, bind, Except.bind]
    exact works_same hs _

theorem feed_works (hs : s.Sound) (name : String) (bars : List Bar) :
    Works s.market (s.exec (.feed name bars)) := by
  refine .lookup fun x hk => ?_
  obtain ⟨_ | o⟩ := x
  · exact works_same hs _
  · obtain ⟨y, hy⟩ := (balanced_handles hs).named (strong_mem_handles hk)
    obtain ⟨h, n, e, hs', -⟩ := Market.Sound.feed hs hy bars
    simp only [e, bind, Except.bind]
    exact .inl ⟨{ s with heap := h }, _, rfl, hs', rfl⟩

theorem trySeries_works (hs : s.Sound) (dst : Option String) (key : String) :
    Works s.market (s.exec (.trySeries dst key)) := by
  cases hk : s.market.series.get? key with
  | none =>
    simp only [exec, Market.trySeries_of_get?_eq_none hk, bind, Except.bind]
    exact works_same hs _
  | some x =>
    obtain ⟨h, e, hs', -⟩ := Market.Sound.trySeries hs hk
    simp only [exec, e, bind, Except.bind]
    exact keep_works hs' dst _

theorem observe_works (hs : s.Sound) (dst key : String) :
    Works s.market (s.exec (.observe dst key)) := by
  have hobs : ∃ h w, s.market.observe s.heap key = .ok (h, w) ∧
      s.market.Sound h (.weak w :: s.outside) := by
    cases hk : s.market.series.get? key with
    | none =>
      exact ⟨_, _, Market.observe_of_get?_eq_none hk,
        (hs.takes (Heap.Balanced.takes_unbound hs.heap)).1⟩
    | some x =>
      obtain ⟨o, -, rfl, -⟩ := hs.series hk
      obtain ⟨h, c, e, hs', -⟩ := Market.Sound.observe hs hk
      exact ⟨h, _, e, hs'⟩
  obtain ⟨h, w, e, hs'⟩ := hobs
  have hs₁ : s.market.Sound h
      (Holder.handles w ++ (s.seen.handles ++ (s.held.handles ++ s.kept.handles))) :=
    hs'.perm (.cons _ s.perm_outside_seen)
  obtain ⟨h', log, e', hs₂, -⟩ := hs₁.store dst
  simp only [exec, e, e', bind, Except.bind]
  exact .inl ⟨{ s with heap := h', seen := s.seen.insert dst w }, _, rfl,
    .of_perm hs₂ (perm_outside_seen _), rfl⟩

theorem inspect_works (hs : s.Sound) (name : String) :
    Works s.market (s.exec (.inspect name)) := by
  refine .lookup fun x hk => ?_
  obtain ⟨_ | o⟩ := x
  · exact works_same hs _
  · obtain ⟨y, hy⟩ := (balanced_handles hs).object_of_holding (strong_mem_handles hk)
    simp only [seriesOf, hy, bind, Except.bind]
    exact works_same hs _

theorem ownIndicator_works (hs : s.Sound) (dst name : String) (kind : IndicatorKind) :
    Works s.market (s.exec (.ownIndicator dst name kind)) := by
  refine .lookup fun x hk => ?_
  obtain ⟨h, e, ht⟩ := Heap.Balanced.clone hs.heap (strong_mem_handles hk)
  obtain ⟨v, ev⟩ := viewIndicator_ok (a := ⟨kind, x⟩) ht.balanced List.mem_cons_self
  have hs₁ : s.market.Sound h (Holder.handles (⟨kind, x⟩ : Indicator) ++
      (s.kept.handles ++ (s.held.handles ++ s.seen.handles))) :=
    (hs.takes ht).1.perm (.cons _ s.perm_outside_kept)
  obtain ⟨h', log, e', hs₂, -⟩ := hs₁.store dst
  simp only [e, ev, e', bind, Except.bind]
  exact .inl ⟨{ s with heap := h', kept := s.kept.insert dst ⟨kind, x⟩ }, _, rfl,
    .of_perm hs₂ (perm_outside_kept _), rfl⟩

/-! ### One command -/

/-- A command that shuts nothing down is done, or it stops because something it names is not
there. -/
theorem exec_works (hs : s.Sound) (hc : c.clears = false) :
    ∃ m, s.market.Grows m ∧ Works m (s.exec c) := by
  -- only three commands put anything into the market
  have same : ∀ {r}, Works s.market r → ∃ m, s.market.Grows m ∧ Works m r :=
    fun hw => ⟨s.market, .refl _, hw⟩
  cases c with
  | series dst id =>
    obtain ⟨m, h, o, e, hs', hg, -⟩ := Market.Sound.openSeries hs id
    refine ⟨m, hg, ?_⟩
    simp only [exec, e, bind, Except.bind]
    exact keep_works (s := { s with market := m }) hs' dst _
  | load dst id bars =>
    obtain ⟨m, h, o, n, e, hs', hg, -⟩ := Market.Sound.load hs id bars
    refine ⟨m, hg, ?_⟩
    simp only [exec, e, bind, Except.bind]
    exact keep_works (s := { s with market := m }) hs' dst _
  | indicator id kind =>
    obtain ⟨m, h, a, v, -, e, hs', hg, -⟩ := exec_indicator hs id kind
    exact ⟨m, hg, .inl ⟨_, _, e, hs', rfl⟩⟩
  | tryIndicator key => exact same (tryIndicator_works hs key)
  | ownSeries dst id =>
    obtain ⟨hs', -⟩ := Market.Sound.adopt hs (x := id.fresh) rfl
    refine same ?_
    simp only [exec, Heap.manage_eq s.heap (x := id.fresh) rfl, bind, Except.bind]
    exact keep_works hs' dst _
  | unset dst =>
    exact same (keep_works (hs.takes (Heap.Balanced.takes_unset hs.heap)).1 (some dst) _)
  | feed name bars => exact same (feed_works hs name bars)
  | trySeries dst key => exact same (trySeries_works hs dst key)
  | observe dst key => exact same (observe_works hs dst key)
  | upgrade dst src =>
    refine same (.lookup fun w hk => ?_)
    obtain ⟨h, x, e, ht⟩ := Heap.Balanced.upgrade hs.heap (weak_mem_handles hk)
    simp only [e, bind, Except.bind]
    exact keep_works (hs.takes ht).1 dst _
  | compare a b => exact same (.lookup fun x _ => .lookup fun y _ => works_same hs _)
  | inspect name => exact same (inspect_works hs name)
  | ownIndicator dst name kind => exact same (ownIndicator_works hs dst name kind)
  | showIndicator name =>
    refine same (.lookup fun a hk => ?_)
    obtain ⟨v, ev⟩ := viewIndicator_ok hs.heap (source_mem_handles hk)
    simp only [ev, bind, Except.bind]
    exact works_same hs _
  | dropIndicator name =>
    obtain ⟨h, log, e, hs', -⟩ := Market.Sound.discard (hs.perm s.perm_outside_kept) name
    refine same ?_
    simp only [exec, e, bind, Except.bind]
    exact .inl ⟨{ s with heap := h, kept := s.kept.erase name }, _, rfl,
      .of_perm hs' (perm_outside_kept _), rfl⟩
  | release name =>
    obtain ⟨h, log, e, hs', -⟩ := Market.Sound.discard hs name
    refine same ?_
    simp only [exec, e, bind, Except.bind]
    exact .inl ⟨{ s with heap := h, held := s.held.erase name }, _, rfl, hs', rfl⟩
  | releaseWeak name =>
    obtain ⟨h, log, e, hs', -⟩ := Market.Sound.discard (hs.perm s.perm_outside_seen) name
    refine same ?_
    simp only [exec, e, bind, Except.bind]
    exact .inl ⟨{ s with heap := h, seen := s.seen.erase name }, _, rfl,
      .of_perm hs' (perm_outside_seen _), rfl⟩
  | stats => exact same (works_same hs _)
  | shutdown | renew => cases hc

/-- A command that shuts the market down leaves an empty one. -/
theorem step_clears (hs : s.Sound) (hc : c.clears = true) :
    (s.step c).1.Sound ∧ (s.step c).1.market = {} := by
  obtain ⟨h, e, hs', -⟩ := Market.Sound.shutdown hs
  cases c with
  | shutdown | renew =>
    simp only [step, exec, e, bind, Except.bind]
    exact ⟨hs', trivial⟩
  | _ => cases hc

theorem step_grows (hs : s.Sound) (hc : c.clears = false) :
    (s.step c).1.Sound ∧ s.market.Grows (s.step c).1.market := by
  obtain ⟨m, hg, ⟨s', reply, e, hs', rfl⟩ | e⟩ := exec_works hs hc
  · simp only [step, e]
    exact ⟨hs', hg⟩
  · simp only [step, e]
    exact ⟨hs, .refl _⟩

/-! ### Runs -/

theorem run_append (s : MarketSession) (cs ds : List MarketCommand) :
    s.run (cs ++ ds) = (s.run cs).run ds :=
  List.foldl_append

theorem sound_empty : ({} : MarketSession).Sound :=
  Market.sound_empty Heap.sound_empty fun hx => by cases hx

theorem run_sound (hs : s.Sound) (cs : List MarketCommand) : (s.run cs).Sound := by
  induction cs generalizing s with
  | nil => exact hs
  | cons c cs ih =>
    cases hc : c.clears with
    | true => exact ih (step_clears hs hc).1
    | false => exact ih (step_grows hs hc).1

/-- A run that shuts nothing down leaves the market everything that it keeps. -/
theorem run_extends (hs : s.Sound) (hcs : ∀ c ∈ cs, c.clears = false) :
    s.market.Extends (s.run cs).market := by
  induction cs generalizing s with
  | nil => exact .refl _
  | cons c cs ih =>
    obtain ⟨hs', hg⟩ := step_grows hs (hcs c List.mem_cons_self)
    exact hg.extends.trans (ih hs' fun d hd => hcs d (List.mem_cons_of_mem _ hd))

end MarketSession

end Custody
