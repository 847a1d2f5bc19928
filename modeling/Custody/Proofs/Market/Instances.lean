import Mathlib.Data.List.Induction
import Custody.Proofs.Market.Sessions

/-!
# One instance per series and per indicator

A call on a market asks for a series (`MarketCommand.seeks`) or for a kind of average over one
(`MarketCommand.seeksKind`).  `MarketSession.reached` is the object of the series that a call gives
out or whose indicator it gives out, and `MarketSession.indicatorOf` is that indicator.  An
indicator is told apart from others by the command that made it (`MadeAt`).

What a call gives is kept under its key from then on (`Gives.kept`), and what is kept under a key is
what every later call for it gives (`reached_of_kept`).  Since different requests have different
keys, the market gives one instance for each of them (`one_instance`).
-/

namespace Custody

open MarketSession (run)

namespace MarketCommand

/-- The call asks for the series `t` or for an average over it. -/
def seeks : MarketCommand → SeriesId → Prop
  | .series _ i, t | .load _ i _, t | .indicator i _, t => i = t
  | .trySeries _ key, t | .observe _ key, t => key = t.key
  | .tryIndicator key, t => ∃ kind, key = Indicator.keyOf t.key kind
  | _, _ => False

/-- The call asks for the average `kind` over the series `t`. -/
def seeksKind : MarketCommand → SeriesId → IndicatorKind → Prop
  | .indicator i k, t, kind => i = t ∧ k = kind
  | .tryIndicator key, t, kind => key = Indicator.keyOf t.key kind
  | _, _, _ => False

/-- Whether the call makes what is not there. -/
def opens : MarketCommand → Bool
  | .series .. | .load .. | .indicator .. => true
  | _ => false

/-- The name under which the caller keeps the handle on a series that the call gives. -/
def keptAs : MarketCommand → Option String
  | .series dst _ | .load dst _ _ | .trySeries dst _ => dst
  | _ => none

theorem seeks_of_seeksKind {c : MarketCommand} {t : SeriesId} {k : IndicatorKind}
    (hc : c.seeksKind t k) : c.seeks t := by
  cases c with
  | indicator i kind => exact hc.1
  | tryIndicator key => exact ⟨k, hc⟩
  | _ => cases hc

theorem clears_of_seeks {c : MarketCommand} {t : SeriesId} (hc : c.seeks t) : c.clears = false := by
  cases c with
  | shutdown | renew => cases hc
  | _ => rfl

end MarketCommand

theorem Strong.bind_target_eq_some_iff {x : Option Strong} {o : ObjectId} :
    x.bind Strong.target = some o ↔ x = some ⟨some o⟩ := by
  constructor
  · intro e
    obtain ⟨⟨target⟩, rfl, rfl⟩ := Option.bind_eq_some_iff.1 e
    rfl
  · rintro rfl
    rfl

namespace MarketSession

variable {s : MarketSession} {m : Market} {h : Heap Series} {c : MarketCommand}
  {cs ds : List MarketCommand} {t : SeriesId} {kind : IndicatorKind} {o o' : ObjectId} {x : Strong}
  {a : Indicator} {k k' : String} {n n' : Nat}

/-! ### What a call gives -/

/-- The object of the series that a call gives out, or whose indicator it gives out. -/
def reached (s : MarketSession) : MarketCommand → Except Fault (Option ObjectId)
  | .series _ i => do
    let (_, _, x) ← s.market.openSeries s.heap i
    .ok x.target
  | .load _ i bars => do
    let (_, _, x, _) ← s.market.load s.heap i bars
    .ok x.target
  | .indicator i kind => do
    let (_, _, a) ← s.market.indicator s.heap i kind
    .ok a.source.target
  | .tryIndicator key => .ok ((s.market.tryIndicator key).bind (·.source.target))
  | .trySeries _ key => do
    let (_, x) ← s.market.trySeries s.heap key
    .ok (x.bind Strong.target)
  | .observe _ key => do
    let (h, w) ← s.market.observe s.heap key
    h.visible w
  | _ => .ok none

/-- The indicator that a call gives out. -/
def indicatorOf (s : MarketSession) : MarketCommand → Except Fault (Option Indicator)
  | .indicator i kind => do
    let (_, _, a) ← s.market.indicator s.heap i kind
    .ok (some a)
  | .tryIndicator key => .ok (s.market.tryIndicator key)
  | _ => .ok none

/-- The call `c` gives out the series `t`, or an indicator over it, and `o` is its object. -/
def Gives (s : MarketSession) (c : MarketCommand) (t : SeriesId) (o : ObjectId) : Prop :=
  c.seeks t ∧ s.reached c = .ok (some o)

/-- A step that ends in keeping a handle just taken. -/
theorem step_keep {dst : Option String} {reply : MarketReply}
    (e : s.exec c = keep { s with market := m } dst h x reply)
    (hs : m.Sound h (.strong x :: s.outside)) :
    (s.step c).1.market = m ∧ ∀ name ∈ dst, (s.step c).1.held.get? name = some x := by
  obtain ⟨s', e', -, hm, hheld⟩ := keep_ok (s := { s with market := m }) hs dst reply
  simp only [step, e, e']
  exact ⟨hm, hheld⟩

/-- A call that makes what is not there gives what is kept under its key afterwards. -/
theorem reached_of_opens (hs : s.Sound) (hc : c.seeks t) (ho : c.opens = true) :
    ∃ o, s.reached c = .ok (some o) ∧ (s.step c).1.market.series.get? t.key = some ⟨some o⟩ ∧
      ∀ name ∈ c.keptAs, (s.step c).1.held.get? name = some ⟨some o⟩ := by
  cases c with
  | series dst i =>
    obtain rfl : i = t := hc
    obtain ⟨m, h, o, e, hs', -, -, -, hk⟩ := Market.Sound.openSeries hs i
    have e' : s.exec (.series dst i) = keep { s with market := m } dst h ⟨some o⟩ .nothing := by
      simp only [exec, e, bind, Except.bind]
    obtain ⟨hm, hheld⟩ := step_keep e' hs'
    exact ⟨o, by simp [reached, e, bind, Except.bind], hm ▸ hk, hheld⟩
  | load dst i bars =>
    obtain rfl : i = t := hc
    obtain ⟨m, h, o, n, e, hs', -, -, hk⟩ := Market.Sound.load hs i bars
    have e' : s.exec (.load dst i bars) =
        keep { s with market := m } dst h ⟨some o⟩ (.count n) := by
      simp only [exec, e, bind, Except.bind]
    obtain ⟨hm, hheld⟩ := step_keep e' hs'
    exact ⟨o, by simp [reached, e, bind, Except.bind], hm ▸ hk, hheld⟩
  | indicator i kind =>
    obtain rfl : i = t := hc
    obtain ⟨m, h, ⟨kind', x⟩, v, e, e', hs', -, -, -, hk⟩ := exec_indicator hs i kind
    obtain ⟨o, -, rfl, -⟩ := hs'.series hk
    have hm : (s.step (.indicator i kind)).1.market = m := by simp only [step, e']
    exact ⟨o, by simp [reached, e, bind, Except.bind], hm ▸ hk, fun name hn => by cases hn⟩
  | _ => cases ho

theorem reached_trySeries (hs : s.Sound) (dst : Option String) (key : String) :
    s.reached (.trySeries dst key) = .ok ((s.market.series.get? key).bind Strong.target) := by
  cases hk : s.market.series.get? key with
  | none => simp [reached, Market.trySeries_of_get?_eq_none hk, bind, Except.bind]
  | some x =>
    obtain ⟨h, e, -⟩ := Market.Sound.trySeries hs hk
    simp [reached, e, bind, Except.bind]

theorem reached_observe (hs : s.Sound) (dst key : String) :
    s.reached (.observe dst key) = .ok ((s.market.series.get? key).bind Strong.target) := by
  cases hk : s.market.series.get? key with
  | none =>
    simp [reached, Market.observe_of_get?_eq_none hk, Heap.visible, Heap.boundTo, bind, Except.bind]
  | some x =>
    obtain ⟨o, -, rfl, -⟩ := hs.series hk
    obtain ⟨h, d, e, -, -, hv⟩ := Market.Sound.observe hs hk
    simp [reached, e, hv, bind, Except.bind]

/-- A call that makes nothing gives what is kept under its key, if it does not ask for an indicator
that is not there. -/
theorem reached_of_looks (hs : s.Sound) (hc : c.seeks t) (ho : c.opens = false) :
    s.reached c = .ok ((s.market.series.get? t.key).bind Strong.target) ∨
      ∃ key, c = .tryIndicator key ∧ s.market.tryIndicator key = none := by
  cases c with
  | trySeries dst key =>
    obtain rfl : key = t.key := hc
    exact .inl (reached_trySeries hs dst _)
  | observe dst key =>
    obtain rfl : key = t.key := hc
    exact .inl (reached_observe hs dst _)
  | tryIndicator key =>
    obtain ⟨kind, rfl⟩ := hc
    cases hk : s.market.indicators.get? (Indicator.keyOf t.key kind) with
    | none => exact .inr ⟨_, rfl, hk⟩
    | some a =>
      obtain ⟨-, hkey⟩ := Market.Sound.indicator_eq hs hk
      left
      simp [reached, Market.tryIndicator, hk, hkey]
  | series | load | indicator => cases ho
  | _ => cases hc

theorem step_grows_of_seeks (hs : s.Sound) (hc : c.seeks t) :
    (s.step c).1.Sound ∧ s.market.Grows (s.step c).1.market :=
  step_grows hs (MarketCommand.clears_of_seeks hc)

/-- A call is answered, and one that makes what is not there gives a series. -/
theorem reached_ok (hs : s.Sound) (hc : c.seeks t) :
    ∃ r, s.reached c = .ok r ∧ (c.opens = true → r ≠ none) := by
  cases ho : c.opens with
  | true =>
    obtain ⟨o, e, -⟩ := reached_of_opens hs hc ho
    exact ⟨some o, e, fun _ => nofun⟩
  | false =>
    rcases reached_of_looks hs hc ho with e | ⟨key, rfl, e⟩
    · exact ⟨_, e, nofun⟩
    · exact ⟨none, by rw [reached, e]; rfl, nofun⟩

/-- What a call for a series gives is kept under the key of the series from then on. -/
theorem Gives.kept (hs : s.Sound) (hg : s.Gives c t o) :
    (s.step c).1.market.series.get? t.key = some ⟨some o⟩ := by
  obtain ⟨hc, hr⟩ := hg
  cases ho : c.opens with
  | true =>
    obtain ⟨o', e, hk, -⟩ := reached_of_opens hs hc ho
    rw [hr] at e
    cases e
    exact hk
  | false =>
    refine (step_grows_of_seeks hs hc).2.series ?_
    rcases reached_of_looks hs hc ho with e | ⟨key, rfl, e⟩
    · rw [hr] at e
      exact Strong.bind_target_eq_some_iff.1 (Except.ok.inj e).symm
    · rw [reached, e] at hr
      cases hr

/-- The handle that a call gives is the one that the caller keeps. -/
theorem Gives.held (hs : s.Sound) (hg : s.Gives c t o) {name : String} (hn : name ∈ c.keptAs) :
    (s.step c).1.held.get? name = some ⟨some o⟩ := by
  obtain ⟨hc, hr⟩ := hg
  cases ho : c.opens with
  | true =>
    obtain ⟨o', e, -, hheld⟩ := reached_of_opens hs hc ho
    rw [hr] at e
    cases e
    exact hheld name hn
  | false =>
    cases c with
    | trySeries dst key =>
      have e := (reached_trySeries hs dst key).symm.trans hr
      have hk := Strong.bind_target_eq_some_iff.1 (Except.ok.inj e)
      obtain ⟨h, e, hs', -⟩ := Market.Sound.trySeries hs hk
      have e' : s.exec (.trySeries dst key) = s.keep dst h ⟨some o⟩ (.flag true) := by
        simp only [exec, e, bind, Except.bind]
      exact (step_keep (m := s.market) e' hs').2 name hn
    | series | load => cases ho
    | _ => cases hn

/-- What is kept under the key of a series is what every call for the series gives, if it does not
ask for an indicator that is not there. -/
theorem reached_of_kept (hs : s.Sound) (hc : c.seeks t)
    (hk : s.market.series.get? t.key = some ⟨some o⟩) : s.reached c = .ok (some o) ∨
      ∃ key, c = .tryIndicator key ∧ s.market.tryIndicator key = none := by
  cases ho : c.opens with
  | true =>
    obtain ⟨o', e, hk', -⟩ := reached_of_opens hs hc ho
    rw [(step_grows_of_seeks hs hc).2.series hk] at hk'
    cases hk'
    exact .inl e
  | false => simpa [hk] using reached_of_looks hs hc ho

/-- Whatever a call gives is a series that it asks for. -/
theorem exists_gives (hs : s.Sound) (hr : s.reached c = .ok (some o)) : ∃ t, s.Gives c t o := by
  cases c with
  | series dst i | load dst i bars | indicator i kind => exact ⟨i, rfl, hr⟩
  | trySeries dst key =>
    have e := (reached_trySeries hs dst key).symm.trans hr
    obtain ⟨t, ht⟩ := hs.exists_id (Strong.bind_target_eq_some_iff.1 (Except.ok.inj e))
    exact ⟨t, ht, hr⟩
  | observe dst key =>
    have e := (reached_observe hs dst key).symm.trans hr
    obtain ⟨t, ht⟩ := hs.exists_id (Strong.bind_target_eq_some_iff.1 (Except.ok.inj e))
    exact ⟨t, ht, hr⟩
  | tryIndicator key =>
    obtain ⟨a, hk, -⟩ := Option.bind_eq_some_iff.1 (Except.ok.inj hr)
    obtain ⟨t, kind, hkey⟩ := Market.Sound.exists_kind hs hk
    exact ⟨t, ⟨kind, hkey⟩, hr⟩
  | _ => cases hr

/-- A call gives the object that is kept under the key of a series if and only if it asks for that
series. -/
theorem gives_iff (hs : s.Sound) {t' : SeriesId} (hk : s.market.series.get? t.key = some ⟨some o⟩)
    (hg : s.Gives c t' o') : o = o' ↔ t = t' := by
  obtain ⟨hs', hgrows⟩ := step_grows_of_seeks hs hg.1
  have hk' := hg.kept hs
  have hk₁ := hgrows.series hk
  constructor
  · rintro rfl
    exact SeriesId.key_injective (Market.Sound.series_inj hs' hk₁ hk')
  · rintro rfl
    rw [hk₁] at hk'
    cases hk'
    rfl

/-! ### What a call for an indicator gives -/

/-- What a call for an indicator gives is kept under its key from then on. Its source is the series
asked for. -/
theorem kept_of_indicatorOf (hs : s.Sound) (hc : c.seeksKind t kind)
    (hr : s.indicatorOf c = .ok (some a)) :
    (s.step c).1.market.indicators.get? (Indicator.keyOf t.key kind) = some a ∧ a.kind = kind ∧
      ∃ o, a.source = ⟨some o⟩ ∧ s.Gives c t o := by
  have hseeks := MarketCommand.seeks_of_seeksKind hc
  cases c with
  | indicator i kind' =>
    obtain ⟨rfl, rfl⟩ := hc
    obtain ⟨m, h, a', v, e, e', hs', -, hk, hkind, hsrc⟩ := exec_indicator hs i kind'
    obtain rfl : a' = a := by simpa [indicatorOf, e, bind, Except.bind] using hr
    obtain ⟨o, -, ho, -⟩ := hs'.series hsrc
    refine ⟨by simpa only [step, e'] using hk, hkind, o, ho, hseeks, ?_⟩
    simp [reached, e, ho, bind, Except.bind]
  | tryIndicator key =>
    obtain rfl : key = Indicator.keyOf t.key kind := hc
    have hk : s.market.indicators.get? (Indicator.keyOf t.key kind) = some a := Except.ok.inj hr
    obtain ⟨hkind, hkey⟩ := Market.Sound.indicator_eq hs hk
    obtain ⟨o, -, ho, -⟩ := hs.series hkey
    refine ⟨(step_grows_of_seeks hs hseeks).2.extends.indicators hk, hkind, o, ho, hseeks, ?_⟩
    simp [reached, Market.tryIndicator, hk, ho]
  | _ => cases hc

/-- What is kept under the key of an indicator is what every call for it gives. -/
theorem indicatorOf_of_kept (hs : s.Sound) (hc : c.seeksKind t kind)
    (hk : s.market.indicators.get? (Indicator.keyOf t.key kind) = some a) :
    s.indicatorOf c = .ok (some a) := by
  cases c with
  | indicator i kind' =>
    obtain ⟨rfl, rfl⟩ := hc
    obtain ⟨m, h, a', v, e, -, -, hg, hk', -⟩ := exec_indicator hs i kind'
    rw [hg.extends.indicators hk] at hk'
    cases hk'
    simp [indicatorOf, e, bind, Except.bind]
  | tryIndicator key =>
    obtain rfl : key = Indicator.keyOf t.key kind := hc
    exact congrArg Except.ok hk
  | _ => cases hc

theorem indicatorOf_ok (hs : s.Sound) (hc : c.seeksKind t kind) :
    ∃ r, s.indicatorOf c = .ok r ∧ (c.opens = true → r ≠ none) := by
  cases c with
  | indicator i kind' =>
    obtain ⟨m, h, a, v, e, -⟩ := exec_indicator hs i kind'
    exact ⟨some a, by simp [indicatorOf, e, bind, Except.bind], fun _ => nofun⟩
  | tryIndicator key => exact ⟨_, rfl, nofun⟩
  | _ => cases hc

/-! ### Which command made an indicator -/

/-- The command puts an indicator under a key that was free. -/
def Makes (s : MarketSession) (c : MarketCommand) (k : String) : Prop :=
  s.market.indicators.get? k = none ∧ ∃ a, (s.step c).1.market.indicators.get? k = some a

/-- The indicator that is kept under `k` at the end of the run `cs` was made by the command at the
position `n`. Nothing is put under a key that is taken (`Market.Grows`), so the position tells the
indicators apart. -/
def MadeAt (cs : List MarketCommand) (k : String) (n : Nat) : Prop :=
  ∃ pre c post, cs = pre ++ c :: post ∧ pre.length = n ∧ (run {} pre).Makes c k ∧
    ∀ d ∈ post, d.clears = false

theorem run_concat (s : MarketSession) (cs : List MarketCommand) (c : MarketCommand) :
    s.run (cs ++ [c]) = ((s.run cs).step c).1 :=
  run_append s cs [c]

/-- A command makes one indicator at most. -/
theorem Makes.unique (hs : s.Sound) (hm : s.Makes c k) (hm' : s.Makes c k') : k = k' := by
  obtain ⟨hk, a, ha⟩ := hm
  obtain ⟨hk', a', ha'⟩ := hm'
  cases hc : c.clears with
  | true =>
    rw [(step_clears hs hc).2] at ha
    cases ha
  | false =>
    rcases (step_grows hs hc).2.indicators with e | ⟨k₀, a₀, -, e⟩
    · rw [e, hk] at ha
      cases ha
    · have here : ∀ {k a}, s.market.indicators.get? k = none →
          (s.step c).1.market.indicators.get? k = some a → k₀ = k := fun hk ha => by
        by_contra hne
        rw [e, Roster.get?_insert, if_neg hne, hk] at ha
        cases ha
      exact (here hk ha).symm.trans (here hk' ha')

theorem MadeAt.append (hm : MadeAt cs k n) (hds : ∀ d ∈ ds, d.clears = false) :
    MadeAt (cs ++ ds) k n := by
  obtain ⟨pre, c, post, rfl, hn, hmakes, hpost⟩ := hm
  refine ⟨pre, c, post ++ ds, by simp, hn, hmakes, fun d hd => ?_⟩
  exact (List.mem_append.1 hd).elim (hpost d) (hds d)

/-- Every indicator that is kept was made by a command of the run. -/
theorem exists_madeAt (hk : (run {} cs).market.indicators.get? k = some a) :
    ∃ n, MadeAt cs k n := by
  induction cs using List.reverseRecOn generalizing a with
  | nil => cases hk
  | append_singleton cs c ih =>
    have hs := run_sound sound_empty cs
    rw [run_concat] at hk
    cases hc : c.clears with
    | true =>
      rw [(step_clears hs hc).2] at hk
      cases hk
    | false =>
      cases hold : (run {} cs).market.indicators.get? k with
      | none => exact ⟨_, cs, c, [], rfl, rfl, ⟨hold, a, hk⟩, nofun⟩
      | some a' =>
        obtain ⟨n, hm⟩ := ih hold
        exact ⟨n, hm.append (by simpa using hc)⟩

/-- An indicator that is kept is not made again. -/
theorem MadeAt.not_lt (hm : MadeAt cs k n) (hm' : MadeAt cs k n') : ¬ n < n' := by
  obtain ⟨pre, c, post, rfl, rfl, ⟨-, a, ha⟩, hpost⟩ := hm
  obtain ⟨pre', c', post', e, rfl, ⟨hfree, -⟩, -⟩ := hm'
  intro hlt
  rcases List.append_eq_append_iff.1 e with ⟨l, rfl, hl⟩ | ⟨l, rfl, -⟩
  · cases l with
    | nil => simp at hlt
    | cons d mid =>
      obtain ⟨rfl, rfl⟩ := List.cons.inj hl
      have hs := (run_sound sound_empty (pre ++ [c]))
      have hext := run_extends hs fun d hd => hpost d (List.mem_append_left (c' :: post') hd)
      rw [← run_append, List.append_assoc, List.singleton_append] at hext
      rw [run_concat] at hext
      rw [hext.indicators ha] at hfree
      cases hfree
  · simp only [List.length_append] at hlt
    omega

/-- The indicators of a market are told apart by the commands that made them. -/
theorem MadeAt.inj (hm : MadeAt cs k n) (hm' : MadeAt cs k' n') : n = n' ↔ k = k' := by
  constructor
  · rintro rfl
    obtain ⟨pre, c, post, rfl, hn, hmakes, -⟩ := hm
    obtain ⟨pre', c', post', e, hn', hmakes', -⟩ := hm'
    obtain ⟨rfl, htail⟩ := List.append_inj e (hn.trans hn'.symm)
    obtain ⟨rfl, -⟩ := List.cons.inj htail
    exact hmakes.unique (run_sound sound_empty pre) hmakes'
  · rintro rfl
    exact Nat.le_antisymm (Nat.not_lt.1 (hm'.not_lt hm)) (Nat.not_lt.1 (hm.not_lt hm'))

/-! ### Two calls -/

/-- After the run `cs`, the call `c` gives out the indicator `a` of a kind over the series `t`, and
the command at the position `n` made it. -/
def GivesIndicator (cs : List MarketCommand) (c : MarketCommand) (t : SeriesId)
    (kind : IndicatorKind) (a : Indicator) (n : Nat) : Prop :=
  c.seeksKind t kind ∧ (run {} cs).indicatorOf c = .ok (some a) ∧
    MadeAt (cs ++ [c]) (Indicator.keyOf t.key kind) n

section TwoCalls

variable {pre mid : List MarketCommand} {c₁ c₂ : MarketCommand}

/-- Whatever a call for an indicator gives is an indicator that it asks for. -/
theorem exists_givesIndicator (hr : (run {} pre).indicatorOf c₁ = .ok (some a)) :
    ∃ t kind n, GivesIndicator pre c₁ t kind a n := by
  have hs := run_sound sound_empty pre
  have hc : ∃ t kind, c₁.seeksKind t kind := by
    cases c₁ with
    | indicator i kind => exact ⟨i, kind, rfl, rfl⟩
    | tryIndicator key =>
      exact Market.Sound.exists_kind hs (Except.ok.inj hr)
    | _ => cases hr
  obtain ⟨t, kind, hc⟩ := hc
  obtain ⟨hk, -⟩ := kept_of_indicatorOf hs hc hr
  rw [← run_concat] at hk
  obtain ⟨n, hm⟩ := exists_madeAt hk
  exact ⟨t, kind, n, hc, hr, hm⟩

theorem run_extends_between (hmid : ∀ d ∈ mid, d.clears = false) :
    (run {} (pre ++ [c₁])).market.Extends (run {} (pre ++ c₁ :: mid)).market := by
  have hext := run_extends (run_sound sound_empty (pre ++ [c₁])) hmid
  rwa [← run_append, List.append_assoc, List.singleton_append] at hext

/-- A series that was given is kept as long as nothing is shut down. -/
theorem Gives.kept_between (hmid : ∀ d ∈ mid, d.clears = false) (hg : (run {} pre).Gives c₁ t o) :
    (run {} (pre ++ c₁ :: mid)).market.series.get? t.key = some ⟨some o⟩ := by
  have hk := hg.kept (run_sound sound_empty pre)
  rw [← run_concat] at hk
  exact (run_extends_between hmid).series hk

theorem MadeAt.until (hmid : ∀ d ∈ mid, d.clears = false) (hc : c₂.clears = false)
    (hm : MadeAt (pre ++ [c₁]) k n) : MadeAt (pre ++ c₁ :: mid ++ [c₂]) k n := by
  have h : MadeAt (pre ++ [c₁] ++ (mid ++ [c₂])) k n := hm.append fun d hd => by
    rcases List.mem_append.1 hd with hd | hd
    · exact hmid d hd
    · rwa [List.mem_singleton.1 hd]
  simpa using h

/-- An indicator that was given is given again as long as nothing is shut down. -/
theorem GivesIndicator.again (hmid : ∀ d ∈ mid, d.clears = false)
    (hg : GivesIndicator pre c₁ t kind a n) (hc : c₂.seeksKind t kind) :
    GivesIndicator (pre ++ c₁ :: mid) c₂ t kind a n := by
  obtain ⟨hc₁, hr, hm⟩ := hg
  obtain ⟨hk, -⟩ := kept_of_indicatorOf (run_sound sound_empty pre) hc₁ hr
  rw [← run_concat] at hk
  have hclears := MarketCommand.clears_of_seeks (MarketCommand.seeks_of_seeksKind hc)
  exact ⟨hc, indicatorOf_of_kept (run_sound sound_empty _) hc
    ((run_extends_between hmid).indicators hk), hm.until hmid hclears⟩

/-- The same command made two indicators that were given if and only if they are of one kind over
one series. -/
theorem GivesIndicator.iff (hmid : ∀ d ∈ mid, d.clears = false) {t' : SeriesId}
    {kind' : IndicatorKind} {a' : Indicator} (hg : GivesIndicator pre c₁ t kind a n)
    (hg' : GivesIndicator (pre ++ c₁ :: mid) c₂ t' kind' a' n') :
    n = n' ↔ t = t' ∧ kind = kind' := by
  have hclears := MarketCommand.clears_of_seeks (MarketCommand.seeks_of_seeksKind hg'.1)
  rw [(hg.2.2.until hmid hclears).inj hg'.2.2]
  constructor
  · intro e
    obtain ⟨hkey, hkind⟩ := Indicator.keyOf_injective e
    exact ⟨SeriesId.key_injective hkey, hkind⟩
  · rintro ⟨rfl, rfl⟩
    rfl

end TwoCalls

/-- A market has one instance for each series and one for each kind of average over a series. Take
any run of market commands and any two calls of it between which nothing is shut down.

A call is answered, and one that makes what is not there gives what it asks for. Whatever it gives
it asks for: the series has exactly the symbol, the timeframe and the applied price of the request,
and the indicator is of the kind of the request and is over that series. The two calls give the same
series if and only if they ask for the same one, and the same indicator, made by one command, if and
only if they ask for the same kind over the same series. What the first call gives the second gives
again if it asks for it: a series made for an indicator is the one that is given later, and the
other way round. -/
theorem one_instance (pre mid : List MarketCommand) (c₁ c₂ : MarketCommand)
    (hmid : ∀ d ∈ mid, d.clears = false) :
    (∀ t, c₁.seeks t →
      ∃ r, (run {} pre).reached c₁ = .ok r ∧ (c₁.opens = true → r ≠ none)) ∧
    (∀ t kind, c₁.seeksKind t kind →
      ∃ r, (run {} pre).indicatorOf c₁ = .ok r ∧ (c₁.opens = true → r ≠ none)) ∧
    (∀ o, (run {} pre).reached c₁ = .ok (some o) → ∃ t, (run {} pre).Gives c₁ t o) ∧
    (∀ t o, (run {} pre).Gives c₁ t o →
      (∃ x, (run {} (pre ++ [c₁])).heap.objects.get? o = some x ∧ x.value.id = t) ∧
        ∀ name ∈ c₁.keptAs, (run {} (pre ++ [c₁])).held.get? name = some ⟨some o⟩) ∧
    (∀ a, (run {} pre).indicatorOf c₁ = .ok (some a) →
      ∃ t kind n, GivesIndicator pre c₁ t kind a n) ∧
    (∀ t kind a n, GivesIndicator pre c₁ t kind a n →
      a.kind = kind ∧ ∃ o, a.source = ⟨some o⟩ ∧ (run {} pre).Gives c₁ t o) ∧
    (∀ t₁ o₁ t₂ o₂, (run {} pre).Gives c₁ t₁ o₁ → (run {} (pre ++ c₁ :: mid)).Gives c₂ t₂ o₂ →
      (o₁ = o₂ ↔ t₁ = t₂)) ∧
    (∀ t₁ kind₁ a₁ n₁ t₂ kind₂ a₂ n₂, GivesIndicator pre c₁ t₁ kind₁ a₁ n₁ →
      GivesIndicator (pre ++ c₁ :: mid) c₂ t₂ kind₂ a₂ n₂ →
      (n₁ = n₂ ↔ t₁ = t₂ ∧ kind₁ = kind₂)) ∧
    (∀ t o, (run {} pre).Gives c₁ t o → c₂.seeks t →
      (run {} (pre ++ c₁ :: mid)).Gives c₂ t o ∨ ∃ key, c₂ = .tryIndicator key ∧
        (run {} (pre ++ c₁ :: mid)).market.tryIndicator key = none) ∧
    (∀ t kind a n, GivesIndicator pre c₁ t kind a n → c₂.seeksKind t kind →
      GivesIndicator (pre ++ c₁ :: mid) c₂ t kind a n) := by
  have hs := run_sound sound_empty pre
  have hs₂ := run_sound sound_empty (pre ++ c₁ :: mid)
  refine ⟨fun t => reached_ok hs, fun t kind => indicatorOf_ok hs, fun o => exists_gives hs,
    fun t o hg => ?_, fun a => exists_givesIndicator, fun t kind a n hg => ?_,
    fun t₁ o₁ t₂ o₂ hg₁ hg₂ => gives_iff hs₂ (hg₁.kept_between hmid) hg₂,
    fun t₁ kind₁ a₁ n₁ t₂ kind₂ a₂ n₂ hg₁ hg₂ => hg₁.iff hmid hg₂, fun t o hg hc => ?_,
    fun t kind a n hg hc => hg.again hmid hc⟩
  · rw [run_concat]
    exact ⟨Market.Sound.id_of_series (step_grows_of_seeks hs hg.1).1 (hg.kept hs),
      fun name hn => hg.held hs hn⟩
  · exact (kept_of_indicatorOf hs hg.1 hg.2.1).2
  · exact (reached_of_kept hs₂ hc (hg.kept_between hmid)).imp (fun hr => ⟨hc, hr⟩) id

/-- A run that opens a series whose symbol looks like the tail of another key. -/
def slashRun : List MarketCommand := [.series none ⟨"A/D1/close", .d1, .closing⟩]

theorem one_instance_slash :
    (run {} slashRun).Gives (.indicator ⟨"A", .d1, .closing⟩ ⟨.sma, 20⟩) ⟨"A", .d1, .closing⟩ 1 ∧
      (run {} (slashRun ++ [.indicator ⟨"A", .d1, .closing⟩ ⟨.sma, 20⟩, .stats])).Gives
        (.series (some "a") ⟨"A", .d1, .closing⟩) ⟨"A", .d1, .closing⟩ 1 := by
  have hg : (run {} slashRun).Gives (.indicator ⟨"A", .d1, .closing⟩ ⟨.sma, 20⟩)
      ⟨"A", .d1, .closing⟩ 1 := ⟨rfl, by decide +kernel⟩
  obtain ⟨-, -, -, -, -, -, -, -, hagain, -⟩ := one_instance slashRun [.stats]
    (.indicator ⟨"A", .d1, .closing⟩ ⟨.sma, 20⟩) (.series (some "a") ⟨"A", .d1, .closing⟩)
    (by decide)
  rcases hagain _ _ hg rfl with hg' | ⟨_, e, -⟩
  · exact ⟨hg, hg'⟩
  · cases e

end MarketSession

end Custody
