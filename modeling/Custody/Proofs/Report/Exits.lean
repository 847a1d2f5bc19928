import Custody.Proofs.Mapping
import Custody.Proofs.Report.Writing

/-!
# However a run ends

A run of the pipeline ends in one of many ways: with an error of the port, without any bars, with a
text that the writer refuses, over an average that the build cannot compute, or well.  `Clean b s r`
says that it left what it found: it let go of all that the loading `s` had made, each series and
each indicator once, and of nothing else.  `runOn_clean` says that every run ends so, whatever the
port answers and whatever the writer takes, which runs have written nothing, and which ones do not
return but are unwound.
-/

namespace Custody

open Heap (dropped)
open Average (overflowAt)

namespace Pipeline

variable {σ : Type} {w : Writer σ} {port : Port} {p : LoadPlan} {b h h' : Heap Series}
  {kept pending : List Handle} {s : Loading} {log : List (DropRecord Series)} {out : σ}
  {result : Except Stop LoadSummary} {stats : MarketStats} {mode : Arithmetic}

/-- A run that began on the heap `b` and loaded as far as `s` has left `b` as it was, and dropped
all that the loading made. -/
structure Clean (b : Heap Series) (s : Loading) (r : Outcome σ) : Prop where
  live : r.heap.live = b.live
  objects : ∀ o, r.heap.objects.get? o = b.objects.get? o
  counters : ∀ c, r.heap.counters.get? c = b.counters.get? c
  /-- Every series that was ever made was still there after the loading, -/
  made : ∀ o, b.objects.next ≤ o → o < r.heap.objects.next → ∃ x, s.heap.objects.get? o = some x
  /-- and was dropped after that, once. -/
  series : ∀ o, o ∈ dropped r.log ↔ b.objects.next ≤ o ∧ o < r.heap.objects.next
  series_once : (dropped r.log).Nodup
  /-- So was every indicator that the market kept. -/
  indicators : ∀ a, a ∈ r.closed ↔ ∃ k, s.market.indicators.get? k = some a
  indicators_once : r.closed.Nodup

/-- A run that gives back a summary or an error. -/
def Outcome.Returns (r : Outcome σ) : Prop := ∀ stop, r.result ≠ .error (.overflow stop)

theorem Outcome.returns_of_error {r : Outcome σ} {e : Error} (he : r.result = .error (.error e)) :
    r.Returns := by
  intro stop hstop
  rw [he] at hstop
  cases hstop

/-! ### Letting go -/

/-- Two releases, one after the other. -/
theorem release_release {α : Type} {h : Heap α} {ts us rest : List Handle}
    (hs : h.Sound (ts ++ (us ++ rest))) : ∃ h₁ l₁ h₂ l₂, h.release ts = .ok (h₁, l₁) ∧
      h₁.release us = .ok (h₂, l₂) ∧ h.release (ts ++ us) = .ok (h₂, l₁ ++ l₂) ∧
      h₁.Sound (us ++ rest) ∧ h₂.Sound rest := by
  obtain ⟨h₁, l₁, e₁, hs₁, -⟩ := hs.release
  obtain ⟨h₂, l₂, e₂, hs₂, -⟩ := hs₁.release
  exact ⟨h₁, l₁, h₂, l₂, e₁, e₂, Heap.release_append e₁ e₂, hs₁, hs₂⟩

theorem clear_empty (h : Heap Series) : ({} : Market).clear h = .ok (h, [], []) := by
  have e : h.release (Roster.handles (.empty : Roster Indicator)) = .ok (h, []) :=
    Heap.release_nil h
  have e' : h.release (Roster.handles (.empty : Roster Strong)) = .ok (h, []) :=
    Heap.release_nil h
  simp only [Market.clear, Roster.releaseAll, e, e', bind, Except.bind]
  rfl

theorem Loading.owner_not_mem (s : Loading) (o : ObjectId) :
    .owner o ∉ s.market.series.handles ++
      (s.market.indicators.handles ++ s.observers.map Handle.weak) := by
  intro hm
  rcases List.mem_append.1 hm with hm | hm
  · obtain ⟨z, e⟩ := Market.strong_of_mem_series hm
    cases e
  · rcases List.mem_append.1 hm with hm | hm
    · obtain ⟨z, e⟩ := Market.strong_of_mem_indicators hm
      cases e
    · simp at hm

/-- A run is clean that let go of the handles of its market and of its observers, in some order. -/
theorem Loading.Built.clean (hs : s.Built b kept) (hb : b.Sound kept)
    (hp : pending.Perm (s.market.series.handles ++
      (s.market.indicators.handles ++ s.observers.map .weak)))
    (e : s.heap.release pending = .ok (h', log)) (out : σ) (result : Except Stop LoadSummary) :
    Clean b s (⟨result, h', out, s.asked, s.market.indicators.values, log⟩ : Outcome σ) := by
  have hs₁ : s.heap.Sound (pending ++ kept) := by
    refine hs.market.heap.perm ?_
    rw [← List.append_assoc, ← List.append_assoc, List.append_assoc _ _ (s.observers.map _)]
    exact hp.symm.append_right kept
  obtain ⟨h₁, log₁, e₁, hs', hnd, hgone, hn, hobj⟩ := hs.market.growth.release hb hs₁
    (fun _ => Iff.rfl) (fun o hm => s.owner_not_mem o (hp.mem_iff.1 hm))
  cases e.symm.trans e₁
  refine ⟨hb.live_eq hs' hobj, hobj, hb.counters_eq hs' hobj, fun o hle hlt => ?_, fun o => ?_, hnd,
    fun a => Roster.mem_values_iff, hs.market.toFiled.nodup_indicators⟩
  · obtain ⟨x, -, hx, -⟩ := hs.market.growth.made o hle (hn ▸ hlt)
    exact ⟨x, hx⟩
  · rw [hgone, hn]

/-- The handles of the market and the observers can be let go in any order. -/
theorem Loading.Built.leave (hs : s.Built b kept) (hb : b.Sound kept) (out : σ)
    (result : Except Stop LoadSummary) : ∃ r, Pipeline.leave s out result = .ok r ∧
      Clean b s r ∧ r.result = result ∧ r.sink = out := by
  have hp : (s.market.series.handles ++ (s.market.indicators.handles ++
      (s.observers.map Handle.weak ++ kept))).Perm (s.observers.map Handle.weak ++
        (s.market.indicators.handles ++ (s.market.series.handles ++ kept))) := by
    refine List.perm_iff_count.2 fun t => ?_
    simp only [List.count_append]
    omega
  obtain ⟨h₁, l₁, e₁, hs₁, -⟩ := (hs.market.heap.perm hp).release
  obtain ⟨h₂, l₂, h₃, l₃, e₂, e₃, e₂₃, -, -⟩ := release_release hs₁
  have e := Heap.release_append e₁ e₂₃
  refine ⟨_, ?_, hs.clean hb ?_ e out result, rfl, rfl⟩
  · simp only [Pipeline.leave, Loading.release, e₁, Loading.shutdown, Market.clear,
      Roster.releaseAll, e₂, e₃, hs.log, hs.closed, bind, Except.bind, List.nil_append]
  · refine List.perm_iff_count.2 fun t => ?_
    simp only [List.count_append]
    omega

/-! ### The shutdown -/

/-- What was observed is gone once the heap has its old objects again. -/
theorem objectExists_eq_false (hb : b.Sound kept) {held : List Handle} (hs : h.Sound held)
    (ho : ∀ o, h.objects.get? o = b.objects.get? o) {c : CounterId} (hm : .watching c ∈ held)
    (hle : b.counters.next ≤ c) : h.objectExists ⟨some c⟩ = .ok false := by
  obtain ⟨k, hk⟩ := Heap.Balanced.bound hs (List.mem_append_left _ hm)
  have hdel : k.deleted = true := by
    rcases Heap.Balanced.allocated hs hk with ⟨o, x, hx, hc⟩ | ⟨-, rfl⟩
    · rw [ho] at hx
      have hlt := Slab.lt_next_of_get? (Heap.Balanced.attached hb hx hc).2
      exact absurd hlt (Nat.not_lt.2 hle)
    · rfl
  simp [Heap.objectExists, Heap.boundTo, Heap.counter_eq_ok_iff.2 hk, hdel, Functor.map, Except.map,
    bind, Except.bind]

/-- The shutdown leaves no series alive, and the run is clean after it. -/
theorem Loading.Built.finish (hs : s.Built b kept) (hb : b.Sound kept) (w : Writer σ)
    (stats : MarketStats) (out : σ) : ∃ r, Pipeline.finish w stats s out = .ok r ∧ Clean b s r ∧
      r.sink = (w.write out
        (farewell s.market.indicators.size s.market.series.size 0)).1 ∧
      r.result = match (w.write out
          (farewell s.market.indicators.size s.market.series.size 0)).2 with
        | some reason => .error (.refused reason)
        | none => .ok ⟨stats.series, stats.indicators, s.added, s.skipped, 0⟩ := by
  have hp : (s.market.series.handles ++ (s.market.indicators.handles ++
      (s.observers.map Handle.weak ++ kept))).Perm ((s.market.indicators.handles ++
        s.market.series.handles) ++ (s.observers.map Handle.weak ++ kept)) := by
    rw [← List.append_assoc]
    exact List.perm_append_comm.append_right _
  have hs₀ := hs.market.heap.perm hp
  have hs₁ := hs₀
  rw [List.append_assoc] at hs₁
  obtain ⟨h₁, l₁, h₂, l₂, e₁, e₂, e₁₂, -, hs₂⟩ := release_release hs₁
  -- when the market is gone the old objects are left, whatever the observers watch
  have hold : ∀ o, h₂.objects.get? o = b.objects.get? o := by
    obtain ⟨h', log, e, -, -, -, -, ho⟩ := hs.market.growth.release hb hs₀ (fun o => by simp)
      fun o hm => s.owner_not_mem o (by
        rw [← List.append_assoc]
        exact List.mem_append_left _ (List.perm_append_comm.mem_iff.1 hm))
    cases e₁₂.symm.trans e
    exact ho
  have hseen : s.observers.mapM h₂.objectExists = .ok (s.observers.map fun _ => false) := by
    refine mapM_eq_map fun z hz => ?_
    obtain ⟨c, rfl, hle⟩ := hs.observers z hz
    exact objectExists_eq_false hb hs₂ hold
      (List.mem_append_left _ (List.mem_map_of_mem hz)) hle
  have halive : (s.observers.map fun _ => false).count true = 0 :=
    List.count_eq_zero.2 (by simp)
  obtain ⟨h₃, l₃, e₃, -⟩ := hs₂.release
  have e := Heap.release_append e₁₂ e₃
  -- both ways out let go of the observers only, for the market is empty
  have hleave : ∀ out result, Pipeline.leave
      { s with heap := h₂, market := {}, closed := s.market.indicators.values, log := l₁ ++ l₂ }
      out result = .ok (⟨result, h₃, out, s.asked, s.market.indicators.values,
        l₁ ++ l₂ ++ l₃⟩ : Outcome σ) := fun out result => by
    simp only [Pipeline.leave, Loading.release, e₃, Loading.shutdown, clear_empty, bind,
      Except.bind, List.append_nil]
  have hperm : ((s.market.indicators.handles ++ s.market.series.handles) ++
      s.observers.map Handle.weak).Perm (s.market.series.handles ++
        (s.market.indicators.handles ++ s.observers.map Handle.weak)) := by
    rw [← List.append_assoc]
    exact List.perm_append_comm.append_right _
  have hclean := fun out result => hs.clean hb hperm e (σ := σ) out result
  simp only [Pipeline.finish, Loading.shutdown, Market.clear, Roster.releaseAll, e₁, e₂, hseen,
    halive, hs.log, hs.closed, bind, Except.bind, List.nil_append]
  split
  · next hw =>
    rw [hleave]
    exact ⟨_, rfl, hclean _ _, by rw [hw], by rw [hw]⟩
  · next hw =>
    rw [hleave]
    exact ⟨_, rfl, hclean _ _, by rw [hw], by rw [hw]⟩

/-! ### The report -/

/-- The texts of a table and the line about the shutdown. -/
def Loading.report (s : Loading) (ts : List String) : List String :=
  ts ++ [farewell s.market.indicators.size s.market.series.size 0]

theorem Loading.Built.present (hs : s.Built b kept) (hb : b.Sound kept) (w : Writer σ) (out : σ)
    {ts : List String}
    (hts : List.Forall₂ (Puts w s) (table mode w s.market (s.market.stats s.heap)) ts) :
    ∃ r, Pipeline.present mode w s out = .ok r ∧ Clean b s r ∧
      r.sink = (w.writeAll out (s.report ts)).1 ∧
      r.result = match (w.writeAll out (s.report ts)).2 with
        | some reason => .error (.refused reason)
        | none =>
          .ok ⟨s.market.series.size, s.market.indicators.size, s.added, s.skipped, 0⟩ := by
  rw [Pipeline.present, inOrder_puts hts out]
  cases hw : (w.writeAll out ts).2 with
  | some reason =>
    obtain ⟨r, e, hr, hres, hsink⟩ :=
      hs.leave hb (w.writeAll out ts).1 (.error (.refused reason))
    have hall := Writer.writeAll_append_of_some hw
      [farewell s.market.indicators.size s.market.series.size 0]
    refine ⟨r, ?_, hr, ?_, ?_⟩
    · simpa only [bind, Except.bind, hw, Option.map_some] using e
    · rw [Loading.report, hall, hsink]
    · rw [Loading.report, hall, hres, hw]
  | none =>
    obtain ⟨r, e, hr, hsink, hres⟩ :=
      hs.finish hb w (s.market.stats s.heap) (w.writeAll out ts).1
    have hall := Writer.writeAll_append_of_none hw
      [farewell s.market.indicators.size s.market.series.size 0]
    refine ⟨r, ?_, hr, ?_, ?_⟩
    · simpa only [bind, Except.bind, hw, Option.map_none] using e
    · rw [Loading.report, hall, hsink, Writer.writeAll_singleton]
    · rw [Loading.report, hall, hres, Writer.writeAll_singleton]
      rfl

/-- A run that is stopped in the table is clean after it is unwound. A text may be refused before. -/
theorem Loading.Built.present_stops (hs : s.Built b kept) (hb : b.Sound kept) (w : Writer σ)
    (out : σ) {f : Part σ} {fs gs : List (Part σ)} {ts : List String} {stop : Overflow}
    (htable : table mode w s.market (s.market.stats s.heap) = fs ++ f :: gs)
    (hts : List.Forall₂ (Puts w s) fs ts) (hf : Stops s f stop) :
    ∃ r, Pipeline.present mode w s out = .ok r ∧ Clean b s r ∧
      r.sink = (w.writeAll out ts).1 ∧
      r.result = match (w.writeAll out ts).2 with
        | some reason => .error (.refused reason)
        | none => .error (.overflow stop) := by
  obtain ⟨r, e, hr, hres, hsink⟩ := hs.leave hb (w.writeAll out ts).1
    (.error (((w.writeAll out ts).2.map .refused).getD (.overflow stop)))
  refine ⟨r, ?_, hr, hsink, ?_⟩
  · rw [Pipeline.present, htable, inOrder_stops hts hf]
    exact e
  · rw [hres]
    cases (w.writeAll out ts).2 <;> rfl

/-- An error of a run that has given some texts to its writer and would not end in an error after
them is a refusal of the writer. -/
theorem refusal_of_error {r : Outcome σ} {ts : List String} {e : Error}
    (hsink : r.sink = (w.writeAll out ts).1)
    (hres : r.result = match (w.writeAll out ts).2 with
      | some reason => .error (.refused reason)
      | none => result)
    (hresult : ∀ e, result ≠ .error (.error e)) (he : r.result = .error (.error e)) :
    ∃ ts reason, w.writeAll out ts = (r.sink, some reason) ∧ e = .io reason := by
  cases hw : (w.writeAll out ts).2 with
  | none =>
    rw [hres, hw] at he
    exact absurd he (hresult e)
  | some reason =>
    rw [hres, hw] at he
    cases he
    exact ⟨ts, reason, Prod.ext hsink.symm hw, rfl⟩

/-- However the report ends, the run is clean after it. It ends in the middle only over a kind that
the build does not compute, and then it comes to no summary. -/
theorem Loading.Built.present_ends (hs : s.Built b kept) (hb : b.Sound kept) (mode : Arithmetic)
    (w : Writer σ) (out : σ) : ∃ r, Pipeline.present mode w s out = .ok r ∧ Clean b s r ∧
      (∀ e, r.result = .error (.error e) →
        ∃ ts reason, w.writeAll out ts = (r.sink, some reason) ∧ e = .io reason) ∧
      (r.Returns ∨ ∃ k kind, s.market.kindAt k = some kind ∧ ¬kind.Fits mode ∧
        r.result = .error (.overflow (overflowAt kind.period))) ∧
      ((∃ f ∈ table mode w s.market (s.market.stats s.heap), ∃ stop, Stops s f stop) →
        (∃ e, r.result = .error e) ∧ (w.TakesAll → ¬r.Returns)) := by
  obtain ⟨ts, hts⟩ | ⟨fs, f, gs, ts, stop, htable, hts, hf, k, kind, hk, hfit, rfl⟩ :=
    hs.puts_or_stops hb mode w (s.market.stats s.heap)
  · obtain ⟨r, e, hr, hsink, hres⟩ := hs.present hb w out hts
    have hnone : ¬∃ f ∈ table mode w s.market (s.market.stats s.heap), ∃ stop, Stops s f stop := by
      rintro ⟨f, hmem, stop, hstops⟩
      obtain ⟨t, ht⟩ := exists_puts_of_mem hts hmem
      exact ht.not_stops out hstops
    refine ⟨r, e, hr, fun err => refusal_of_error hsink hres nofun, .inl fun stop he => ?_,
      fun h => absurd h hnone⟩
    rw [hres] at he
    split at he <;> cases he
  · obtain ⟨r, e, hr, hsink, hres⟩ := hs.present_stops hb w out htable hts hf
    refine ⟨r, e, hr, fun err => refusal_of_error hsink hres nofun, ?_, fun _ => ?_⟩
    · cases hw : (w.writeAll out ts).2 with
      | none =>
        rw [hw] at hres
        exact .inr ⟨k, kind, hk, hfit, hres⟩
      | some reason =>
        rw [hw] at hres
        exact .inl (Outcome.returns_of_error hres)
    · constructor
      · cases hw : (w.writeAll out ts).2 with
        | none => exact ⟨_, by rw [hres, hw]⟩
        | some reason => exact ⟨_, by rw [hres, hw]⟩
      · intro hw hret
        rw [hw.writeAll] at hres
        exact hret _ hres

/-! ### Runs -/

/-- How a run goes on when the codes were asked for. -/
theorem runOn_eq (mode : Arithmetic) (w : Writer σ) (out : σ) {failed : Option Error} :
    ({ heap := b } : Loading).addCodes p port p.codes = .ok (s, failed) →
      runOn mode w port b p out = match failed with
        | some err => leave s out (.error (.error err))
        | none =>
          if s.market.series.size = 0 then
            leave s out (.error (.error (.noData (String.intercalate "," p.codes) p.exchange)))
          else present mode w s out := by
  intro e
  unfold runOn
  rw [e]
  cases failed <;> rfl

/-- Every run ends and leaves what it found. Take a heap whose books are right, whatever is held on
it, any plan, any port, any writer and a build of either arithmetic.

The run comes to an outcome. After it there are as many counters as before, and the objects and the
counters are the same as before; every series that the run made was dropped, once, and so was every
indicator, and none of them before the loading was over. If the port fails, the outcome is the first
failure in the order of the codes, and if it does not and gives no bars, the outcome says so; in
either case nothing was given to the writer. Whenever the outcome is an error, nothing was given to
the writer, or it refused a text and the error says why.

The run returns, unless the build checks its arithmetic, the plan has a weighted average whose
period is too large, the port does not fail and gives some bars. Then the run is unwound over that
average, or the writer has refused a text before. -/
theorem runOn_clean (mode : Arithmetic) (w : Writer σ) (port : Port) (p : LoadPlan) (out : σ)
    (hb : b.Sound kept) :
    ∃ r s, runOn mode w port b p out = .ok r ∧
      ({ heap := b } : Loading).addCodes p port p.codes =
        .ok (s, (answers p port).findSome? failure) ∧
      Clean b s r ∧
      (∀ n s', ({ heap := b } : Loading).addCodes p port (p.codes.take n) = .ok (s', none) →
        s'.market.Extends s.market) ∧
      (∀ e, (answers p port).findSome? failure = some e →
        r.result = .error (.error e) ∧ r.sink = out) ∧
      ((answers p port).findSome? failure = none → (∀ a ∈ answers p port, barsIn a = []) →
        r.result = .error (.error (.noData (String.intercalate "," p.codes) p.exchange)) ∧
          r.sink = out) ∧
      (∀ e, r.result = .error (.error e) → r.sink = out ∨
        ∃ ts reason, w.writeAll out ts = (r.sink, some reason) ∧ e = .io reason) ∧
      (r.Returns ∨ (answers p port).findSome? failure = none ∧
        (∃ a ∈ answers p port, barsIn a ≠ []) ∧
        ∃ k ∈ p.indicators, ¬k.Fits mode ∧ r.result = .error (.overflow (overflowAt k.period))) ∧
      ((answers p port).findSome? failure = none → (∃ a ∈ answers p port, barsIn a ≠ []) →
        (∃ k ∈ p.indicators, ¬k.Fits mode) → w.TakesAll → ¬r.Returns) := by
  have hstart := Loading.Built.start hb
  obtain ⟨s, e, hs, -, hnone⟩ := hstart.addCodes p port p.codes
  have hkeep : ∀ n s', ({ heap := b } : Loading).addCodes p port (p.codes.take n) =
      .ok (s', none) → s'.market.Extends s.market := fun n s' e' => hstart.extends_of_take e' e
  obtain ⟨hstock, hsome⟩ := (Loading.Stocked.start p b).addCodes hstart e
  rw [← answers] at e hsome
  cases hf : (answers p port).findSome? failure with
  | some err =>
    obtain ⟨r, e', hr, hres, hsink⟩ := hs.leave hb out (.error (.error err))
    rw [hf] at e
    refine ⟨r, s, (runOn_eq mode w out e).trans e', e, hr, hkeep, fun err' he => ?_, nofun,
      fun _ _ => .inl hsink, .inl (Outcome.returns_of_error hres), nofun⟩
    cases he
    exact ⟨hres, hsink⟩
  | none =>
    rw [hf] at e
    by_cases hz : s.market.series.size = 0
    · obtain ⟨r, e', hr, hres, hsink⟩ := hs.leave hb out
        (.error (.error (.noData (String.intercalate "," p.codes) p.exchange)))
      refine ⟨r, s, (runOn_eq mode w out e).trans ((if_pos hz).trans e'), e, hr, hkeep, nofun,
        fun _ _ => ⟨hres, hsink⟩, fun _ _ => .inl hsink, .inl (Outcome.returns_of_error hres),
        fun _ hbars => ?_⟩
      obtain ⟨k, z, hk⟩ := hsome hf hbars
      exact absurd hz (Roster.size_ne_zero_of_get? hk)
    · obtain ⟨r, e', hr, herr, hret, hstops⟩ := hs.present_ends hb mode w out
      have hbars : ∃ a ∈ answers p port, barsIn a ≠ [] := by
        by_contra hall
        push Not at hall
        exact hz (by rw [hnone hall]; rfl)
      refine ⟨r, s, (runOn_eq mode w out e).trans ((if_neg hz).trans e'), e, hr, hkeep, nofun,
        fun _ hall => ?_, fun err he => .inr (herr err he), hret.imp_right ?_,
        fun _ _ hkind hw => ?_⟩
      · exact absurd (by rw [hnone hall]; rfl) hz
      · rintro ⟨k, kind, hk, hfit, hres⟩
        exact ⟨rfl, hbars, kind, hstock.kind hk, hfit, hres⟩
      · obtain ⟨kind, hmem, hfit⟩ := hkind
        obtain ⟨k, z, hk⟩ := hsome hf hbars
        exact (hstops (hstock.exists_stops hs hk hmem hfit w _)).2 hw

/-- A heap with one series, on which a handle is held. -/
def heldHeap (i : SeriesId) : Heap Series := ({} : Heap Series).adopt i.fresh

theorem sound_heldHeap (i : SeriesId) : (heldHeap i).Sound [.holding 0] :=
  Heap.Sound.adopt Heap.sound_empty rfl

def barOn (d : Date) (code : String) : Bar :=
  { code, exchange := "N", date := d, opening := 1, high := 1, low := 1, closing := 1, volume := 0 }

/-- Two codes, one of them twice, and two kinds, one of them twice. -/
def pairPlan : LoadPlan where
  dataPath := ""
  exchange := "N"
  codes := ["B", "A", "B"]
  start := .first
  stop := .last
  timeframe := .d1
  price := .closing
  indicators := [⟨.sma, 1⟩, ⟨.ema, 2⟩, ⟨.sma, 1⟩]

/-- The port gives a bar for the first code, and fails when it is asked again. -/
theorem runOn_clean_failing : ∃ r,
    runOn .checked Sink.writer
        (fun asked q => if asked.isEmpty then .ok [barOn .first q.code] else .error (.data "gone"))
        (heldHeap ⟨"X", .d1, .closing⟩) pairPlan {} = .ok r ∧
      r.heap.live = 1 ∧ r.result = .error (.error (.data "gone")) ∧ r.sink = {} := by
  obtain ⟨r, s, e, -, hr, -, hfail, -⟩ := runOn_clean .checked Sink.writer
    (fun asked q => if asked.isEmpty then .ok [barOn .first q.code] else .error (.data "gone"))
    pairPlan {} (sound_heldHeap _)
  obtain ⟨hres, hsink⟩ := hfail (.data "gone") rfl
  exact ⟨r, e, hr.live, hres, hsink⟩

/-- One code, and a weighted average over `2 ^ 32` values. -/
def widePlan : LoadPlan := { pairPlan with codes := ["A"], indicators := [⟨.wma, 2 ^ 32⟩] }

/-- Not every run returns: over one bar, a build that checks its arithmetic cannot multiply the
period with the next number. -/
theorem not_runOn_returns :
    ¬∀ (mode : Arithmetic) (port : Port) (p : LoadPlan), ∃ r,
      runOn mode Sink.writer port {} p {} = .ok r ∧ r.Returns := by
  intro h
  obtain ⟨r, e, hr⟩ := h .checked (fun _ q => .ok [barOn .first q.code]) widePlan
  have hrun : (runOn .checked Sink.writer (fun _ q => .ok [barOn .first q.code]) {} widePlan
      {}).toOption.map (fun r => match r.result with
        | .error stop => some stop
        | .ok _ => none) = some (some (.overflow .multiply)) := by
    decide +kernel
  rw [e] at hrun
  cases hres : r.result with
  | ok sum =>
    rw [Except.toOption, Option.map_some, hres] at hrun
    cases hrun
  | error stop =>
    rw [Except.toOption, Option.map_some, hres] at hrun
    obtain rfl := Option.some.inj (Option.some.inj hrun)
    exact hr _ hres

end Pipeline

end Custody
