import Custody.Proofs.Market.Holdings
import Custody.Proofs.Market.Overflow
import Custody.Proofs.Report.Loading

/-!
# Writing the table

A part of the report `Puts` a text if all it does is to give the text to the writer: it leaves the
run as it was, whether or not the writer takes the text.  So does the row of a series, although a
handle on the series is held while it is written (`Built.puts_series`); its text shows how many
strong handles there are besides.  Parts in order write their texts up to the first one that is
refused, as `Writer.writeAll` does (`inOrder_puts`).

The row of an indicator `Stops` the run instead if its averages cannot be computed.  So a table is
written as a whole, or up to the first such row (`Built.puts_or_stops`, `inOrder_stops`).
-/

namespace Custody

/-- Writes texts up to the first that is refused. -/
def Writer.writeAll {σ : Type} (w : Writer σ) (out : σ) : List String → σ × Option String
  | [] => (out, none)
  | t :: ts =>
    match w.write out t with
    | (out, none) => w.writeAll out ts
    | (out, some reason) => (out, some reason)

theorem Writer.writeAll_cons_of_none {σ : Type} {w : Writer σ} {out : σ} {t : String}
    (h : (w.write out t).2 = none) (ts : List String) :
    w.writeAll out (t :: ts) = w.writeAll (w.write out t).1 ts := by
  rw [writeAll]
  split
  · next e => rw [e]
  · next e =>
    rw [e] at h
    cases h

theorem Writer.writeAll_cons_of_some {σ : Type} {w : Writer σ} {out : σ} {t reason : String}
    (h : (w.write out t).2 = some reason) (ts : List String) :
    w.writeAll out (t :: ts) = w.write out t := by
  rw [writeAll]
  split
  · next e =>
    rw [e] at h
    cases h
  · next e => rw [e]

theorem Writer.writeAll_append_of_none {σ : Type} {w : Writer σ} {out : σ} {ts : List String}
    (h : (w.writeAll out ts).2 = none) (us : List String) :
    w.writeAll out (ts ++ us) = w.writeAll (w.writeAll out ts).1 us := by
  induction ts generalizing out with
  | nil => rfl
  | cons t ts ih =>
    cases hw : (w.write out t).2 with
    | none =>
      rw [writeAll_cons_of_none hw] at h
      rw [List.cons_append, writeAll_cons_of_none hw, writeAll_cons_of_none hw, ih h]
    | some reason =>
      rw [writeAll_cons_of_some hw, hw] at h
      cases h

theorem Writer.writeAll_append_of_some {σ : Type} {w : Writer σ} {out : σ} {ts : List String}
    {reason : String} (h : (w.writeAll out ts).2 = some reason) (us : List String) :
    w.writeAll out (ts ++ us) = w.writeAll out ts := by
  induction ts generalizing out with
  | nil => cases h
  | cons t ts ih =>
    cases hw : (w.write out t).2 with
    | none =>
      rw [writeAll_cons_of_none hw] at h
      rw [List.cons_append, writeAll_cons_of_none hw, writeAll_cons_of_none hw, ih h]
    | some reason => rw [List.cons_append, writeAll_cons_of_some hw, writeAll_cons_of_some hw]

theorem Writer.writeAll_singleton {σ : Type} (w : Writer σ) (out : σ) (t : String) :
    w.writeAll out [t] = w.write out t := by
  cases hw : (w.write out t).2 with
  | none =>
    rw [writeAll_cons_of_none hw, writeAll, ← hw]
  | some reason => rw [writeAll_cons_of_some hw]

/-- A writer that never refuses a text. -/
def Writer.TakesAll {σ : Type} (w : Writer σ) : Prop := ∀ out t, (w.write out t).2 = none

theorem Writer.TakesAll.writeAll {σ : Type} {w : Writer σ} (hw : w.TakesAll) (out : σ)
    (ts : List String) : (w.writeAll out ts).2 = none := by
  induction ts generalizing out with
  | nil => rfl
  | cons t ts ih =>
    rw [writeAll_cons_of_none (hw out t)]
    exact ih _

namespace Pipeline

open Average (overflowAt)

variable {σ : Type} {w : Writer σ} {s : Loading} {f : Part σ} {fs gs : List (Part σ)} {t k : String}
  {ts : List String} {b : Heap Series} {kept : List Handle} {o : ObjectId} {x : Object Series}
  {a : Indicator} {mode : Arithmetic} {stop : Overflow}

/-! ### Parts in order -/

/-- All that the part `f` of the report does with the run `s` is to give `t` to the writer. -/
def Puts (w : Writer σ) (s : Loading) (f : Part σ) (t : String) : Prop :=
  ∀ out, f s out = .ok ⟨s, (w.write out t).1, (w.write out t).2.map .refused⟩

/-- All that the part `f` of the report does with the run `s` is to stop it. -/
def Stops (s : Loading) (f : Part σ) (stop : Overflow) : Prop :=
  ∀ out, f s out = .ok ⟨s, out, some (.overflow stop)⟩

theorem Puts.not_stops (h : Puts w s f t) (out : σ) : ¬Stops s f stop := by
  intro hf
  have e := Except.ok.inj ((h out).symm.trans (hf out))
  obtain ⟨reason, -, e⟩ := Option.map_eq_some_iff.1 (congrArg Progress.stop e)
  cases e

theorem puts_text (w : Writer σ) (s : Loading) (t : String) : Puts w s (putText w t) t :=
  fun _ => rfl

/-- Parts made from the members of a list give the texts made from them to the writer. -/
theorem puts_map {α : Type} {l : List α} {f : α → Part σ} {g : α → String}
    (h : ∀ a ∈ l, Puts w s (f a) (g a)) : List.Forall₂ (Puts w s) (l.map f) (l.map g) := by
  rw [List.forall₂_map_left_iff, List.forall₂_map_right_iff, List.forall₂_same]
  exact h

theorem exists_puts_of_mem (h : List.Forall₂ (Puts w s) fs ts) (hf : f ∈ fs) :
    ∃ t, Puts w s f t := by
  induction h with
  | nil => cases hf
  | @cons g t gs ts hg _ ih =>
    rcases List.mem_cons.1 hf with rfl | hf
    · exact ⟨t, hg⟩
    · exact ih hf

/-- Parts that write are followed by the others, unless a text is refused. -/
theorem inOrder_append (h : List.Forall₂ (Puts w s) fs ts) (gs : List (Part σ)) (out : σ) :
    inOrder (fs ++ gs) s out = match (w.writeAll out ts).2 with
      | none => inOrder gs s (w.writeAll out ts).1
      | some reason => .ok ⟨s, (w.writeAll out ts).1, some (.refused reason)⟩ := by
  induction h generalizing out with
  | nil => rfl
  | @cons f t fs ts hf _ ih =>
    rw [List.cons_append, inOrder, hf out]
    cases hw : (w.write out t).2 with
    | none =>
      rw [Writer.writeAll_cons_of_none hw, ← ih]
      rfl
    | some reason =>
      rw [Writer.writeAll_cons_of_some hw, hw]
      rfl

theorem inOrder_puts (h : List.Forall₂ (Puts w s) fs ts) (out : σ) :
    inOrder fs s out = .ok ⟨s, (w.writeAll out ts).1, (w.writeAll out ts).2.map .refused⟩ := by
  rw [← List.append_nil fs, inOrder_append h]
  cases (w.writeAll out ts).2 <;> rfl

theorem inOrder_stops (h : List.Forall₂ (Puts w s) fs ts) (hf : Stops s f stop)
    (gs : List (Part σ)) (out : σ) :
    inOrder (fs ++ f :: gs) s out = .ok ⟨s, (w.writeAll out ts).1,
      some (((w.writeAll out ts).2.map .refused).getD (.overflow stop))⟩ := by
  rw [inOrder_append h]
  cases (w.writeAll out ts).2 with
  | none =>
    rw [inOrder, hf]
    rfl
  | some reason => rfl

/-- If every part writes a text or stops the run, all of them write, or all before one that stops
it. -/
theorem puts_or_stops {P : Overflow → Prop}
    (h : ∀ f ∈ fs, (∃ t, Puts w s f t) ∨ ∃ stop, Stops s f stop ∧ P stop) :
    (∃ ts, List.Forall₂ (Puts w s) fs ts) ∨ ∃ gs f hs ts stop, fs = gs ++ f :: hs ∧
      List.Forall₂ (Puts w s) gs ts ∧ Stops s f stop ∧ P stop := by
  induction fs with
  | nil => exact .inl ⟨[], .nil⟩
  | cons f fs ih =>
    obtain ⟨t, ht⟩ | ⟨stop, hf, hp⟩ := h f List.mem_cons_self
    · obtain ⟨ts, hts⟩ | ⟨gs, g, hs, ts, stop, rfl, hts, hg, hp⟩ :=
        ih fun g hg => h g (List.mem_cons_of_mem _ hg)
      · exact .inl ⟨t :: ts, .cons ht hts⟩
      · exact .inr ⟨f :: gs, g, hs, t :: ts, stop, rfl, .cons ht hts, hg, hp⟩
    · exact .inr ⟨[], f, fs, [], stop, rfl, .nil, hf, hp⟩

/-! ### The rows -/

/-- There is no handle on a new series but those of the market. -/
theorem Loading.Built.strongCount (hs : s.Built b kept) (hb : b.Sound kept)
    (hk : s.market.series.get? k = some ⟨some o⟩) :
    s.heap.strongCount ⟨some o⟩ = .ok (1 + s.market.readers o) := by
  have hle := hs.market.new hk
  obtain ⟨y, x, e, hx, -⟩ := hs.market.series hk
  cases e
  obtain ⟨z, c, hz, hc, -, -⟩ := hs.market.growth.made o hle (Slab.lt_next_of_get? hx)
  have hkept : .holding o ∉ kept := fun hm =>
    absurd (Heap.Over.lt_of_mem hb (List.mem_append_left _ hm)) (Nat.not_lt.2 hle)
  have hstored : .holding o ∉ s.heap.stored := fun hm => by
    obtain ⟨q, y, hy, ht⟩ := Heap.mem_stored.1 hm
    have := (hs.market.growth.lt_of_kid hb hy (by simpa [Object.handles] using ht)).2
    exact absurd this (Nat.not_lt.2 hle)
  have hweak : .holding o ∉ s.observers.map Handle.weak := by simp
  rw [hs.market.heap.strongCount_eq hz hc, List.count_append, List.count_append, List.count_append,
    hs.market.toFiled.count_series hk, Market.count_handles_indicators, List.count_eq_zero.2 hkept,
    List.count_eq_zero.2 hstored, List.count_eq_zero.2 hweak]
  rfl

theorem Loading.Built.puts_series (hs : s.Built b kept) (hb : b.Sound kept) (w : Writer σ)
    (hk : s.market.series.get? k = some ⟨some o⟩) (hx : s.heap.objects.get? o = some x) :
    Puts w s (putSeries w k) (seriesLine k x.value (1 + s.market.readers o)) := by
  intro out
  obtain ⟨h, e, ht⟩ := Roster.lend_of_get? hk hs.market.heap
  have hx' : h.objects.get? o = some x := by rw [ht.objects, hx]
  obtain ⟨z, c, hz, hc, -, -⟩ :=
    hs.market.growth.made o (hs.market.new hk) (Slab.lt_next_of_get? hx)
  obtain rfl := Option.some.inj (hx.symm.trans hz)
  have hcount : h.strongCount ⟨some o⟩ = .ok (1 + s.market.readers o + 1) := by
    have e₀ := hs.strongCount hb hk
    rw [hs.market.heap.strongCount_eq hx hc] at e₀
    rw [ht.sound.strongCount_eq hx' hc, Heap.stored_eq_of_objects ht.objects, List.count_cons_self,
      ← Except.ok.inj e₀, Nat.add_right_comm]
  have erel := ht.release hs.market.heap (Market.Sound.mem_of_series hk)
  simp only [putSeries, Market.trySeries, e, Heap.object_eq_ok_iff.2 hx', hcount, Loading.release,
    erel, bind, Except.bind, Nat.add_sub_cancel, List.append_nil]

theorem puts_indicator (w : Writer σ) (hk : s.market.indicators.get? k = some a)
    (ha : a.source = ⟨some o⟩) (hx : s.heap.objects.get? o = some x) (hfit : a.kind.Fits mode) :
    Puts w s (putIndicator mode w k) (indicatorLine k (a.kind.calculate x.value.values)) := by
  intro out
  simp only [putIndicator, Market.tryIndicator, hk, Indicator.values_eq hx ha,
    IndicatorKind.compute_of_fits hfit, bind, Except.bind]
  rfl

theorem stops_indicator (w : Writer σ) (hk : s.market.indicators.get? k = some a)
    (ha : a.source = ⟨some o⟩) (hx : s.heap.objects.get? o = some x) (hfit : ¬a.kind.Fits mode)
    (hv : x.value.values ≠ []) : Stops s (putIndicator mode w k) (overflowAt a.kind.period) := by
  intro out
  simp only [putIndicator, Market.tryIndicator, hk, Indicator.values_eq hx ha,
    IndicatorKind.compute_eq_error_iff.2 ⟨hfit, hv, rfl⟩, bind, Except.bind]

/-- Every part of the table gives some text to the writer, or stops the run over a kind that the
build does not compute. -/
theorem Loading.Built.puts_or_stops (hs : s.Built b kept) (hb : b.Sound kept) (mode : Arithmetic)
    (w : Writer σ) (stats : MarketStats) :
    (∃ ts, List.Forall₂ (Puts w s) (table mode w s.market stats) ts) ∨
      ∃ gs f hs ts stop, table mode w s.market stats = gs ++ f :: hs ∧
        List.Forall₂ (Puts w s) gs ts ∧ Stops s f stop ∧
        ∃ k kind, s.market.kindAt k = some kind ∧ ¬kind.Fits mode ∧
          stop = overflowAt kind.period := by
  refine Pipeline.puts_or_stops fun f hf => ?_
  rw [table, List.cons_append, List.mem_cons, List.mem_append, List.mem_append, List.mem_map,
    List.mem_map, List.mem_singleton] at hf
  rcases hf with rfl | (⟨k, hk, rfl⟩ | ⟨k, hk, rfl⟩) | rfl
  · exact .inl ⟨_, puts_text w s _⟩
  · obtain ⟨z, hz⟩ := Roster.mem_keys_iff.1 hk
    obtain ⟨o, x, rfl, hx, -⟩ := hs.market.series hz
    exact .inl ⟨_, hs.puts_series hb w hz hx⟩
  · obtain ⟨a, ha⟩ := Roster.mem_keys_iff.1 hk
    obtain ⟨key, hkey, -⟩ := hs.market.indicators ha
    obtain ⟨o, x, ho, hx, -⟩ := hs.market.series hkey
    cases hc : a.kind.compute mode x.value.values with
    | ok averages =>
      refine .inl ⟨indicatorLine k averages, fun out => ?_⟩
      simp only [putIndicator, Market.tryIndicator, ha, Indicator.values_eq hx ho, hc, bind,
        Except.bind]
      rfl
    | error stop =>
      obtain ⟨hfit, hv, rfl⟩ := IndicatorKind.compute_eq_error_iff.1 hc
      refine .inr ⟨_, stops_indicator w ha ho hx hfit hv, k, a.kind, ?_, hfit, rfl⟩
      rw [Market.kindAt, ha, Option.map_some]
  · exact .inl ⟨_, puts_text w s _⟩

/-- If there is a kind in the plan that the build does not compute, and a series over which to
compute it, some part of the table stops the run. -/
theorem Loading.Stocked.exists_stops {p : LoadPlan} {kind : IndicatorKind} {z : Strong}
    (ht : s.Stocked p) (hs : s.Built b kept) (hz : s.market.series.get? k = some z)
    (hkind : kind ∈ p.indicators) (hfit : ¬kind.Fits mode) (w : Writer σ) (stats : MarketStats) :
    ∃ f ∈ table mode w s.market stats, ∃ stop, Stops s f stop := by
  obtain ⟨v, hv⟩ := hs.market.toFiled.exists_value_iff.2 ⟨z, hz⟩
  obtain ⟨a, ha, rfl⟩ := Option.map_eq_some_iff.1 (ht.all hv hkind)
  obtain ⟨key, hkey, -⟩ := hs.market.indicators ha
  obtain ⟨o, x, ho, hx, -⟩ := hs.market.series hkey
  have hval : s.market.valueAt s.heap key = some x.value :=
    hs.market.toFiled.valueAt_eq_some_iff.2 ⟨o, x, ho ▸ hkey, hx, rfl⟩
  refine ⟨_, ?_, _, stops_indicator w ha ho hx hfit (ht.values hval)⟩
  have hkeys := List.mem_map_of_mem (f := putIndicator mode w) (Roster.mem_keys_iff.2 ⟨a, ha⟩)
  exact List.mem_append_left _ (List.mem_cons_of_mem _ (List.mem_append_right _ hkeys))

end Pipeline

end Custody
