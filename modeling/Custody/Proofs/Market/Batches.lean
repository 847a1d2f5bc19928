import Mathlib.Order.Bounds.Basic
import Custody.Proofs.Market.Feeding

/-!
# Bars fed in batches

A series that is fed in batches is the series that is fed all of their bars at once
(`Series.feed_append`, `Series.ofBatches_eq_feed`).  Feeding changes nothing that is stored: it adds
values behind the others (`Series.exists_added`), and the last day is then the greatest of the one
before and of the days of the bars (`Series.lastDate?_feed`), in whatever order they came.  So bars
of days that were all fed before add nothing, and of bars in order of their days the first of each
later day is added (`Series.feed_in_batches`).
-/

namespace Custody

namespace Series

variable {s : Series} {bars : List Bar} {d : Date}

def dates (s : Series) : List Date := s.points.toList.map Prod.fst

def lastDate? (s : Series) : Option Date := s.last?.map Prod.fst

/-- What a new series is after it was fed some batches of bars, one after the other. -/
def ofBatches (symbol : String) (timeframe : Timeframe) (price : AppliedPrice)
    (batches : List (List Bar)) : Series :=
  batches.foldl (fun s bars => (s.feed bars).1) { symbol, timeframe, price }

/-! ### Batches together -/

theorem feed_append (s : Series) (bars bars' : List Bar) : s.feed (bars ++ bars') =
    (((s.feed bars).1.feed bars').1, (s.feed bars).2 + ((s.feed bars).1.feed bars').2) := by
  induction bars generalizing s with
  | nil => simp [feed]
  | cons b bars ih =>
    rw [List.cons_append, feed, feed]
    split
    · simp only [ih, Nat.add_right_comm]
    · exact ih s

theorem foldl_feed (s : Series) (batches : List (List Bar)) :
    batches.foldl (fun s bars => (s.feed bars).1) s = (s.feed batches.flatten).1 := by
  induction batches generalizing s with
  | nil => rfl
  | cons bars batches ih => rw [List.foldl_cons, ih, List.flatten_cons, feed_append]

theorem ofBatches_eq_feed (symbol : String) (timeframe : Timeframe) (price : AppliedPrice)
    (batches : List (List Bar)) : ofBatches symbol timeframe price batches =
      (feed { symbol, timeframe, price } batches.flatten).1 :=
  foldl_feed _ batches

theorem ofBatches_concat (symbol : String) (timeframe : Timeframe) (price : AppliedPrice)
    (batches : List (List Bar)) (bars : List Bar) :
    ofBatches symbol timeframe price (batches ++ [bars]) =
      ((ofBatches symbol timeframe price batches).feed bars).1 := by
  rw [ofBatches, List.foldl_append]
  rfl

theorem ascending_ofBatches (symbol : String) (timeframe : Timeframe) (price : AppliedPrice)
    (batches : List (List Bar)) : (ofBatches symbol timeframe price batches).Ascending := by
  rw [ofBatches_eq_feed]
  apply ascending_feed
  exact List.Pairwise.nil

/-! ### Values added -/

/-- The values that are added stand behind all that were stored before. -/
theorem exists_added (s : Series) (bars : List Bar) :
    ∃ added, (s.feed bars).1 = { s with points := s.points ++ added } ∧
      added.size = (s.feed bars).2 := by
  induction bars generalizing s with
  | nil => exact ⟨#[], by simp [feed]⟩
  | cons b bars ih =>
    rw [feed]
    split
    · obtain ⟨added, hs, hsize⟩ := ih (s.push b)
      refine ⟨#[(b.date, s.price.of b)] ++ added, ?_, ?_⟩
      · show ((s.push b).feed bars).1 = _
        rw [hs, push, ← Array.append_assoc, Array.append_singleton]
      · show _ = ((s.push b).feed bars).2 + 1
        rw [← hsize, Array.size_append, Nat.add_comm]
        rfl
    · exact ih s

theorem price_ofBatches (symbol : String) (timeframe : Timeframe) (price : AppliedPrice)
    (batches : List (List Bar)) : (ofBatches symbol timeframe price batches).price = price := by
  obtain ⟨added, hs, -⟩ := exists_added { symbol, timeframe, price } batches.flatten
  rw [ofBatches_eq_feed, hs]

/-! ### The last day -/

theorem endsBefore_iff : s.EndsBefore d ↔ ∀ e ∈ s.lastDate?, e < d := by
  unfold EndsBefore lastDate?
  cases s.last? <;> simp

/-- A series ends before a day after it was fed some bars if it did so before and every bar is of an
earlier day. -/
theorem endsBefore_feed :
    (s.feed bars).1.EndsBefore d ↔ s.EndsBefore d ∧ ∀ b ∈ bars, b.date < d := by
  induction bars generalizing s with
  | nil => simp [feed]
  | cons b bars ih =>
    rw [feed, List.forall_mem_cons, ← and_assoc]
    split
    · next hb =>
      refine (ih (s := s.push b)).trans (and_congr_left fun _ => ?_)
      rw [endsBefore_push]
      exact ⟨fun hlt => ⟨fun p hp => Date.lt_trans (accepts_iff.1 hb p hp) hlt, hlt⟩, And.right⟩
    · next hb =>
      refine ih.trans (and_congr_left fun _ => (and_iff_left_of_imp fun hs => ?_).symm)
      -- the bar is passed over because of a stored day that is not earlier
      rw [accepts_iff, EndsBefore] at hb
      push Not at hb
      obtain ⟨p, hp, hle⟩ := hb
      exact Int.lt_of_le_of_lt (Date.not_lt.1 hle) (hs p hp)

/-- The days that a series knows of when it is fed some bars: the last one stored and theirs. -/
def Seen (s : Series) (bars : List Bar) : Set Date :=
  {e | s.lastDate? = some e} ∪ {e | ∃ b ∈ bars, b.date = e}

theorem endsBefore_feed_iff_seen :
    (s.feed bars).1.EndsBefore d ↔ ∀ e ∈ s.Seen bars, e < d := by
  rw [endsBefore_feed, endsBefore_iff]
  constructor
  · rintro ⟨hlast, hbars⟩ e (he | ⟨b, hb, rfl⟩)
    · exact hlast e he
    · exact hbars b hb
  · intro h
    exact ⟨fun e he => h e (.inl he), fun b hb => h b.date (.inr ⟨b, hb, rfl⟩)⟩

theorem lastDate?_feed :
    (s.feed bars).1.lastDate? = some d ↔ IsGreatest (s.Seen bars) d := by
  -- the days after the last one are those that come after all that were seen
  have hends (e : Date) := (endsBefore_iff (s := (s.feed bars).1) (d := e)).symm.trans
    (endsBefore_feed_iff_seen (s := s))
  cases hlast : (s.feed bars).1.lastDate? with
  | none =>
    refine iff_of_false nofun fun hd => ?_
    exact d.lt_irrefl ((hends d).1 (by simp [hlast]) d hd.1)
  | some last =>
    have hlast (e : Date) : last < e ↔ ∀ f ∈ s.Seen bars, f < e := by
      rw [← hends e, hlast]
      simp
    have hupper : last ∈ upperBounds (s.Seen bars) := by
      intro e he
      rw [← Date.not_lt, hlast]
      exact fun h => e.lt_irrefl (h e he)
    have hmem : last ∈ s.Seen bars := by
      by_contra hnot
      refine last.lt_irrefl ((hlast last).2 fun e he => ?_)
      exact Date.lt_of_le_of_ne (hupper he) fun heq => hnot (heq ▸ he)
    constructor
    · rintro ⟨⟩
      exact ⟨hmem, hupper⟩
    · intro hd
      exact congrArg some (Date.le_antisymm (hd.2 hmem) (hupper hd.1))

/-! ### Bars fed again -/

/-- A series takes no bar of a day that it was fed a bar of, taken or not. -/
theorem feed_of_seen {bars' : List Bar}
    (h : ∀ c ∈ bars', ∃ b ∈ bars, b.date = c.date) :
    (s.feed bars).1.feed bars' = ((s.feed bars).1, 0) := by
  apply feed_eq_self
  intro c hc
  obtain ⟨b, hb, hdate⟩ := h c hc
  rw [← Bool.not_eq_true, accepts_iff, endsBefore_feed, ← hdate]
  exact fun hends => b.date.lt_irrefl (hends.2 b hb)

/-! ### Bars in order -/

/-- Of bars in order, what is added is the first of every day after the last one stored. -/
theorem mem_added_iff (hs : s.Ascending) {added : Array (Date × Float)}
    (hadded : (s.feed bars).1 = { s with points := s.points ++ added })
    (hbars : bars.Pairwise fun b c => b.date ≤ c.date) {v : Float} :
    (d, v) ∈ added ↔
      s.EndsBefore d ∧ ∃ b, bars.find? (·.date = d) = some b ∧ v = s.price.of b := by
  have hall := mem_feed_iff (s := s) (d := d) (v := v) hbars
  rw [hadded, Array.mem_append] at hall
  have hnew : (d, v) ∈ added → (d, v) ∉ s.points := by
    intro hv hold
    have hasc := ascending_feed hs bars
    rw [Ascending, hadded, Array.toList_append, List.pairwise_append] at hasc
    exact d.lt_irrefl (hasc.2.2 _ hold.val _ hv.val)
  have hlater : s.EndsBefore d → (d, v) ∉ s.points := by
    intro hends hold
    exact d.lt_irrefl (hs.lt_of_endsBefore hends _ hold.val)
  constructor
  · intro hv
    exact (hall.1 (.inr hv)).resolve_left (hnew hv)
  · intro hv
    exact (hall.2 (.inr hv)).resolve_left (hlater hv.1)

/-- Of any bars fed to a series in batches.  All days are in order and each has its value; more bars
may come in one batch or in two.  Feeding keeps what is stored, adds as many values as it says, and
makes the greatest day seen the last one; bars of days that were all fed before add nothing, and of
bars in order the first of each later day is added. -/
theorem feed_in_batches (symbol : String) (timeframe : Timeframe) (price : AppliedPrice)
    (batches : List (List Bar)) (xs ys : List Bar) :
    let s := ofBatches symbol timeframe price batches
    s.dates.length = s.values.length ∧ s.dates.Pairwise (· < ·) ∧
    s.feed (xs ++ ys) =
      (((s.feed xs).1.feed ys).1, (s.feed xs).2 + ((s.feed xs).1.feed ys).2) ∧
    (∃ added, (s.feed xs).1 = { s with points := s.points ++ added } ∧
      added.size = (s.feed xs).2 ∧
      ((xs.Pairwise fun b c => b.date ≤ c.date) →
        (added.toList.map Prod.fst).Pairwise (· < ·) ∧
        ∀ d v, (d, v) ∈ added ↔
          (∀ e ∈ s.lastDate?, e < d) ∧
            ∃ b, xs.find? (·.date = d) = some b ∧ v = price.of b)) ∧
    (∀ d, (s.feed xs).1.lastDate? = some d ↔
      IsGreatest ({e | s.lastDate? = some e} ∪ {e | ∃ b ∈ xs, b.date = e}) d) ∧
    ∀ zs : List Bar, (∀ c ∈ zs, ∃ bars ∈ xs :: batches, ∃ b ∈ bars, b.date = c.date) →
      (s.feed xs).1.feed zs = ((s.feed xs).1, 0) := by
  intro s
  have hs : s.Ascending := ascending_ofBatches symbol timeframe price batches
  refine ⟨by simp [dates, values], List.pairwise_map.2 hs, feed_append s xs ys, ?_,
    fun d => lastDate?_feed, fun zs hzs => ?_⟩
  · obtain ⟨added, hadded, hsize⟩ := exists_added s xs
    refine ⟨added, hadded, hsize, fun hxs => ⟨?_, fun d v => ?_⟩⟩
    · have hasc := ascending_feed hs xs
      rw [Ascending, hadded, Array.toList_append, List.pairwise_append] at hasc
      exact List.pairwise_map.2 hasc.2.1
    · rw [mem_added_iff hs hadded hxs, endsBefore_iff, price_ofBatches]
  · -- all batches are one feed of a new series
    rw [← ofBatches_concat, ofBatches_eq_feed]
    apply feed_of_seen
    intro c hc
    obtain ⟨bars, hbars, b, hb, hdate⟩ := hzs c hc
    refine ⟨b, List.mem_flatten.2 ⟨bars, ?_, hb⟩, hdate⟩
    exact (List.perm_append_singleton xs batches).mem_iff.2 hbars

/-- A bar of a day in January, with the same price throughout. -/
def levelBar (day : Nat) (h : IsDate 2024 1 day) (level : Float) : Bar where
  code := "A"
  exchange := "X"
  date := ⟨2024, 1, day, h⟩
  opening := level
  high := level
  low := level
  closing := level
  volume := 0

/-- The bar of the second comes too late to be taken, and its day counts as seen all the same. -/
theorem feed_in_batches_unordered :
    let third := levelBar 3 (by decide) 30
    let second := levelBar 2 (by decide) 20
    let fifth := levelBar 5 (by decide) 50
    let other := levelBar 5 (by decide) 51
    let s := ofBatches "A" .d1 .closing [[third, second]]
    (∃ added, (s.feed [second, fifth, other]).1 = { s with points := s.points ++ added } ∧
      (fifth.date, fifth.closing) ∈ added) ∧
    (s.feed [second, fifth, other]).1.feed [other, second, third] =
      ((s.feed [second, fifth, other]).1, 0) := by
  intro third second fifth other s
  obtain ⟨-, -, -, ⟨added, hadded, -, hfirst⟩, -, hagain⟩ :=
    feed_in_batches "A" .d1 .closing [[third, second]] [second, fifth, other] []
  have hlast : s.lastDate? = some third.date := by decide +kernel
  have hfind : [second, fifth, other].find? (·.date = fifth.date) = some fifth := by
    rw [List.find?_cons_of_neg (by decide), List.find?_cons_of_pos (by simp)]
  refine ⟨⟨added, hadded, ((hfirst ?_).2 _ _).2 ⟨?_, fifth, hfind, rfl⟩⟩, hagain _ ?_⟩
  · have hdates : ([second, fifth, other].map Bar.date).Pairwise (· ≤ ·) := by decide
    exact List.pairwise_map.1 hdates
  · show ∀ e ∈ s.lastDate?, e < fifth.date
    rw [hlast]
    rintro _ ⟨⟩
    decide
  · simp only [List.mem_cons]
    rintro c (rfl | rfl | rfl | hc)
    · exact ⟨[second, fifth, other], .inl rfl, other, by simp⟩
    · exact ⟨[second, fifth, other], .inl rfl, second, by simp⟩
    · exact ⟨[third, second], .inr (.inl rfl), third, by simp⟩
    · cases hc

end Series

end Custody
