import Custody.Market.PriceFile
import Custody.Proofs.Mapping
import Custody.Proofs.Market.Feeding

/-!
# Series fed from price files

A price file gives its bars in order of their dates, and bars of the same date in the order of its
rows.  So an empty series that is fed them stores one value for each date of the file in the range,
that of the first row with the date (`fetchBars_feed`).  The order of the rows counts only among
rows of the same date, and a second reading of the file adds nothing.
-/

namespace Custody

variable {q q' : Query} {d : Date} {row : List String} {rows : List (List String)} {b : Bar}
  {bs bs' : List Bar}

namespace Query

def Covers (q : Query) (d : Date) : Prop := q.start ≤ d ∧ d ≤ q.stop

theorem not_covers_iff : ¬ q.Covers d ↔ d < q.start ∨ q.stop < d := by
  rw [Covers, not_and_or, ← Date.not_lt, ← Date.not_lt, not_not, not_not]

/-- The same symbol is asked for, and no other days. -/
structure Within (q' q : Query) : Prop where
  code : q'.code = q.code
  exchange : q'.exchange = q.exchange
  start : q.start ≤ q'.start
  stop : q'.stop ≤ q.stop

theorem Within.covers (h : q'.Within q) (hd : q'.Covers d) : q.Covers d :=
  ⟨Date.le_trans h.start hd.1, Date.le_trans hd.2 h.stop⟩

instance (q : Query) (d : Date) : Decidable (q.Covers d) := inferInstanceAs (Decidable (_ ∧ _))

/-- The same symbol is asked for, and every day that is asked for is among those of the other; there
may be none. -/
structure Narrows (q' q : Query) : Prop where
  code : q'.code = q.code
  exchange : q'.exchange = q.exchange
  covers : ∀ d, q'.Covers d → q.Covers d

theorem Within.narrows (h : q'.Within q) : q'.Narrows q := ⟨h.code, h.exchange, fun _ => h.covers⟩

end Query

namespace PriceFile

/-- The rows of a price file, without its header. -/
def rowsOf (s : String) : List (List String) := (Csv.records s.toList).filterMap Except.toOption

def isOn (d : Date) (row : List String) : Bool :=
  match dateOf row with
  | .ok e => decide (e = d)
  | .error _ => false

/-- One text holds the rows of the other, and rows of the same date in the same order. -/
structure Rearranged (s t : String) : Prop where
  perm : (Csv.records t.toList).Perm (Csv.records s.toList)
  order : ∀ d, (rowsOf t).filter (isOn d) = (rowsOf s).filter (isOn d)

/-- A series stores a value for each day asked for on which there is a row, and it is that of the
first such row. -/
structure Gathered (q : Query) (rows : List (List String)) (price : AppliedPrice) (s : Series) :
    Prop where
  ascending : s.Ascending
  days : ∀ d, (∃ v, (d, v) ∈ s.points) ↔ q.Covers d ∧ ∃ row ∈ rows, dateOf row = .ok d
  first : ∀ d v, (d, v) ∈ s.points →
    ∃ row b, rows.find? (isOn d) = some row ∧ barOf q d row = .ok b ∧ v = price.of b

/-! ### One row -/

theorem isOn_iff : isOn d row = true ↔ dateOf row = .ok d := by
  unfold isOn
  split
  · next e h => simp [h]
  · next e h => simp [h]

theorem barOf_asked (h : barOf q d row = .ok b) :
    b.code = q.code ∧ b.exchange = q.exchange ∧ b.date = d := by
  simp only [barOf, bind_eq_ok_iff] at h
  obtain ⟨_, -, _, -, _, -, _, -, _, -, h⟩ := h
  rw [← Except.ok.inj h]
  exact ⟨rfl, rfl, rfl⟩

theorem date_barOf (h : barOf q d row = .ok b) : b.date = d := (barOf_asked h).2.2

/-- Which days are asked for makes no difference to the bar of a row. -/
theorem barOf_narrow (hq : q'.Narrows q) : barOf q' d row = barOf q d row := by
  rw [barOf, hq.code, hq.exchange, barOf]

/-- The bar of a row, if its date is asked for and it can be read. -/
def bar? (q : Query) (row : List String) : Option Bar := (readRow q row).toOption.join

theorem readRow_eq_ok_iff {o : Option Bar} : readRow q row = .ok o ↔
    ∃ d, dateOf row = .ok d ∧
      (¬ q.Covers d ∧ o = none ∨ q.Covers d ∧ ∃ b, barOf q d row = .ok b ∧ o = some b) := by
  rw [readRow, bind_eq_ok_iff]
  refine exists_congr fun d => and_congr_right fun _ => ?_
  by_cases hd : q.Covers d
  · rw [if_neg (by rwa [← Query.not_covers_iff, not_not]), bind_eq_ok_iff]
    simp [hd, eq_comm]
  · rw [if_pos (Query.not_covers_iff.1 hd)]
    simp [hd, eq_comm]

theorem bar?_eq_some_iff :
    bar? q row = some b ↔
      dateOf row = .ok b.date ∧ q.Covers b.date ∧ barOf q b.date row = .ok b := by
  have hread : bar? q row = some b ↔ readRow q row = .ok (some b) := by
    unfold bar?
    cases readRow q row <;> simp [Except.toOption]
  rw [hread, readRow_eq_ok_iff]
  constructor
  · rintro ⟨d, hdate, ⟨-, h⟩ | ⟨hd, c, hc, h⟩⟩
    · cases h
    · obtain rfl := Option.some.inj h
      obtain rfl := date_barOf hc
      exact ⟨hdate, hd, hc⟩
  · rintro ⟨hdate, hd, hb⟩
    exact ⟨b.date, hdate, .inr ⟨hd, b, hb, rfl⟩⟩

theorem bar?_of_readRow {o : Option Bar} (h : readRow q row = .ok o) : bar? q row = o := by
  rw [bar?, h]
  rfl

/-! ### All rows -/

theorem readRows_eq_ok_iff {records : List (Except Csv.LengthError (List String))} :
    readRows q records = .ok bs ↔
      (∀ r ∈ records, ∃ row o, r = .ok row ∧ readRow q row = .ok o) ∧
        bs = (records.filterMap Except.toOption).filterMap (bar? q) := by
  induction records generalizing bs with
  | nil => simp [readRows, eq_comm]
  | cons r records ih =>
    rw [List.forall_mem_cons]
    cases r with
    | error e => simp [readRows]
    | ok row =>
      simp only [readRows, bind_eq_ok_iff, ih]
      constructor
      · rintro ⟨o, ho, _, ⟨hall, rfl⟩, h⟩
        obtain rfl := Except.ok.inj h
        refine ⟨⟨⟨row, o, rfl, ho⟩, hall⟩, ?_⟩
        cases o <;> simp [Except.toOption, bar?_of_readRow ho]
      · rintro ⟨⟨⟨_, o, h, ho⟩, hall⟩, rfl⟩
        obtain rfl := Except.ok.inj h
        refine ⟨o, ho, _, ⟨hall, rfl⟩, ?_⟩
        cases o <;> simp [Except.toOption, bar?_of_readRow ho]

theorem filter_bars (q : Query) (rows : List (List String)) (d : Date) :
    (rows.filterMap (bar? q)).filter (·.date = d) = (rows.filter (isOn d)).filterMap (bar? q) := by
  rw [List.filter_filterMap, List.filterMap_filter]
  refine List.filterMap_congr fun row _ => ?_
  cases hb : bar? q row with
  | none => simp
  | some b =>
    have hdate := (bar?_eq_some_iff.1 hb).1
    by_cases hd : b.date = d
    · simp [hd, isOn_iff.2 (hd ▸ hdate)]
    · have hoff : isOn d row = false := by
        rw [← Bool.not_eq_true, isOn_iff, hdate]
        exact fun e => hd (Except.ok.inj e)
      simp [hd, hoff]

/-- The first bar of a day is that of the first row with its date. -/
theorem find?_bars (hread : ∀ row ∈ rows, ∃ o, readRow q row = .ok o) (hd : q.Covers d) :
    (rows.filterMap (bar? q)).find? (·.date = d) = (rows.find? (isOn d)).bind (bar? q) := by
  rw [← List.head?_filter, ← List.head?_filter, filter_bars]
  cases hrows : rows.filter (isOn d) with
  | nil => rfl
  | cons row rest =>
    have hmem : row ∈ rows.filter (isOn d) := hrows ▸ List.mem_cons_self
    obtain ⟨hm, hon⟩ := List.mem_filter.1 hmem
    obtain ⟨o, ho⟩ := hread row hm
    obtain ⟨d', hdate, ⟨hnot, -⟩ | ⟨-, b, -, rfl⟩⟩ := readRow_eq_ok_iff.1 ho
    · rw [isOn_iff, hdate] at hon
      exact absurd (Except.ok.inj hon ▸ hd) hnot
    · simp [bar?_of_readRow ho]

theorem find?_bars_eq_some_iff (hread : ∀ row ∈ rows, ∃ o, readRow q row = .ok o) :
    (rows.filterMap (bar? q)).find? (·.date = d) = some b ↔
      q.Covers d ∧ ∃ row, rows.find? (isOn d) = some row ∧ barOf q d row = .ok b := by
  by_cases hd : q.Covers d
  · rw [find?_bars hread hd, Option.bind_eq_some_iff, and_iff_right hd]
    refine exists_congr fun row => and_congr_right fun hrow => ?_
    have hdate : dateOf row = .ok d := isOn_iff.1 (List.find?_some hrow)
    rw [bar?_eq_some_iff, hdate]
    constructor
    · rintro ⟨hbd, -, hb⟩
      rwa [← Except.ok.inj hbd] at hb
    · intro hb
      rw [date_barOf hb]
      exact ⟨rfl, hd, hb⟩
  · refine iff_of_false (fun h => hd ?_) fun h => hd h.1
    obtain ⟨row, -, hb⟩ := List.mem_filterMap.1 (List.mem_of_find?_eq_some h)
    have hbd : b.date = d := by simpa using List.find?_some h
    exact hbd ▸ (bar?_eq_some_iff.1 hb).2.1

/-! ### Sorting -/

theorem dated_trans (a b c : Bar) (hab : decide (a.date ≤ b.date) = true)
    (hbc : decide (b.date ≤ c.date) = true) : decide (a.date ≤ c.date) = true :=
  decide_eq_true (Date.le_trans (of_decide_eq_true hab) (of_decide_eq_true hbc))

theorem dated_total (a b : Bar) :
    (decide (a.date ≤ b.date) || decide (b.date ≤ a.date)) = true := by
  simpa using Date.le_total a.date b.date

theorem pairwise_sortBars (bs : List Bar) : (sortBars bs).Pairwise fun b c => b.date ≤ c.date :=
  (List.pairwise_mergeSort dated_trans dated_total bs).imp of_decide_eq_true

/-- Bars of the same date stay in their order. -/
theorem filter_sortBars (bs : List Bar) (d : Date) :
    (sortBars bs).filter (·.date = d) = bs.filter (·.date = d) := by
  have hsame : (bs.filter (·.date = d)).Pairwise fun b c => decide (b.date ≤ c.date) = true := by
    refine List.pairwise_of_forall_mem_list fun b hb c hc => ?_
    have hbd : b.date = d := by simpa using (List.mem_filter.1 hb).2
    have hcd : c.date = d := by simpa using (List.mem_filter.1 hc).2
    rw [hbd, hcd]
    exact decide_eq_true (Int.le_refl _)
  -- sorting keeps a part that is in order already, and loses or adds no bar of the date
  have hsub := (List.sublist_mergeSort dated_trans dated_total hsame List.filter_sublist).filter
    (·.date = d)
  rw [List.filter_filter] at hsub
  simp only [Bool.and_self] at hsub
  have hlen := ((List.mergeSort_perm bs fun a b => decide (a.date ≤ b.date)).filter
    (·.date = d)).length_eq
  exact (hsub.eq_of_length hlen.symm).symm

theorem mem_iff_of_filter_date (h : ∀ d, bs.filter (·.date = d) = bs'.filter (·.date = d)) :
    b ∈ bs ↔ b ∈ bs' := by
  have hb : b ∈ bs.filter (·.date = b.date) ↔ b ∈ bs'.filter (·.date = b.date) := by rw [h]
  simpa using hb

/-- The first of bars in order of their dates has the least date. -/
theorem date_head_le (hbs : (b :: bs).Pairwise fun b c => b.date ≤ c.date) :
    ∀ c ∈ b :: bs, b.date ≤ c.date := by
  intro c hc
  rcases List.mem_cons.1 hc with rfl | hc
  · exact Int.le_refl _
  · exact (List.pairwise_cons.1 hbs).1 c hc

/-- Bars in order of their dates are known from those of each date. -/
theorem eq_of_filter_date (hbs : bs.Pairwise fun b c => b.date ≤ c.date)
    (hbs' : bs'.Pairwise fun b c => b.date ≤ c.date)
    (h : ∀ d, bs.filter (·.date = d) = bs'.filter (·.date = d)) : bs = bs' := by
  induction bs generalizing bs' with
  | nil =>
    refine (List.eq_nil_iff_forall_not_mem.2 fun c hc => ?_).symm
    exact absurd ((mem_iff_of_filter_date h).2 hc) List.not_mem_nil
  | cons b bs ih =>
    cases bs' with
    | nil => exact absurd ((mem_iff_of_filter_date h).1 List.mem_cons_self) List.not_mem_nil
    | cons b' bs' =>
      have hdate : b.date = b'.date := Date.le_antisymm
        (date_head_le hbs b' ((mem_iff_of_filter_date h).2 List.mem_cons_self))
        (date_head_le hbs' b ((mem_iff_of_filter_date h).1 List.mem_cons_self))
      obtain rfl : b = b' := by
        have hhead := h b.date
        rw [List.filter_cons_of_pos (by simp), List.filter_cons_of_pos (by simp [hdate])] at hhead
        exact (List.cons.inj hhead).1
      refine congrArg _ (ih hbs.of_cons hbs'.of_cons fun d => ?_)
      have hd := h d
      simp only [List.filter_cons] at hd
      split at hd
      · exact (List.cons.inj hd).2
      · exact hd

/-! ### Fed to a series -/

/-- The first of sorted bars on a day is the first of the bars on it. -/
theorem find?_sortBars (bs : List Bar) (d : Date) :
    (sortBars bs).find? (·.date = d) = bs.find? (·.date = d) := by
  rw [← List.head?_filter, ← List.head?_filter, filter_sortBars]

theorem readBars_eq_ok_iff {s : String} : readBars q s = .ok bs ↔
    (∀ r ∈ Csv.records s.toList, ∃ row o, r = .ok row ∧ readRow q row = .ok o) ∧
      bs = sortBars ((rowsOf s).filterMap (bar? q)) := by
  rw [readBars, bind_eq_ok_iff]
  constructor
  · rintro ⟨bars, hbars, h⟩
    obtain ⟨hall, rfl⟩ := readRows_eq_ok_iff.1 hbars
    exact ⟨hall, (Except.ok.inj h).symm⟩
  · rintro ⟨hall, rfl⟩
    exact ⟨_, readRows_eq_ok_iff.2 ⟨hall, rfl⟩, rfl⟩

theorem readBars_empty (q : Query) : readBars q "" = .ok [] := by
  have h : readRows q (Csv.records "".toList) = .ok [] := rfl
  simp only [readBars, h, sortBars, List.mergeSort_nil, bind, Except.bind]

theorem readRow_of_mem_rowsOf {s : String}
    (h : ∀ r ∈ Csv.records s.toList, ∃ row o, r = .ok row ∧ readRow q row = .ok o) :
    ∀ row ∈ rowsOf s, ∃ o, readRow q row = .ok o := by
  intro row hrow
  obtain ⟨r, hr, hr'⟩ := List.mem_filterMap.1 hrow
  obtain ⟨row', o, rfl, ho⟩ := h r hr
  obtain rfl := Option.some.inj hr'
  exact ⟨o, ho⟩

/-- An empty series that is fed the bars of a file gathers its rows. -/
theorem gathered_feed {s : Series} (hs : s.points = #[]) {text : String}
    (h : readBars q text = .ok bs) : Gathered q (rowsOf text) s.price (s.feed bs).1 := by
  obtain ⟨hall, rfl⟩ := readBars_eq_ok_iff.1 h
  have hread := readRow_of_mem_rowsOf hall
  have hmem : ∀ d v, (d, v) ∈ (s.feed (sortBars ((rowsOf text).filterMap (bar? q)))).1.points ↔
      ∃ b, (q.Covers d ∧ ∃ row, (rowsOf text).find? (isOn d) = some row ∧ barOf q d row = .ok b) ∧
        v = s.price.of b := by
    intro d v
    have hstart : s.EndsBefore d := by simp [Series.EndsBefore, Series.last?, hs]
    rw [Series.mem_feed_iff (pairwise_sortBars _), find?_sortBars, hs, and_iff_right hstart,
      or_iff_right (Array.not_mem_empty _)]
    simp only [find?_bars_eq_some_iff hread]
  refine ⟨Series.ascending_feed (by simp [Series.Ascending, hs]) _, fun d => ?_, fun d v hv => ?_⟩
  · constructor
    · rintro ⟨v, hv⟩
      obtain ⟨b, ⟨hd, row, hrow, -⟩, -⟩ := (hmem d v).1 hv
      exact ⟨hd, row, List.mem_of_find?_eq_some hrow, isOn_iff.1 (List.find?_some hrow)⟩
    · rintro ⟨hd, row, hm, hdate⟩
      obtain ⟨first, hfirst⟩ := Option.isSome_iff_exists.1
        (List.find?_isSome.2 ⟨row, hm, isOn_iff.2 hdate⟩)
      obtain ⟨o, ho⟩ := hread first (List.mem_of_find?_eq_some hfirst)
      obtain ⟨d', hdate', hcases⟩ := readRow_eq_ok_iff.1 ho
      obtain rfl := Except.ok.inj ((isOn_iff.1 (List.find?_some hfirst)).symm.trans hdate')
      obtain ⟨hnot, -⟩ | ⟨-, b, hb, -⟩ := hcases
      · exact absurd hd hnot
      · exact ⟨_, (hmem d _).2 ⟨b, ⟨hd, first, hfirst, hb⟩, rfl⟩⟩
  · obtain ⟨b, ⟨-, row, hrow, hb⟩, hv⟩ := (hmem d v).1 hv
    exact ⟨row, b, hrow, hb, hv⟩

/-- A file whose rows of each date are in the same order gives the same bars. -/
theorem Rearranged.readBars {s t : String} (hst : Rearranged s t) (h : readBars q s = .ok bs) :
    readBars q t = .ok bs := by
  obtain ⟨hall, rfl⟩ := readBars_eq_ok_iff.1 h
  refine readBars_eq_ok_iff.2 ⟨fun r hr => hall r (hst.perm.mem_iff.1 hr), ?_⟩
  refine eq_of_filter_date (pairwise_sortBars _) (pairwise_sortBars _) fun d => ?_
  rw [filter_sortBars, filter_sortBars, filter_bars, filter_bars, hst.order]

/-! ### Fewer days -/

theorem readRow_narrow (hq : q'.Narrows q) {o : Option Bar} (h : readRow q row = .ok o) :
    readRow q' row = .ok (o.filter fun b => q'.Covers b.date) := by
  obtain ⟨d, hdate, hd⟩ := readRow_eq_ok_iff.1 h
  refine readRow_eq_ok_iff.2 ⟨d, hdate, ?_⟩
  by_cases hd' : q'.Covers d
  · obtain ⟨hnot, -⟩ | ⟨-, b, hb, rfl⟩ := hd
    · exact absurd (hq.covers d hd') hnot
    · refine .inr ⟨hd', b, barOf_narrow hq ▸ hb, ?_⟩
      rw [Option.filter_some, date_barOf hb, decide_eq_true hd', if_pos rfl]
  · refine .inl ⟨hd', ?_⟩
    obtain ⟨-, rfl⟩ | ⟨-, b, hb, rfl⟩ := hd
    · rfl
    · rw [Option.filter_some, date_barOf hb, decide_eq_false hd', if_neg (by decide)]

/-- Sorted bars of which some are taken are those bars sorted. -/
theorem sortBars_filter (bs : List Bar) (p : Bar → Bool) :
    sortBars (bs.filter p) = (sortBars bs).filter p := by
  apply eq_of_filter_date (pairwise_sortBars _) ((pairwise_sortBars bs).filter p)
  intro d
  rw [filter_sortBars, List.filter_comm _ p, List.filter_comm _ p, filter_sortBars]

/-- A file that can be read for some days can be read for fewer, and gives the bars of those. -/
theorem readBars_narrow (hq : q'.Narrows q) {s : String} (h : readBars q s = .ok bs) :
    readBars q' s = .ok (bs.filter fun b => q'.Covers b.date) := by
  obtain ⟨hall, rfl⟩ := readBars_eq_ok_iff.1 h
  refine readBars_eq_ok_iff.2 ⟨fun r hr => ?_, ?_⟩
  · obtain ⟨row, o, rfl, ho⟩ := hall r hr
    exact ⟨row, _, rfl, readRow_narrow hq ho⟩
  · rw [← sortBars_filter, List.filter_filterMap]
    refine congrArg sortBars (List.filterMap_congr fun row hrow => ?_)
    obtain ⟨o, ho⟩ := readRow_of_mem_rowsOf hall row hrow
    rw [bar?_of_readRow ho, bar?_of_readRow (readRow_narrow hq ho)]

theorem readBars_within (hq : q'.Within q) {s : String} (h : readBars q s = .ok bs) :
    ∃ bs', readBars q' s = .ok bs' ∧ ∀ b ∈ bs', b ∈ bs :=
  ⟨_, readBars_narrow hq.narrows h, fun _ hb => List.mem_of_mem_filter hb⟩

end PriceFile

theorem fetchBars_eq_ok_iff {disk : Disk} {folder : String} : fetchBars disk folder q = .ok bs ↔
    ∃ text, disk.readText (PriceFile.path folder q.code q.exchange) = .ok text ∧
      PriceFile.readBars q text = .ok bs := by
  simp only [fetchBars]
  split
  · next h => simp [h]
  · next h => simp [h]
  · next text h => simp [h]

/-- An empty series that is fed from a price file stores one value for each date of the file that
is asked for, in order, that of the first row with the date.  Other orders of the rows, except among
rows of the same date, give the same bars, and reading the file again for no other days adds
nothing. -/
theorem fetchBars_feed {disk : Disk} {folder : String} (h : fetchBars disk folder q = .ok bs)
    {s : Series} (hs : s.points = #[]) :
    ∃ text, disk.readText (PriceFile.path folder q.code q.exchange) = .ok text ∧
      PriceFile.Gathered q (PriceFile.rowsOf text) s.price (s.feed bs).1 ∧
      (∀ disk' text', disk'.readText (PriceFile.path folder q.code q.exchange) = .ok text' →
        PriceFile.Rearranged text text' → fetchBars disk' folder q = .ok bs) ∧
      ∀ q', q'.Within q → ∃ bs', fetchBars disk folder q' = .ok bs' ∧
        (s.feed bs).1.feed bs' = ((s.feed bs).1, 0) := by
  obtain ⟨text, htext, hbars⟩ := fetchBars_eq_ok_iff.1 h
  refine ⟨text, htext, PriceFile.gathered_feed hs hbars, fun disk' text' htext' horder => ?_,
    fun q' hq => ?_⟩
  · exact fetchBars_eq_ok_iff.2 ⟨text', htext', horder.readBars hbars⟩
  · obtain ⟨bs', hbars', hmem⟩ := PriceFile.readBars_within hq hbars
    refine ⟨bs', fetchBars_eq_ok_iff.2 ⟨text, ?_, hbars'⟩, ?_⟩
    · rw [hq.code, hq.exchange, htext]
    · exact Series.feed_eq_self fun b hb => s.not_accepts_of_mem (hmem b hb)

/-- A disk with one price file, in which a date comes twice and the dates are not in order. -/
def unorderedDisk : Disk where
  readText path :=
    if path = "A_X.csv" then
      .ok ("date,open,high,low,close,volume\n2024-01-03,1,2,0,1,10\n2024-01-02,2,3,1,2,20\n" ++
        "2024-01-03,5,6,4,5,50\n2023-12-31,9,9,9,9,90\n")
    else .error .notFound
  list _ := .error .notFolder

def unorderedQuery : Query := ⟨"A", "X", ⟨2024, 1, 1, by decide⟩, Date.last⟩

theorem fetchBars_feed_unordered : ∃ bs text,
    fetchBars unorderedDisk "" unorderedQuery = .ok bs ∧
    unorderedDisk.readText "A_X.csv" = .ok text ∧
    PriceFile.Gathered unorderedQuery (PriceFile.rowsOf text) .closing
      (({ symbol := "A", timeframe := .d1, price := .closing } : Series).feed bs).1 := by
  have hok : (fetchBars unorderedDisk "" unorderedQuery).isOk = true := by decide +kernel
  cases hbs : fetchBars unorderedDisk "" unorderedQuery with
  | error e =>
    rw [hbs] at hok
    cases hok
  | ok bs =>
    obtain ⟨text, htext, hg, -⟩ := fetchBars_feed hbs
      (s := { symbol := "A", timeframe := .d1, price := .closing }) rfl
    exact ⟨bs, text, rfl, htext, hg⟩

end Custody
