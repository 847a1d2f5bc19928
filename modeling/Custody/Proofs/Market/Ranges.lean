import Custody.Proofs.Market.PriceFiles

/-!
# Ranges of dates

Of a price file that can be read for a range of dates, a range inside it gives the bars of its own
days, in the same order (`fetchBars_narrow`).  A reading fails with the error of the first record
that it refuses, and a record whose date can be read and lies outside the range is not refused,
whatever its other columns (`Refuses`).  So a file that cannot be read for some days cannot be read
for more, and rows of other days may be replaced by each other with no effect (`Alike`).
-/

namespace Custody

namespace PriceFile

variable {q : Query} {e : Error} {bs : List Bar} {text text' : String}
  {r r' : Except Csv.LengthError (List String)} {rs : List (Except Csv.LengthError (List String))}

/-- How a record can be refused: it has another number of columns than the header, its date cannot
be read, or it is of a day asked for and one of its other columns cannot be read. -/
inductive Refuses (q : Query) : Except Csv.LengthError (List String) → Error → Prop where
  | record (e : Csv.LengthError) : Refuses q (.error e) (.data ("CSV parse error: " ++ e.message))
  | date {row : List String} {e : Error} (h : dateOf row = .error e) : Refuses q (.ok row) e
  | column {row : List String} {d : Date} {e : Error} (hdate : dateOf row = .ok d)
      (hd : q.Covers d) (h : barOf q d row = .error e) : Refuses q (.ok row) e

/-- The same record, or two rows of days that are not asked for. -/
inductive Alike (q : Query) : Except Csv.LengthError (List String) →
    Except Csv.LengthError (List String) → Prop where
  | same (r : Except Csv.LengthError (List String)) : Alike q r r
  | outside {row row' : List String} {d d' : Date} (h : dateOf row = .ok d) (hd : ¬ q.Covers d)
      (h' : dateOf row' = .ok d') (hd' : ¬ q.Covers d') : Alike q (.ok row) (.ok row')

/-! ### One record -/

/-- Reads a record as `readRows` does. -/
def readRecord (q : Query) : Except Csv.LengthError (List String) → Except Error (Option Bar)
  | .error e => .error (.data ("CSV parse error: " ++ e.message))
  | .ok row => readRow q row

theorem readRecord_eq_error_iff : readRecord q r = .error e ↔ Refuses q r e := by
  constructor
  · intro h
    cases r with
    | error e' =>
      cases h
      exact .record e'
    | ok row =>
      rw [readRecord, readRow, bind_eq_error_iff] at h
      obtain h | ⟨d, hdate, h⟩ := h
      · exact .date h
      · split at h
        · cases h
        · next hd =>
          obtain h | ⟨b, -, h⟩ := bind_eq_error_iff.1 h
          · rw [← Query.not_covers_iff, not_not] at hd
            exact .column hdate hd h
          · cases h
  · rintro (⟨e⟩ | h | ⟨hdate, hd, h⟩)
    · rfl
    · rw [readRecord, readRow, h]
      rfl
    · rw [readRecord, readRow, hdate]
      show (if _ then _ else _) = _
      rw [if_neg (by rwa [← Query.not_covers_iff, not_not]), h]
      rfl

theorem not_refuses_iff : (∀ f, ¬ Refuses q r f) ↔ ∃ o, readRecord q r = .ok o := by
  simp only [← readRecord_eq_error_iff]
  cases readRecord q r <;> simp

theorem Alike.readRecord (h : Alike q r r') : readRecord q r = readRecord q r' := by
  cases h with
  | same => rfl
  | outside h hd h' hd' =>
    have hrow := readRow_eq_ok_iff.2 ⟨_, h, .inl ⟨hd, rfl⟩⟩
    have hrow' := readRow_eq_ok_iff.2 ⟨_, h', .inl ⟨hd', rfl⟩⟩
    exact hrow.trans hrow'.symm

/-! ### All records -/

theorem readRows_eq : readRows q rs = (rs.mapM (readRecord q)).map List.reduceOption := by
  induction rs with
  | nil => rfl
  | cons r rs ih =>
    rw [List.mapM_cons]
    cases r with
    | error e => rfl
    | ok row =>
      rw [readRows, ih, readRecord]
      cases readRow q row with
      | error e => rfl
      | ok o =>
        cases rs.mapM (readRecord q) with
        | error e => rfl
        | ok bs => cases o <;> rfl

/-- A reading fails with the error of the first record that is refused. -/
theorem readBars_eq_error_iff : readBars q text = .error e ↔
    ∃ before r after, Csv.records text.toList = before ++ r :: after ∧
      (∀ s ∈ before, ∀ f, ¬ Refuses q s f) ∧ Refuses q r e := by
  have hmap : readBars q text = .error e ↔
      (Csv.records text.toList).mapM (readRecord q) = .error e := by
    rw [readBars, readRows_eq]
    cases (Csv.records text.toList).mapM (readRecord q) with
    | error f => simp [Except.map, Bind.bind, Except.bind]
    | ok bs => simp [Except.map, Bind.bind, Except.bind]
  rw [hmap, mapM_eq_error_iff]
  simp only [not_refuses_iff, readRecord_eq_error_iff]

theorem readBars_alike
    (h : List.Forall₂ (Alike q) (Csv.records text.toList) (Csv.records text'.toList)) :
    readBars q text = readBars q text' := by
  rw [readBars, readBars, readRows_eq, readRows_eq, mapM_congr (h.imp fun _ _ => Alike.readRecord)]

/-- The bars that are read are those of the symbol and of the days asked for, in order. -/
theorem readBars_asked (h : readBars q text = .ok bs) :
    (∀ b ∈ bs, b.code = q.code ∧ b.exchange = q.exchange ∧ q.Covers b.date) ∧
      bs.Pairwise fun b c => b.date ≤ c.date := by
  obtain ⟨-, rfl⟩ := readBars_eq_ok_iff.1 h
  refine ⟨fun b hb => ?_, pairwise_sortBars _⟩
  rw [sortBars, List.mem_mergeSort] at hb
  obtain ⟨row, -, hb⟩ := List.mem_filterMap.1 hb
  obtain ⟨-, hd, hb⟩ := bar?_eq_some_iff.1 hb
  obtain ⟨hcode, hexchange, -⟩ := barOf_asked hb
  exact ⟨hcode, hexchange, hd⟩

end PriceFile

/-! ### Price files -/

open PriceFile

variable {disk : Disk} {folder : String} {q q' : Query}

theorem fetchBars_of_readText {text : String}
    (h : disk.readText (path folder q.code q.exchange) = .ok text) :
    fetchBars disk folder q = readBars q text := by
  simp only [fetchBars, h]

/-- A range inside another one.  If the wide range can be read, then the narrow one gives the bars
of the wide one on its days, in the same order, and all bars are those of the symbol and of the days
asked for; if the narrow range cannot be read, then neither can the wide one.  A text fails with the
error of the first record refused, and with another row of a day outside the range in the place of
one, whatever is in its other columns, the outcome is the same. -/
theorem fetchBars_narrow (disk : Disk) (folder : String) (q q' : Query) (hq : q'.Narrows q) :
    (∀ bs, fetchBars disk folder q = .ok bs →
      fetchBars disk folder q' = .ok (bs.filter fun b => q'.Covers b.date) ∧
      (∀ b ∈ bs, b.code = q.code ∧ b.exchange = q.exchange ∧ q.Covers b.date) ∧
      bs.Pairwise fun b c => b.date ≤ c.date) ∧
    ((∃ e, fetchBars disk folder q' = .error e) → ∃ e, fetchBars disk folder q = .error e) ∧
    ∀ text, disk.readText (path folder q.code q.exchange) = .ok text →
      (∀ e, fetchBars disk folder q = .error e ↔
        ∃ before r after, Csv.records text.toList = before ++ r :: after ∧
          (∀ s ∈ before, ∀ f, ¬ Refuses q s f) ∧ Refuses q r e) ∧
      ∀ disk' text', disk'.readText (path folder q.code q.exchange) = .ok text' →
        List.Forall₂ (Alike q) (Csv.records text.toList) (Csv.records text'.toList) →
        fetchBars disk' folder q = fetchBars disk folder q := by
  have hwide : ∀ bs, fetchBars disk folder q = .ok bs →
      fetchBars disk folder q' = .ok (bs.filter fun b => q'.Covers b.date) := by
    intro bs hbs
    obtain ⟨text, htext, hread⟩ := fetchBars_eq_ok_iff.1 hbs
    rw [← hq.code, ← hq.exchange] at htext
    exact fetchBars_eq_ok_iff.2 ⟨text, htext, readBars_narrow hq hread⟩
  refine ⟨fun bs hbs => ⟨hwide bs hbs, ?_⟩, fun ⟨e, he⟩ => ?_, fun text htext => ⟨fun e => ?_, ?_⟩⟩
  · obtain ⟨text, -, hread⟩ := fetchBars_eq_ok_iff.1 hbs
    exact readBars_asked hread
  · cases hbs : fetchBars disk folder q with
    | error e => exact ⟨e, rfl⟩
    | ok bs =>
      rw [hwide bs hbs] at he
      cases he
  · rw [fetchBars_of_readText htext, readBars_eq_error_iff]
  · intro disk' text' htext' halike
    rw [fetchBars_of_readText htext, fetchBars_of_readText htext', readBars_alike halike]

/-- The days from the second to the third, where the file of the disk has three bars. -/
def fewerQuery : Query := ⟨"A", "X", ⟨2024, 1, 2, by decide⟩, ⟨2024, 1, 3, by decide⟩⟩

theorem fetchBars_narrow_unordered : fewerQuery.Narrows unorderedQuery ∧
    ∃ bs, fetchBars unorderedDisk "" unorderedQuery = .ok bs ∧
      fetchBars unorderedDisk "" fewerQuery =
        .ok (bs.filter fun b => fewerQuery.Covers b.date) := by
  have hq : fewerQuery.Narrows unorderedQuery :=
    ⟨rfl, rfl, fun d hd => ⟨Date.le_trans (by decide) hd.1, Date.le_trans hd.2 (by decide)⟩⟩
  have hread : (fetchBars unorderedDisk "" unorderedQuery).isOk = true := by decide +kernel
  refine ⟨hq, ?_⟩
  cases hbs : fetchBars unorderedDisk "" unorderedQuery with
  | error e =>
    rw [hbs] at hread
    cases hread
  | ok bs =>
    exact ⟨bs, rfl, ((fetchBars_narrow unorderedDisk "" unorderedQuery fewerQuery hq).1 bs hbs).1⟩

end Custody
