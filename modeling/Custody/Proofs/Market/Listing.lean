import Mathlib.Data.List.Nodup
import Mathlib.Data.String.Basic
import Custody.Proofs.Files.Paths
import Custody.Proofs.Market.Ranges

/-!
# Listed codes

The codes that a folder lists for an exchange are those under which the bars of the exchange can be
asked for: a code is listed exactly if its price file is there (`listCodes_fetchBars`).  The name of
a price file is built from a code and an exchange in one place and taken apart in another, and
`codeOfFile?_eq_some_iff` says that the two undo each other, whatever stands in the code and in the
exchange.
-/

namespace Custody

variable {disk : Disk} {folder code exchange name : String} {names l : List String} {q : Query}

/-! ### Names of price files -/

namespace PriceFile

theorem toList_suffix (exchange : String) :
    (suffix exchange).toList = '_' :: (exchange.toList ++ ".csv".toList) := by
  rw [suffix, String.toList_append, String.toList_append]
  rfl

theorem namePart_suffix_iff : NamePart (suffix exchange) ↔ NamePart exchange := by
  have hleft : NamePart "_" := ⟨by decide, by decide⟩
  have hright : NamePart ".csv" := ⟨by decide, by decide⟩
  rw [suffix, namePart_append_iff, namePart_append_iff, and_iff_left hright, and_iff_right hleft]

/-- The name of a price file ends in a letter, so it is no name for a folder by way of dots. -/
theorem plainName (h : NamePart (code ++ suffix exchange)) :
    PlainName (code ++ suffix exchange) := by
  have hlast : (code ++ suffix exchange).toList.getLast? = some 'v' := by
    rw [String.toList_append, toList_suffix, List.getLast?_append, List.getLast?_cons,
      List.getLast?_append]
    rfl
  have hne (s : String) (hs : s.toList.getLast? ≠ some 'v') : code ++ suffix exchange ≠ s :=
    fun e => hs (e ▸ hlast)
  exact ⟨h, hne _ (by decide), hne _ (by decide), hne _ (by decide)⟩

end PriceFile

open PriceFile

/-- The code of a file name is what the name of the price file was built from. -/
theorem codeOfFile?_eq_some_iff :
    codeOfFile? exchange name = some code ↔ name = code ++ suffix exchange := by
  simp only [codeOfFile?, Option.map_eq_some_iff, Text.dropTail?_eq_some_iff]
  constructor
  · rintro ⟨cs, hcs, rfl⟩
    rw [← String.toList_inj, hcs, String.toList_append, String.toList_ofList]
  · rintro rfl
    exact ⟨code.toList, String.toList_append .., String.ofList_toList⟩

/-! ### Lists without repetitions -/

theorem nodup_eraseDups {α : Type} [BEq α] [LawfulBEq α] : ∀ l : List α, l.eraseDups.Nodup
  | [] => List.nodup_nil
  | a :: l => by
    rw [List.eraseDups_cons, List.nodup_cons]
    exact ⟨by simp [List.mem_eraseDups], nodup_eraseDups (l.filter fun b => !b == a)⟩
termination_by l => l.length
decreasing_by exact Nat.lt_succ_of_le (List.length_filter_le ..)

theorem nodup_list {t : FileTree} (h : t.disk.list folder = .ok names) : names.Nodup := by
  obtain ⟨-, b, -, -, rfl⟩ := FileTree.list_eq_ok_iff.1 h
  exact nodup_eraseDups _

/-! ### Listing -/

theorem listCodes_eq_ok_iff : listCodes disk folder exchange = .ok l ↔
    ∃ names, disk.list folder = .ok names ∧
      l = (names.filterMap (codeOfFile? exchange)).mergeSort fun a b => decide (a ≤ b) := by
  unfold listCodes
  cases disk.list folder <;> simp [eq_comm]

theorem mem_sorted_iff : code ∈ (names.filterMap (codeOfFile? exchange)).mergeSort
    (fun a b => decide (a ≤ b)) ↔ code ++ suffix exchange ∈ names := by
  simp [List.mem_mergeSort, codeOfFile?_eq_some_iff]

/-- Different names give different codes, so codes in order are in strict order. -/
theorem pairwise_lt_sorted (h : names.Nodup) :
    ((names.filterMap (codeOfFile? exchange)).mergeSort fun a b => decide (a ≤ b)).Pairwise
      (· < ·) := by
  have hcodes : (names.filterMap (codeOfFile? exchange)).Nodup :=
    List.Nodup.filterMap (fun a a' c ha ha' =>
      (codeOfFile?_eq_some_iff.1 ha).trans (codeOfFile?_eq_some_iff.1 ha').symm) h
  have hle := @List.pairwise_mergeSort _ (fun a b : String => decide (a ≤ b))
    (fun a b c hab hbc => decide_eq_true
      (String.le_trans (of_decide_eq_true hab) (of_decide_eq_true hbc)))
    (fun a b => by simpa using String.le_total a b) (names.filterMap (codeOfFile? exchange))
  have hne := (List.mergeSort_perm _ fun a b => decide (a ≤ b)).nodup_iff.2 hcodes
  exact (hle.and hne).imp fun h => lt_of_le_of_ne (of_decide_eq_true h.1) h.2

/-! ### Fetching -/

namespace PriceFile

theorem column_eq_error {α ε : Type} {read : List Char → Except ε α} {message : ε → String}
    {row : List String} {index : Nat} {heading : String} {e : Error}
    (h : column read message row index heading = .error e) : ∃ reason, e = .data reason := by
  unfold column at h
  split at h
  · exact ⟨_, (Except.error.inj h).symm⟩
  · next t _ =>
    cases hr : read (Text.trim t.toList) with
    | ok a => rw [hr] at h; cases h
    | error e' => rw [hr] at h; exact ⟨_, (Except.error.inj h).symm⟩

theorem dateOf_eq_error {row : List String} {e : Error} (h : dateOf row = .error e) :
    ∃ reason, e = .data reason := by
  unfold dateOf at h
  split at h
  · exact ⟨_, (Except.error.inj h).symm⟩
  · next t _ =>
    cases hr : Date.read (Text.trim t.toList) with
    | ok a => rw [hr] at h; cases h
    | error e' => rw [hr] at h; exact ⟨_, (Except.error.inj h).symm⟩

theorem barOf_eq_error {row : List String} {d : Date} {e : Error} (h : barOf q d row = .error e) :
    ∃ reason, e = .data reason := by
  simp only [barOf, price, bind_eq_error_iff] at h
  rcases h with h | ⟨_, -, h | ⟨_, -, h | ⟨_, -, h | ⟨_, -, h | ⟨_, -, h⟩⟩⟩⟩⟩
  all_goals first | exact column_eq_error h | cases h

/-- Nothing that is wrong with a record is an absence of data. -/
theorem Refuses.data {r : Except Csv.LengthError (List String)} {e : Error} (h : Refuses q r e) :
    ∃ reason, e = .data reason := by
  cases h with
  | record e => exact ⟨_, rfl⟩
  | date h => exact dateOf_eq_error h
  | column _ _ h => exact barOf_eq_error h

end PriceFile

/-- There is no data exactly if the price file is not found. -/
theorem fetchBars_eq_noData_iff : (∃ c e, fetchBars disk folder q = .error (.noData c e)) ↔
    disk.readText (path folder q.code q.exchange) = .error .notFound := by
  simp only [fetchBars]
  split
  · next h => simp [h]
  · next e hne h => simpa [h] using hne
  · next text h =>
    refine iff_of_false ?_ (by simp [h])
    rintro ⟨c, e, he⟩
    obtain ⟨-, r, -, -, -, hr⟩ := readBars_eq_error_iff.1 he
    obtain ⟨reason, hreason⟩ := hr.data
    cases hreason

/-- The codes listed for an exchange are in strict order, and the bars of a code are asked for in
vain exactly if the code is not listed and its price file has no name that is too long: in a tree
without limits, exactly if the code is not listed. -/
theorem listCodes_fetchBars (t : FileTree) (folder exchange : String) (hexchange : NamePart exchange)
    (l : List String) (h : listCodes t.disk folder exchange = .ok l) :
    l.Pairwise (· < ·) ∧ ∀ q : Query, q.exchange = exchange → NamePart q.code →
      ((∃ c e, fetchBars t.disk folder q = .error (.noData c e)) ↔
        q.code ∉ l ∧ ¬ t.TooLong folder (q.code ++ suffix exchange)) ∧
      (t.limits = ⟨none, none⟩ →
        (q.code ∈ l ↔ ∀ c e, fetchBars t.disk folder q ≠ .error (.noData c e))) := by
  obtain ⟨names, hnames, rfl⟩ := listCodes_eq_ok_iff.1 h
  refine ⟨pairwise_lt_sorted (nodup_list hnames), fun q hq hcode => ?_⟩
  subst hq
  have hname : NamePart (q.code ++ suffix q.exchange) :=
    namePart_append_iff.2 ⟨hcode, namePart_suffix_iff.2 hexchange⟩
  have hfetch : (∃ c e, fetchBars t.disk folder q = .error (.noData c e)) ↔
      q.code ++ suffix q.exchange ∉ names ∧ ¬ t.TooLong folder (q.code ++ suffix q.exchange) := by
    rw [fetchBars_eq_noData_iff]
    exact FileTree.readText_joinPath_eq_notFound_iff hnames (plainName hname)
  rw [mem_sorted_iff]
  refine ⟨hfetch, fun hlimits => ?_⟩
  have hshort : ¬ t.TooLong folder (q.code ++ suffix q.exchange) :=
    FileTree.not_tooLong_of_limits hlimits
  simpa [hshort] using (not_congr hfetch).symm

/-- A folder of names that look alike: codes with the separator and the ending of a price file in
them, the empty code, a folder named like a price file, and files of other exchanges. -/
def lookalikeTree : FileTree where
  files := ["A_X.csv", "A_B_X.csv", "_X.csv", ".csv_X.csv", "X_X.csv", "A_X", "A_XX.csv",
    "A_X.csv_"].map fun name => (["d", name], .empty)
  folders := [["d", "D_X.csv"]]
  limits := ⟨none, none⟩

theorem listCodes_fetchBars_lookalike : NamePart "X" ∧
    listCodes lookalikeTree.disk "d" "X" = .ok ["", ".csv", "A", "A_B", "D", "X"] ∧
    (∀ c e, fetchBars lookalikeTree.disk "d" ⟨"", "X", Date.first, Date.last⟩ ≠
      .error (.noData c e)) ∧
    (∀ c e, fetchBars lookalikeTree.disk "d" ⟨"D", "X", Date.first, Date.last⟩ ≠
      .error (.noData c e)) ∧
    ∃ c e, fetchBars lookalikeTree.disk "d" ⟨"B", "X", Date.first, Date.last⟩ =
      .error (.noData c e) := by
  have hexchange : NamePart "X" := ⟨by decide, by decide⟩
  have hlist : listCodes lookalikeTree.disk "d" "X" = .ok ["", ".csv", "A", "A_B", "D", "X"] := by
    obtain ⟨names, hnames, hcodes⟩ : ∃ names, lookalikeTree.disk.list "d" = .ok names ∧
        names.filterMap (codeOfFile? "X") = ["A", "A_B", "", ".csv", "X", "D"] :=
      ⟨_, rfl, by decide +kernel⟩
    exact listCodes_eq_ok_iff.2 ⟨names, hnames, by simp [hcodes, List.mergeSort]⟩
  obtain ⟨-, h⟩ := listCodes_fetchBars lookalikeTree "d" "X" hexchange _ hlist
  have hempty := h ⟨"", "X", Date.first, Date.last⟩ rfl ⟨by decide, by decide⟩
  have hfolder := h ⟨"D", "X", Date.first, Date.last⟩ rfl ⟨by decide, by decide⟩
  have hother := h ⟨"B", "X", Date.first, Date.last⟩ rfl ⟨by decide, by decide⟩
  exact ⟨hexchange, hlist, (hempty.2 rfl).1 (by decide), (hfolder.2 rfl).1 (by decide),
    hother.1.2 ⟨by decide, FileTree.not_tooLong_of_limits rfl⟩⟩

end Custody
