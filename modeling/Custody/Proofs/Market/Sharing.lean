import Mathlib.Data.List.Sort
import Custody.Proofs.Config.Validity
import Custody.Proofs.Market.Listing

/-!
# Price files that symbols share

The name of a price file is a code and an exchange with a separator between them, and both may hold
separators.  So one name can be that of several symbols: `Query.Overlaps` says when.  Symbols without
slashes have their price files right in the folder, and two of them have the same one exactly if they
are the same or overlap (`priceFiles_shared`); with a slash in a code the file can lie anywhere.
-/

namespace Custody

open PriceFile

variable {t : FileTree} {disk : Disk} {folder text : String} {q q' : Query} {d : Date}
  {row : List String}

namespace Query

/-- The name of the price file of a symbol. -/
def fileName (q : Query) : String := q.code ++ suffix q.exchange

/-- The same symbol is asked for. -/
def SameSymbol (q q' : Query) : Prop := q.code = q'.code ∧ q.exchange = q'.exchange

/-- One of the separators in the exchange may as well stand between code and exchange, and the code
and the exchange of the other symbol are what stands before and behind it. -/
def Overlaps (q q' : Query) : Prop :=
  ∃ w, q'.code = q.code ++ "_" ++ w ∧ q.exchange = w ++ "_" ++ q'.exchange

theorem toList_append_separator (a b : String) :
    (a ++ "_" ++ b).toList = a.toList ++ '_' :: b.toList := by
  rw [String.toList_append, String.toList_append, List.append_assoc]
  rfl

theorem toList_fileName (q : Query) :
    q.fileName.toList = q.code.toList ++ '_' :: (q.exchange.toList ++ ".csv".toList) := by
  rw [fileName, String.toList_append, toList_suffix]

theorem Overlaps.fileName_eq (h : q.Overlaps q') : q.fileName = q'.fileName := by
  obtain ⟨w, hcode, hexchange⟩ := h
  rw [← String.toList_inj, toList_fileName, toList_fileName, hcode, hexchange,
    toList_append_separator, toList_append_separator]
  simp

/-- What is behind a longer code is the end of the exchange. -/
theorem overlaps_of_append {cs : List Char} (hcode : q'.code.toList = q.code.toList ++ cs)
    (h : '_' :: (q.exchange.toList ++ ".csv".toList) =
      cs ++ '_' :: (q'.exchange.toList ++ ".csv".toList)) : q.SameSymbol q' ∨ q.Overlaps q' := by
  cases cs with
  | nil =>
    rw [List.append_nil] at hcode
    have he := List.append_cancel_right (List.cons.inj h).2
    exact .inl ⟨String.toList_inj.1 hcode.symm, String.toList_inj.1 he⟩
  | cons c w =>
    obtain ⟨rfl, hrest⟩ := List.cons.inj h
    have he : q.exchange.toList = w ++ '_' :: q'.exchange.toList := by
      rw [List.append_eq, ← List.cons_append, ← List.append_assoc] at hrest
      exact List.append_cancel_right hrest
    refine .inr ⟨String.ofList w, ?_, ?_⟩
    · rw [← String.toList_inj, toList_append_separator, String.toList_ofList, hcode]
    · rw [← String.toList_inj, toList_append_separator, String.toList_ofList, he]

/-- Price files have the same name exactly if the symbols are the same or overlap. -/
theorem fileName_eq_iff :
    q.fileName = q'.fileName ↔ q.SameSymbol q' ∨ q.Overlaps q' ∨ q'.Overlaps q := by
  constructor
  · intro h
    have h := congrArg String.toList h
    rw [toList_fileName, toList_fileName] at h
    rcases List.append_eq_append_iff.1 h with ⟨cs, hcode, h⟩ | ⟨cs, hcode, h⟩
    · exact (overlaps_of_append hcode h).imp_right .inl
    · rcases overlaps_of_append hcode h with ⟨hc, he⟩ | h
      · exact .inl ⟨hc.symm, he.symm⟩
      · exact .inr (.inr h)
  · rintro (⟨hc, he⟩ | h | h)
    · rw [fileName, hc, he, fileName]
    · exact h.fileName_eq
    · exact h.fileName_eq.symm

/-- An overlap puts a separator and more into the longer exchange. -/
theorem Overlaps.exchange (h : q.Overlaps q') :
    '_' ∈ q.exchange.toList ∧ q.exchange ≠ q'.exchange := by
  obtain ⟨w, -, he⟩ := h
  rw [ne_eq, he, ← String.toList_inj, toList_append_separator]
  refine ⟨List.mem_append_right _ List.mem_cons_self, fun e => ?_⟩
  have := congrArg List.length e
  simp at this
  omega

end Query

/-! ### Bars under another name -/

namespace PriceFile

/-- A bar as one of the symbol of a query. -/
def relabel (q : Query) (b : Bar) : Bar := { b with code := q.code, exchange := q.exchange }

theorem barOf_relabel (q q' : Query) (d : Date) (row : List String) :
    barOf q' d row = (barOf q d row).map (relabel q') := by
  simp only [barOf, Bind.bind, Except.bind]
  split
  · rfl
  split
  · rfl
  split
  · rfl
  split
  · rfl
  split <;> rfl

theorem readRow_relabel (hstart : q'.start = q.start) (hstop : q'.stop = q.stop)
    (row : List String) : readRow q' row = (readRow q row).map (Option.map (relabel q')) := by
  rw [readRow, readRow, hstart, hstop]
  cases dateOf row with
  | error e => rfl
  | ok d =>
    show (if _ then _ else _) = Except.map _ (if _ then _ else _)
    split
    · rfl
    · rw [barOf_relabel q q']
      cases barOf q d row <;> rfl

theorem readRows_relabel (hstart : q'.start = q.start) (hstop : q'.stop = q.stop)
    (rs : List (Except Csv.LengthError (List String))) :
    readRows q' rs = (readRows q rs).map (List.map (relabel q')) := by
  induction rs with
  | nil => rfl
  | cons r rs ih =>
    cases r with
    | error e => rfl
    | ok row =>
      rw [readRows, readRows, readRow_relabel hstart hstop, ih]
      cases readRow q row with
      | error e => rfl
      | ok b =>
        cases readRows q rs with
        | error e => rfl
        | ok bs => cases b <;> rfl

theorem sortBars_relabel (q : Query) (bs : List Bar) :
    sortBars (bs.map (relabel q)) = (sortBars bs).map (relabel q) := by
  rw [sortBars, sortBars]
  exact (List.map_mergeSort (f := relabel q) (r := fun a b => decide (a.date ≤ b.date))
    (s := fun a b => decide (a.date ≤ b.date)) fun _ _ _ _ => rfl).symm

/-- A text gives the same bars for all symbols, but for their labels. -/
theorem readBars_relabel (hstart : q'.start = q.start) (hstop : q'.stop = q.stop) (text : String) :
    readBars q' text = (readBars q text).map (List.map (relabel q')) := by
  rw [readBars, readBars, readRows_relabel hstart hstop]
  cases readRows q (Csv.records text.toList) with
  | error e => rfl
  | ok bs => exact congrArg Except.ok (sortBars_relabel q' bs)

end PriceFile

/-- Bars of a file are asked for under every name of the file alike. -/
theorem fetchBars_relabel (hname : q.fileName = q'.fileName) (hstart : q'.start = q.start)
    (hstop : q'.stop = q.stop) {bs : List Bar} (h : fetchBars disk folder q = .ok bs) :
    fetchBars disk folder q' = .ok (bs.map (relabel q')) := by
  obtain ⟨text, htext, hread⟩ := fetchBars_eq_ok_iff.1 h
  have hpath : path folder q'.code q'.exchange = path folder q.code q.exchange :=
    congrArg (joinPath folder) hname.symm
  rw [fetchBars_of_readText (hpath ▸ htext), readBars_relabel hstart hstop, hread]
  rfl

/-! ### Price files in folders -/

theorem Location.down_inj {p : Location} {name name' : String} :
    p.down name = p.down name' ↔ name = name' := by
  simp [down]

/-- The price file of a symbol without slashes lies right in the folder. -/
theorem locate_path (hq : '/' ∉ q.fileName.toList) {r : Location}
    (h : t.locate (path folder q.code q.exchange) = .ok r) :
    ∃ p, t.base folder = .ok p ∧ r = p.down q.fileName := by
  have hhead : q.fileName.toList.head? ≠ some '/' := fun e => hq (List.mem_of_head? e)
  have hne : q.fileName ≠ "" := by
    rw [ne_eq, ← String.toList_eq_nil_iff, Query.toList_fileName]
    simp
  have hnul := ((FileTree.locate_joinPath_eq_ok_iff hhead hne).1 h).1
  exact FileTree.locate_plain_eq_ok h (plainName ⟨hq, hnul⟩)

theorem mem_listCodes_iff {names l : List String} (hnames : disk.list folder = .ok names)
    (h : listCodes disk folder q.exchange = .ok l) : q.code ∈ l ↔ q.fileName ∈ names := by
  obtain ⟨names', hnames', rfl⟩ := listCodes_eq_ok_iff.1 h
  obtain rfl := Except.ok.inj (hnames.symm.trans hnames')
  exact mem_sorted_iff

/-- Symbols without slashes have their price files right in the folder, and get the bars that stand
there.  Two of them have the same file exactly if they are the same or overlap.  Symbols that
overlap are given the same bars, each under its own label, and where one is listed so is the other;
symbols of one exchange do not overlap, and neither do those of exchanges without separators. -/
theorem priceFiles_shared (t : FileTree) (folder : String) (q q' : Query)
    (hq : '/' ∉ q.fileName.toList) (hq' : '/' ∉ q'.fileName.toList) :
    (∀ r, t.locate (path folder q.code q.exchange) = .ok r →
      ∃ p, t.base folder = .ok p ∧ r = p.down q.fileName) ∧
    (∀ bs, fetchBars t.disk folder q = .ok bs → ∃ p bytes text, t.base folder = .ok p ∧
      t.at? (p.down q.fileName) = some (.file bytes) ∧ decodeText bytes = .ok text ∧
        readBars q text = .ok bs) ∧
    (∀ r r', t.locate (path folder q.code q.exchange) = .ok r →
      t.locate (path folder q'.code q'.exchange) = .ok r' →
        (r = r' ↔ q.SameSymbol q' ∨ q.Overlaps q' ∨ q'.Overlaps q)) ∧
    (∀ name, codeOfFile? q.exchange name = some q.code →
      (codeOfFile? q'.exchange name = some q'.code ↔
        q.SameSymbol q' ∨ q.Overlaps q' ∨ q'.Overlaps q)) ∧
    (q.Overlaps q' ∨ q'.Overlaps q →
      (q'.start = q.start → q'.stop = q.stop → ∀ bs, fetchBars t.disk folder q = .ok bs →
        fetchBars t.disk folder q' = .ok (bs.map (relabel q'))) ∧
      ∀ l l', listCodes t.disk folder q.exchange = .ok l →
        listCodes t.disk folder q'.exchange = .ok l' → (q.code ∈ l ↔ q'.code ∈ l')) ∧
    (q.exchange = q'.exchange ∨ '_' ∉ q.exchange.toList ∧ '_' ∉ q'.exchange.toList →
      ¬ (q.Overlaps q' ∨ q'.Overlaps q)) := by
  refine ⟨fun r => locate_path hq, fun bs hbs => ?_, fun r r' hr hr' => ?_, fun name hname => ?_,
    fun hoverlap => ?_, fun hexchange => ?_⟩
  · obtain ⟨text, htext, hread⟩ := fetchBars_eq_ok_iff.1 hbs
    obtain ⟨r, bytes, hr, hbytes, hdecode⟩ := FileTree.readText_eq_ok_iff.1 htext
    obtain ⟨p, hp, rfl⟩ := locate_path hq hr
    exact ⟨p, bytes, text, hp, hbytes, hdecode, hread⟩
  · obtain ⟨p, hp, rfl⟩ := locate_path hq hr
    obtain ⟨p', hp', rfl⟩ := locate_path hq' hr'
    obtain rfl := Except.ok.inj (hp.symm.trans hp')
    rw [Location.down_inj, Query.fileName_eq_iff]
  · rw [codeOfFile?_eq_some_iff, codeOfFile?_eq_some_iff.1 hname]
    exact Query.fileName_eq_iff
  · have hname : q.fileName = q'.fileName := Query.fileName_eq_iff.2 (.inr hoverlap)
    refine ⟨fun hstart hstop bs => fetchBars_relabel hname hstart hstop, fun l l' hl hl' => ?_⟩
    obtain ⟨names, hnames, -⟩ := listCodes_eq_ok_iff.1 hl
    rw [mem_listCodes_iff hnames hl, mem_listCodes_iff hnames hl', hname]
  · rintro (h | h)
    · exact hexchange.elim h.exchange.2 fun hnone => hnone.1 h.exchange.1
    · exact hexchange.elim (h.exchange.2 ·.symm) fun hnone => hnone.2 h.exchange.1

/-- A price file in a folder that two symbols share, and one outside of the folder. -/
def sharedTree : FileTree where
  files := [(["d", "A_B_C.csv"], .empty), (["A_X.csv"], .empty)]

/-- The code of the longer name before the exchange of the shorter one. -/
def leftQuery : Query := ⟨"A_B", "C", Date.first, Date.last⟩

/-- The code of the shorter name before the exchange of the longer one. -/
def rightQuery : Query := ⟨"A", "B_C", Date.first, Date.last⟩

theorem priceFiles_shared_tree :
    '/' ∉ leftQuery.fileName.toList ∧ '/' ∉ rightQuery.fileName.toList ∧
    rightQuery.Overlaps leftQuery ∧ fetchBars sharedTree.disk "d" leftQuery = .ok [] ∧
    fetchBars sharedTree.disk "d" rightQuery = .ok [] := by
  have hl : '/' ∉ leftQuery.fileName.toList := by decide
  have hr : '/' ∉ rightQuery.fileName.toList := by decide
  have hoverlap : rightQuery.Overlaps leftQuery := ⟨"B", by decide, by decide⟩
  have htext : sharedTree.disk.readText (path "d" "A_B" "C") = .ok "" := by decide +kernel
  have hread : fetchBars sharedTree.disk "d" leftQuery = .ok [] :=
    (fetchBars_of_readText htext).trans (PriceFile.readBars_empty _)
  have hshared := (priceFiles_shared sharedTree "d" leftQuery rightQuery hl hr).2.2.2.2.1
  exact ⟨hl, hr, hoverlap, hread, (hshared (.inr hoverlap)).1 rfl rfl [] hread⟩

/-- Settings that ask for some codes on an exchange. -/
def symbolSettings (exchange codes : String) : Settings :=
  ⟨fun heading key => [(("data", "path"), "d"), (("load", "exchange"), exchange),
    (("load", "codes"), codes)].lookup (heading, key)⟩

def symbolPlan (exchange : String) (codes : List String) : LoadPlan :=
  { LoadPlan.sparsePlan with exchange, codes }

/-- Settings give symbols that share a price file, both of which the folder lists, and symbols with
price files outside of the folder. -/
theorem not_one_priceFile_per_symbol :
    LoadPlan.ofSettings (symbolSettings "C" "A_B") = .ok (symbolPlan "C" ["A_B"]) ∧
    LoadPlan.ofSettings (symbolSettings "B_C" "A") = .ok (symbolPlan "B_C" ["A"]) ∧
    sharedTree.locate (path "d" "A_B" "C") = .ok ⟨false, ["d", "A_B_C.csv"]⟩ ∧
    sharedTree.locate (path "d" "A" "B_C") = .ok ⟨false, ["d", "A_B_C.csv"]⟩ ∧
    listCodes sharedTree.disk "d" "C" = .ok ["A_B"] ∧
    listCodes sharedTree.disk "d" "B_C" = .ok ["A"] ∧
    LoadPlan.ofSettings (symbolSettings "X" "../a") = .ok (symbolPlan "X" ["../A"]) ∧
    sharedTree.locate (path "d" "../A" "X") = .ok ⟨false, ["A_X.csv"]⟩ ∧
    fetchBars sharedTree.disk "d" ⟨"../A", "X", Date.first, Date.last⟩ = .ok [] := by
  have htext : sharedTree.disk.readText (path "d" "../A" "X") = .ok "" := by decide +kernel
  refine ⟨by rfl, by rfl, by decide +kernel, by decide +kernel, by decide +kernel,
    by decide +kernel, by rfl, by decide +kernel, ?_⟩
  exact (fetchBars_of_readText (q := ⟨"../A", "X", Date.first, Date.last⟩) htext).trans
    (PriceFile.readBars_empty _)

end Custody
