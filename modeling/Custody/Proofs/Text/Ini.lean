import Mathlib.Data.List.Nodup
import Custody.Text.Ini
import Custody.Proofs.Text.Casing
import Custody.Proofs.Text.Splitting
import Custody.Proofs.Text.Trimming

/-!
# Sectioned settings read back

`Ini.write` writes sections: a heading in brackets, a line `key = value` for each key, and an empty
line.  Reading gives the entries back, in order (`Ini.parse_write`).  The names of sections and keys
are words in small letters (`IsName`).  A value may be any text on one line that has no blanks at
its ends and nothing in it that starts a comment (`IsValue`); equals signs, colons and brackets
count as any other character there.
-/

namespace Custody.Ini

open Text

/-- The name of a section, and its keys with their values in order. -/
abbrev Section := String × List (String × String)

def lines (s : Section) : List String :=
  ("[" ++ s.1 ++ "]") :: s.2.map (fun e => e.1 ++ " = " ++ e.2) ++ [""]

def write (doc : List Section) : String := "\n".intercalate (doc.flatMap lines)

/-- The entries of a section, each with the name of the section. -/
def entriesOf (s : Section) : List (String × String × Option String) :=
  s.2.map fun e => (s.1, e.1, some e.2)

/-- A word in small letters, which may have underscores in it. -/
structure IsName (cs : List Char) : Prop where
  ne_nil : cs ≠ []
  plain : ∀ c ∈ cs, c.isLower = true ∨ c = '_'

/-- A text that a line can hold as a value. -/
structure IsValue (cs : List Char) : Prop where
  trimmed : Trimmed cs
  plain : ∀ c ∈ cs, c ≠ '\n' ∧ startsComment c = false

instance (cs : List Char) : Decidable (IsName cs) :=
  decidable_of_iff (cs ≠ [] ∧ cs.all (fun c => c.isLower || c = '_') = true)
    ⟨fun h => ⟨h.1, by simpa using h.2⟩, fun h => ⟨h.ne_nil, by simpa using h.plain⟩⟩

instance (cs : List Char) : Decidable (IsValue cs) :=
  decidable_of_iff (Trimmed cs ∧ cs.all (fun c => c ≠ '\n' && !startsComment c) = true)
    ⟨fun h => ⟨h.1, by simpa using h.2⟩, fun h => ⟨h.trimmed, by simpa using h.plain⟩⟩

/-- A section that can be written. -/
structure IsSection (s : Section) : Prop where
  name : IsName s.1.toList
  key : ∀ e ∈ s.2, IsName e.1.toList
  value : ∀ e ∈ s.2, IsValue e.2.toList

variable {cs key value : List Char} {name : String} {n : Nat} {s : Section}

/-! ### Names -/

namespace IsName

theorem bounds (h : IsName cs) : ∀ c ∈ cs, 95 ≤ c.toNat ∧ c.toNat ≤ 122 := by
  intro c hc
  rcases h.plain c hc with hl | rfl
  · obtain ⟨ha, hz⟩ := Bool.and_eq_true_iff.1 hl
    have ha : 97 ≤ c.toNat := UInt32.le_iff_toNat_le.1 (of_decide_eq_true ha)
    have hz : c.toNat ≤ 122 := UInt32.le_iff_toNat_le.1 (of_decide_eq_true hz)
    omega
  · decide

theorem ne_of_lt (h : IsName cs) {d : Char} (hd : d.toNat < 95) : ∀ c ∈ cs, c ≠ d := by
  rintro c hc rfl
  have := h.bounds c hc
  omega

theorem not_isBlank (h : IsName cs) : ∀ c ∈ cs, isBlank c = false := by
  intro c hc
  have := h.bounds c hc
  simp only [isBlank, Bool.or_eq_false_iff, Bool.and_eq_false_iff, decide_eq_false_iff_not,
    beq_eq_false_iff_ne]
  omega

theorem not_startsComment (h : IsName cs) : ∀ c ∈ cs, startsComment c = false := by
  intro c hc
  have h₁ := h.ne_of_lt (d := ';') (by decide) c hc
  have h₂ := h.ne_of_lt (d := '#') (by decide) c hc
  simp [startsComment, h₁, h₂]

theorem not_separates (h : IsName cs) : ∀ c ∈ cs, separates c = false := by
  intro c hc
  have h₁ := h.ne_of_lt (d := '=') (by decide) c hc
  have h₂ := h.ne_of_lt (d := ':') (by decide) c hc
  simp [separates, h₁, h₂]

theorem trimmed (h : IsName cs) : Trimmed cs := trimmed_of_forall h.not_isBlank

theorem fold_eq (h : IsName cs) : fold cs = String.ofList cs := by
  rw [fold, h.trimmed.trim_eq, lower_eq_self]
  intro c hc
  have := h.bounds c hc
  omega

end IsName

/-! ### Values -/

theorem plain_of_isDigit {c : Char} (h : c.isDigit = true) :
    c ≠ '\n' ∧ startsComment c = false := by
  have hne : ∀ d : Char, d.isDigit = false → c ≠ d := by
    rintro d hd rfl
    rw [h] at hd
    cases hd
  have h₁ := hne ';' (by decide)
  have h₂ := hne '#' (by decide)
  exact ⟨hne '\n' (by decide), by simp [startsComment, h₁, h₂]⟩

/-- Values with commas between them are a value. -/
theorem isValue_intercalate {parts : List (List Char)} (hne : ∀ part ∈ parts, part ≠ [])
    (h : ∀ part ∈ parts, IsValue part) : IsValue ([','].intercalate parts) ∧
      (parts ≠ [] → [','].intercalate parts ≠ []) := by
  induction parts with
  | nil => exact ⟨by decide, fun h => absurd rfl h⟩
  | cons part parts ih =>
    have hpart := h part List.mem_cons_self
    have hpart' := hne part List.mem_cons_self
    obtain ⟨ihv, ihn⟩ := ih (fun part hp => hne part (List.mem_cons_of_mem _ hp))
      fun part hp => h part (List.mem_cons_of_mem _ hp)
    cases parts with
    | nil =>
      rw [List.intercalate_singleton]
      exact ⟨hpart, fun _ => hpart'⟩
    | cons next parts =>
      have hrest := ihn (List.cons_ne_nil _ _)
      rw [List.intercalate_cons_cons, List.append_assoc, List.singleton_append]
      refine ⟨⟨⟨?_, ?_⟩, ?_⟩, fun _ => List.append_ne_nil_of_left_ne_nil hpart' _⟩
      · rw [List.head?_append_of_ne_nil _ hpart']
        exact hpart.trimmed.head
      · rw [List.getLast?_append_of_ne_nil _ (List.cons_ne_nil _ _),
          List.getLast?_cons_of_ne_nil hrest]
        exact ihv.trimmed.last
      · intro c hc
        rcases List.mem_append.1 hc with hc | hc
        · exact hpart.plain c hc
        rcases List.mem_cons.1 hc with rfl | hc
        · decide
        · exact ihv.plain c hc

/-! ### One line -/

/-- In a line that neither starts with a comment nor has one in it, nothing is cut. -/
theorem trim_takeWhile_eq {line : List Char} (ht : trim line = cs)
    (h : ∀ c ∈ cs, startsComment c = false) : trim (cs.takeWhile (!startsComment ·)) = cs := by
  have hwhole : cs.takeWhile (!startsComment ·) = cs :=
    List.takeWhile_eq_self_iff.2 fun c hc => by simp [h c hc]
  rw [hwhole, ← ht, (trimmed_trim line).trim_eq]

theorem readLine_eq_readHeading {line : List Char} (ht : trim line = '[' :: cs)
    (h : ∀ c ∈ '[' :: cs, startsComment c = false) : readLine line = readHeading cs := by
  have e := trim_takeWhile_eq ht h
  simp only [readLine, ht, h '[' List.mem_cons_self, e, Bool.false_eq_true, ↓reduceIte]

theorem readLine_eq_readEntry {c : Char} {line : List Char} (ht : trim line = c :: cs)
    (h : ∀ d ∈ c :: cs, startsComment d = false) (hc : c ≠ '[') :
    readLine line = readEntry (c :: cs) := by
  have e := trim_takeWhile_eq ht h
  simp only [readLine, ht, h c List.mem_cons_self, e, Bool.false_eq_true, ↓reduceIte]
  split
  · next e => exact absurd (List.cons.inj e).1 hc
  · rfl

theorem readLine_heading (h : IsName cs) :
    readLine ('[' :: (cs ++ [']'])) = .ok (.heading (String.ofList cs)) := by
  have ht : Trimmed ('[' :: (cs ++ [']'])) := by
    constructor
    · intro c hc
      obtain rfl := Option.some.inj hc
      decide
    · intro c hc
      rw [← List.cons_append, List.getLast?_concat] at hc
      obtain rfl := Option.some.inj hc
      decide
  have hplain : ∀ c ∈ '[' :: (cs ++ [']']), startsComment c = false := by
    intro c hc
    rcases List.mem_cons.1 hc with rfl | hc
    · decide
    rcases List.mem_append.1 hc with hc | hc
    · exact h.not_startsComment c hc
    · rw [List.mem_singleton.1 hc]
      decide
  rw [readLine_eq_readHeading ht.trim_eq hplain, readHeading, List.reverse_append,
    List.reverse_singleton, List.singleton_append, cut, if_pos (by decide)]
  simp only [List.reverse_reverse, h.fold_eq]

/-- Blanks between a key and its value, and none behind an empty value, are left by the trimming of
the line. -/
theorem trim_entry (hk : IsName key) (value : List Char) :
    trim (key ++ ' ' :: '=' :: ' ' :: value) = key ++ ' ' :: '=' :: trimRight (' ' :: value) := by
  obtain ⟨c, cs, rfl⟩ := List.exists_cons_of_ne_nil hk.ne_nil
  have hleft : trimLeft (c :: cs ++ ' ' :: '=' :: ' ' :: value) =
      c :: cs ++ ' ' :: '=' :: ' ' :: value := trimLeft_eq_self fun d hd => by
    obtain rfl := Option.some.inj hd
    exact hk.not_isBlank c List.mem_cons_self
  have hsplit : ∀ rest, c :: cs ++ ' ' :: '=' :: rest = (c :: cs ++ [' ', '=']) ++ rest := by
    simp
  have hlast : ∀ d ∈ (c :: cs ++ [' ', '=']).getLast?, isBlank d = false := by
    intro d hd
    rw [List.append_cons, List.getLast?_concat] at hd
    obtain rfl := Option.some.inj hd
    decide
  rw [trim, hleft, hsplit, trimRight_append hlast, ← hsplit]

theorem readEntry_entry (hk : IsName key) (hv : IsValue value) :
    readEntry (key ++ ' ' :: '=' :: trimRight (' ' :: value)) =
      .ok (.entry (String.ofList key) (some (String.ofList value))) := by
  have hcut : cut separates (key ++ ' ' :: '=' :: trimRight (' ' :: value)) =
      some (key ++ [' '], trimRight (' ' :: value)) := by
    rw [List.append_cons]
    refine cut_append (fun c hc => ?_) (by decide) _
    rcases List.mem_append.1 hc with hc | hc
    · exact hk.not_separates c hc
    · rw [List.mem_singleton.1 hc]
      decide
  have hkey : trim (key ++ [' ']) = key := by
    rw [trim_concat_blank (by decide), hk.trimmed.trim_eq]
  have hblank : isBlankText (key ++ [' ']) = false := by
    rw [Bool.eq_false_iff, ne_eq, ← trim_eq_nil_iff, hkey]
    exact hk.ne_nil
  have hvalue : trim (trimRight (' ' :: value)) = value := by
    rw [trim_trimRight, trim_cons_blank (by decide), hv.trimmed.trim_eq]
  have hfold : fold (key ++ [' ']) = String.ofList key := by
    rw [← hk.fold_eq, fold, fold, hkey, hk.trimmed.trim_eq]
  simp only [readEntry, hcut, hblank, hfold, hvalue, Bool.false_eq_true, ↓reduceIte]

theorem readLine_entry (hk : IsName key) (hv : IsValue value) :
    readLine (key ++ ' ' :: '=' :: ' ' :: value) =
      .ok (.entry (String.ofList key) (some (String.ofList value))) := by
  have ht := trim_entry hk value
  have e := readEntry_entry hk hv
  have hplain : ∀ c ∈ key ++ ' ' :: '=' :: trimRight (' ' :: value), startsComment c = false := by
    intro c hc
    rcases List.mem_append.1 hc with hc | hc
    · exact hk.not_startsComment c hc
    rcases List.mem_cons.1 hc with rfl | hc
    · decide
    rcases List.mem_cons.1 hc with rfl | hc
    · decide
    have hc := (List.rdropWhile_prefix isBlank (' ' :: value)).subset hc
    rcases List.mem_cons.1 hc with rfl | hc
    · decide
    · exact (hv.plain c hc).2
  obtain ⟨c, cs, rfl⟩ := List.exists_cons_of_ne_nil hk.ne_nil
  have hhead : c ≠ '[' := hk.ne_of_lt (by decide) c List.mem_cons_self
  rw [readLine_eq_readEntry ht hplain hhead]
  exact e

/-! ### All lines -/

theorem readLines_entries (name : String) (number : Nat) {es : List (String × String)}
    (hk : ∀ e ∈ es, IsName e.1.toList) (hv : ∀ e ∈ es, IsValue e.2.toList)
    {rest : List (List Char)} {entries : List (String × String × Option String)}
    (hrest : ∀ number, readLines name number rest = .ok entries) :
    readLines name number (es.map (fun e => (e.1 ++ " = " ++ e.2).toList) ++ rest) =
      .ok (es.map (fun e => (name, e.1, some e.2)) ++ entries) := by
  induction es generalizing number with
  | nil => exact hrest number
  | cons e es ih =>
    have hline : (e.1 ++ " = " ++ e.2).toList =
        e.1.toList ++ ' ' :: '=' :: ' ' :: e.2.toList := by
      rw [String.toList_append, String.toList_append, List.append_assoc]
      rfl
    have he := readLine_entry (hk e List.mem_cons_self) (hv e List.mem_cons_self)
    rw [String.ofList_toList, String.ofList_toList] at he
    rw [List.map_cons, List.cons_append, readLines, hline, he,
      ih _ (fun e he => hk e (List.mem_cons_of_mem _ he))
        fun e he => hv e (List.mem_cons_of_mem _ he)]
    rfl

theorem readLines_section (heading : String) (number : Nat) (hs : IsSection s)
    {rest : List (List Char)} {entries : List (String × String × Option String)}
    (hrest : ∀ heading number, readLines heading number rest = .ok entries) :
    readLines heading number ((lines s).map String.toList ++ rest) =
      .ok (entriesOf s ++ entries) := by
  have hline : ("[" ++ s.1 ++ "]").toList = '[' :: (s.1.toList ++ [']']) := by
    rw [String.toList_append, String.toList_append]
    rfl
  have hhead := readLine_heading hs.name
  rw [String.ofList_toList] at hhead
  have hblank : ∀ number, readLines s.1 number ([] :: rest) = .ok entries := by
    intro number
    rw [readLines, show readLine [] = .ok .blank from rfl]
    exact hrest s.1 _
  have e := readLines_entries s.1 (number + 1) hs.key hs.value hblank
  rw [lines, List.map_append, List.map_cons, List.map_map, List.append_assoc, List.cons_append,
    readLines, hline, hhead]
  exact e

theorem readLines_sections {doc : List Section} (h : ∀ s ∈ doc, IsSection s) (heading : String)
    (number : Nat) : readLines heading number ((doc.flatMap lines).map String.toList) =
      .ok (doc.flatMap entriesOf) := by
  induction doc generalizing heading number with
  | nil => rfl
  | cons s doc ih =>
    rw [List.flatMap_cons, List.flatMap_cons, List.map_append]
    exact readLines_section heading number (h s List.mem_cons_self)
      fun heading number => ih (fun s hs => h s (List.mem_cons_of_mem _ hs)) heading number

theorem newline_not_mem_lines (hs : IsSection s) : ∀ line ∈ lines s, '\n' ∉ line.toList := by
  have hname : ∀ {cs}, IsName cs → '\n' ∉ cs := fun h hc => h.ne_of_lt (by decide) _ hc rfl
  intro line hl
  rw [lines, List.mem_append, List.mem_cons, List.mem_map, List.mem_singleton] at hl
  rcases hl with (rfl | ⟨e, he, rfl⟩) | rfl
  · have := hname hs.name
    simp [String.toList_append, this]
  · have hk := hname (hs.key e he)
    have hv : '\n' ∉ e.2.toList := fun hc => ((hs.value e he).plain _ hc).1 rfl
    simp [String.toList_append, hk, hv]
  · exact List.not_mem_nil

/-- Sections are read back from what is written for them. -/
theorem parse_write {doc : List Section} (h : ∀ s ∈ doc, IsSection s) :
    parse (write doc) = .ok ⟨doc.flatMap entriesOf⟩ := by
  have hsplit : readLines defaultSection 1 (fields '\n' (write doc).toList) =
      .ok (doc.flatMap entriesOf) := by
    by_cases hdoc : doc = []
    · subst hdoc
      rfl
    · have hsep : ∀ part ∈ (doc.flatMap lines).map String.toList, '\n' ∉ part := by
        intro part hp
        obtain ⟨line, hl, rfl⟩ := List.mem_map.1 hp
        obtain ⟨s, hs, hl⟩ := List.mem_flatMap.1 hl
        exact newline_not_mem_lines (h s hs) line hl
      have hne : (doc.flatMap lines).map String.toList ≠ [] := by
        obtain ⟨s, rest, rfl⟩ := List.exists_cons_of_ne_nil hdoc
        simp [lines]
      rw [write, String.toList_intercalate, show "\n".toList = ['\n'] from rfl,
        fields_intercalate hne hsep]
      exact readLines_sections h _ _
  rw [parse, hsplit]
  rfl

/-! ### Looking up -/

theorem lowerString_eq (h : IsName name.toList) : lowerString name = name := by
  rw [lowerString, lower_eq_self fun c hc => ?_, String.ofList_toList]
  have := h.bounds c hc
  omega

/-- A key that stands once in its section has the value it stands there with. -/
theorem get?_of_mem {i : Ini} {heading key : String} {value : Option String}
    (hd : (i.entries.map fun e => (e.1, e.2.1)).Nodup) (hm : (heading, key, value) ∈ i.entries)
    (hh : IsName heading.toList) (hk : IsName key.toList) : i.get? heading key = value := by
  rw [get?, lowerString_eq hh, lowerString_eq hk]
  cases hf : i.entries.reverse.find? fun e => e.1 = heading && e.2.1 = key with
  | none =>
    have := List.find?_eq_none.1 hf _ (List.mem_reverse.2 hm)
    simp at this
  | some e =>
    have he : e.1 = heading ∧ e.2.1 = key := by simpa using List.find?_some hf
    have hin : e ∈ i.entries := List.mem_reverse.1 (List.mem_of_find?_eq_some hf)
    have hkeys : (e.1, e.2.1) = (heading, key) := by rw [he.1, he.2]
    obtain rfl := List.inj_on_of_nodup_map hd hin hm hkeys
    rfl

end Custody.Ini
