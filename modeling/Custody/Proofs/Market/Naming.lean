import Custody.Proofs.Mapping
import Custody.Proofs.Market.Keys
import Custody.Proofs.Text.Casing
import Custody.Proofs.Text.Digits
import Custody.Proofs.Text.Splitting
import Custody.Proofs.Text.Trimming

/-!
# Names read back

Timeframes, applied prices and kinds of indicators are read from their own names.  A kind needs a
period that is positive and fits 64 bits.

`IndicatorKind.Spelling` is the grammar of the names of kinds in upper case: a method, a period in
brackets, and blanks around either.  A text is read as a kind exactly if its upper case without
blanks at the ends is a spelling of that kind and the kind can be read, and any other text is refused
with its own words (`IndicatorKind.read_iff_spelling`).
-/

namespace Custody

open Text

/-- If every member is found by its name, a name finds the member that has it. -/
theorem find?_name_iff {α : Type} {name : α → String} {all : List α} {a : α} {s : String}
    (h : ∀ a, all.find? (fun b => name b = name a) = some a) :
    all.find? (fun b => name b = s) = some a ↔ s = name a := by
  constructor
  · intro hs
    have ha := List.find?_some hs
    exact (of_decide_eq_true ha).symm
  · rintro rfl
    exact h a

namespace Timeframe

theorem upperString_text (t : Timeframe) : upperString (trimString t.text) = t.text := by
  cases t <;> decide

theorem read_eq_ok_iff {s : String} {t : Timeframe} :
    read s = .ok t ↔ upperString (trimString s) = t.text := by
  rw [← find?_name_iff find?_text, read]
  cases all.find? (·.text = upperString (trimString s)) <;> simp

theorem eq_of_read_eq_error {s reason : String} (h : read s = .error reason) :
    reason = "unknown timeframe '" ++ trimString s ++ "'" := by
  simp only [read] at h
  split at h
  · cases h
  · exact (Except.error.inj h).symm

theorem read_text (t : Timeframe) : read t.text = .ok t := read_eq_ok_iff.2 t.upperString_text

end Timeframe

namespace AppliedPrice

theorem lowerString_text (p : AppliedPrice) : lowerString (trimString p.text) = p.text := by
  cases p <;> decide

theorem read_eq_ok_iff {s : String} {p : AppliedPrice} :
    read s = .ok p ↔ lowerString (trimString s) = p.text := by
  rw [← find?_name_iff find?_text, read]
  cases all.find? (·.text = lowerString (trimString s)) <;> simp

theorem eq_of_read_eq_error {s reason : String} (h : read s = .error reason) :
    reason = "unknown applied price '" ++ lowerString (trimString s) ++ "'" := by
  simp only [read] at h
  split at h
  · cases h
  · exact (Except.error.inj h).symm

theorem read_text (p : AppliedPrice) : read p.text = .ok p := read_eq_ok_iff.2 p.lowerString_text

end AppliedPrice

theorem Method.ofName?_eq_some_iff {cs : List Char} {m : Method} :
    ofName? cs = some m ↔ cs = m.text.toList := by
  constructor
  · intro h
    rw [ofName?] at h
    have hm := List.find?_some h
    exact (of_decide_eq_true hm).symm
  · rintro rfl
    cases m <;> decide

namespace IndicatorKind

variable {k : IndicatorKind} {cs : List Char}

/-- A kind that can be read: its period is positive and fits 64 bits. -/
def Readable (k : IndicatorKind) : Prop := 1 ≤ k.period ∧ k.period < UInt64.size

instance (k : IndicatorKind) : Decidable k.Readable := inferInstanceAs (Decidable (_ ∧ _))

/-- Letters, digits and brackets. -/
theorem mem_text_cases {c : Char} (hc : c ∈ k.text.toList) :
    c ∈ ['S', 'M', 'A', 'E', 'W', '(', ')'] ∨ c.isDigit = true := by
  rw [toList_text] at hc
  rcases List.mem_append.1 hc with hc | hc
  · left
    revert hc
    cases k.method <;> simp [Method.text] <;> grind
  rcases List.mem_cons.1 hc with rfl | hc
  · exact .inl (by decide)
  rcases List.mem_append.1 hc with hc | hc
  · exact .inr (isDigit_of_mem_toDigits hc)
  · rw [List.mem_singleton.1 hc]
    exact .inl (by decide)

/-- What a character has to be for a kind to have it in its name. -/
theorem forall_mem_text {P : Char → Prop} [DecidablePred P]
    (hl : ['S', 'M', 'A', 'E', 'W', '(', ')'].all (fun c => P c) = true)
    (hd : ∀ c : Char, c.isDigit = true → P c) : ∀ c ∈ k.text.toList, P c :=
  fun c hc => (mem_text_cases hc).elim (fun hm => by simpa using List.all_eq_true.1 hl c hm) (hd c)

theorem trimmed_text (k : IndicatorKind) : Trimmed k.text.toList :=
  trimmed_of_forall (forall_mem_text (by decide) fun _ => not_isBlank_of_isDigit)

theorem upper_text (k : IndicatorKind) : upper k.text.toList = k.text.toList :=
  upper_eq_self (forall_mem_text (by decide) fun c hc => by
    have := toNat_of_isDigit hc
    omega)

theorem comma_not_mem_text (k : IndicatorKind) : ',' ∉ k.text.toList := fun hc =>
  forall_mem_text (P := (· ≠ ',')) (by decide) (fun c hc => by rintro rfl; cases hc) ',' hc rfl

theorem text_ne_nil (k : IndicatorKind) : k.text.toList ≠ [] := by
  rw [toList_text]
  exact List.append_ne_nil_of_right_ne_nil _ (List.cons_ne_nil _ _)

/-! ### Spellings -/

/-- A spelling of a kind in upper case: what stands before the first opening bracket is its method,
what stands between that and a closing bracket at the end is its period, both up to blanks. -/
inductive Spelling : List Char → IndicatorKind → Prop where
  | mk {name body : List Char} {k : IndicatorKind} (hname : '(' ∉ name)
      (hmethod : trim name = k.method.text.toList) (hperiod : NaturalNumeral (trim body) k.period) :
      Spelling (name ++ '(' :: (body ++ [')'])) k

theorem spelling_text (k : IndicatorKind) : Spelling k.text.toList k := by
  have hperiod : trim (Nat.toDigits 10 k.period) = Nat.toDigits 10 k.period :=
    (trimmed_of_forall fun c hc => not_isBlank_of_isDigit (isDigit_of_mem_toDigits hc)).trim_eq
  rw [toList_text]
  refine .mk ?_ ?_ (hperiod.symm ▸ naturalNumeral_toDigits k.period)
  · cases k.method <;> decide
  · cases k.method <;> decide

theorem Spelling.ofUpper? (h : Spelling cs k) (hk : k.Readable) : ofUpper? cs = some k := by
  obtain ⟨hname, hmethod, hperiod⟩ := h
  have hcut := cut_append (p := (· = '(')) (c := '(')
    (fun a ha => decide_eq_false fun e => hname (e ▸ ha)) (by decide)
  have hread := hperiod.read (Nat.le_of_lt_succ hk.2)
  have hpos : k.period ≠ 0 := Nat.ne_of_gt hk.1
  rw [IndicatorKind.ofUpper?, hcut]
  simp [dropTail?_append, hread, hpos, Method.ofName?_eq_some_iff.2 hmethod, Except.toOption]

theorem spelling_of_ofUpper? (h : ofUpper? cs = some k) : Spelling cs k ∧ k.Readable := by
  simp only [ofUpper?, Option.bind_eq_bind, Option.bind_eq_some_iff] at h
  obtain ⟨⟨name, rest⟩, hcut, body, hbody, period, hread, h⟩ := h
  obtain ⟨c, rfl, hc, hname⟩ := cut_eq_some_iff.1 hcut
  obtain rfl : c = '(' := of_decide_eq_true hc
  obtain rfl := dropTail?_eq_some_iff.1 hbody
  split at h
  · cases h
  next hpos =>
  obtain ⟨method, hmethod, e⟩ := Option.bind_eq_some_iff.1 h
  obtain rfl := Option.some.inj e
  have hok : readNatural (trim body) = .ok period := by
    cases hr : readNatural (trim body) with
    | error e => rw [hr] at hread; cases hread
    | ok n => rw [hr] at hread; exact congrArg Except.ok (Option.some.inj hread)
  obtain ⟨hnum, hle⟩ := readNatural_eq_ok_iff.1 hok
  exact ⟨.mk (fun hm => of_decide_eq_false (hname _ hm) rfl) (Method.ofName?_eq_some_iff.1 hmethod)
    hnum, Nat.pos_of_ne_zero hpos, Nat.lt_succ_of_le hle⟩

theorem ofUpper?_eq_some_iff : ofUpper? cs = some k ↔ Spelling cs k ∧ k.Readable :=
  ⟨spelling_of_ofUpper?, fun h => h.1.ofUpper? h.2⟩

theorem read_eq_ok_iff : read cs = .ok k ↔ Spelling (upper (trim cs)) k ∧ k.Readable := by
  rw [← ofUpper?_eq_some_iff, read]
  cases ofUpper? (upper (trim cs)) <;> simp

theorem read_eq_error_iff {e : Error} : read cs = .error e ↔
    e = .unknownIndicator (String.ofList (trim cs)) ∧
      ∀ k, ¬(Spelling (upper (trim cs)) k ∧ k.Readable) := by
  simp only [← ofUpper?_eq_some_iff, ← Option.eq_none_iff_forall_ne_some, read]
  cases ofUpper? (upper (trim cs)) with
  | none => simp [eq_comm]
  | some k => simp

theorem read_text (h : k.Readable) : read k.text.toList = .ok k := by
  rw [read_eq_ok_iff, k.trimmed_text.trim_eq, upper_text]
  exact ⟨k.spelling_text, h⟩

/-- A text is read as a kind exactly if it spells one that can be read, in any case and with blanks
at the usual places, and any other text is refused with its own words.  The name of a kind spells
it.  The keys that two texts lead to are the same exactly if the series are and the texts spell one
kind. -/
theorem read_iff_spelling (s : String) :
    (∀ k, read s.toList = .ok k ↔ Spelling (upper (trim s.toList)) k ∧ k.Readable) ∧
      (∀ e, read s.toList = .error e ↔ e = .unknownIndicator (trimString s) ∧
        ∀ k, ¬(Spelling (upper (trim s.toList)) k ∧ k.Readable)) ∧
      (∀ k : IndicatorKind, k.Readable → read k.text.toList = .ok k) ∧
      ∀ (s' : String) (i i' : SeriesId) (key key' : String),
        (read s.toList).map (Indicator.keyOf i.key) = .ok key →
          (read s'.toList).map (Indicator.keyOf i'.key) = .ok key' →
            (key = key' ↔ i = i' ∧ read s.toList = read s'.toList) := by
  refine ⟨fun k => read_eq_ok_iff, fun e => read_eq_error_iff, fun k => read_text, ?_⟩
  intro s' i i' key key' h h'
  obtain ⟨k, hk, rfl⟩ := map_eq_ok_iff.1 h
  obtain ⟨k', hk', rfl⟩ := map_eq_ok_iff.1 h'
  rw [hk, hk']
  constructor
  · intro e
    obtain ⟨hi, hk⟩ := Indicator.keyOf_injective e
    exact ⟨SeriesId.key_injective hi, congrArg Except.ok hk⟩
  · rintro ⟨rfl, e⟩
    rw [Except.ok.inj e]

/-- Blanks, small letters, a plus sign and zeros in front change nothing about the kind or its
key. -/
theorem read_iff_spelling_plus_zeros :
    let k : IndicatorKind := ⟨.wma, 7⟩
    let i : SeriesId := ⟨"A", .d1, .closing⟩
    k.Readable ∧ read " wMa (+007 ) ".toList = .ok k ∧ read k.text.toList = .ok k ∧
      (read " wMa (+007 ) ".toList).map (Indicator.keyOf i.key) = .ok (Indicator.keyOf i.key k) ∧
        (Indicator.keyOf i.key k = Indicator.keyOf i.key k ↔
          i = i ∧ read " wMa (+007 ) ".toList = read k.text.toList) := by
  intro k i
  have hk : k.Readable := by decide
  have e : upper (trim " wMa (+007 ) ".toList) =
      "WMA ".toList ++ '(' :: ("+007 ".toList ++ [')']) := by decide
  have hspell : Spelling (upper (trim " wMa (+007 ) ".toList)) k :=
    e ▸ .mk (by decide) (by decide)
      (@NaturalNumeral.plus "007".toList (by decide) (List.all_eq_true.1 (by decide)))
  have hread := ((read_iff_spelling _).1 k).2 ⟨hspell, hk⟩
  have htext := (read_iff_spelling k.text).2.2.1 k hk
  have hkey := map_eq_ok_iff.2 ⟨k, hread, (rfl : Indicator.keyOf i.key k = _)⟩
  have hkey' := map_eq_ok_iff.2 ⟨k, htext, (rfl : Indicator.keyOf i.key k = _)⟩
  exact ⟨hk, hread, htext, hkey, (read_iff_spelling _).2.2.2 _ i i _ _ hkey hkey'⟩

end IndicatorKind

end Custody
