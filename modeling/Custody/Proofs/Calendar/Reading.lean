import Custody.Calendar.Reading
import Custody.Proofs.Text.Digits
import Custody.Proofs.Text.Trimming

/-!
# Dates read back

The text of a date is read as that date, in all years from the first to the last (`Date.read_text`).
-/

namespace Custody

namespace Date

open Text

variable {cs ds rest : List Char} {n width limit : Nat} {y : Int}

/-! ### Numbers -/

/-- Digits are read up to the end of the width or to the first character that is none. -/
theorem readDigits_append (hd : ∀ c ∈ ds, c.isDigit = true) (hlen : ds.length ≤ width)
    (hrest : ds.length = width ∨ ∀ c ∈ rest.head?, c.isDigit = false)
    (h : Nat.ofDigitChars 10 ds n ≤ maxInteger) :
    readDigits n width (ds ++ rest) = .ok (Nat.ofDigitChars 10 ds n, rest) := by
  induction ds generalizing n width with
  | nil =>
    cases width with
    | zero => rfl
    | succ width =>
      cases rest with
      | nil => rfl
      | cons c rest =>
        have hc : c.isDigit = false := hrest.elim (fun h => by cases h) fun h => h c rfl
        rw [List.nil_append, readDigits, hc]
        rfl
  | cons c ds ih =>
    cases width with
    | zero => cases hlen
    | succ width =>
      rw [Nat.ofDigitChars_cons] at h ⊢
      have hle : 10 * n + digitValue c ≤ maxInteger := Nat.le_trans (le_ofDigitChars _ ds) h
      rw [List.cons_append, readDigits, hd c List.mem_cons_self, if_neg (by decide),
        if_neg (Nat.not_lt.2 hle)]
      exact ih (fun d hd' => hd d (List.mem_cons_of_mem _ hd')) (Nat.le_of_succ_le_succ hlen)
        (hrest.imp_left Nat.succ.inj) h

theorem readNumber_append (hne : ds ≠ []) (hd : ∀ c ∈ ds, c.isDigit = true)
    (hlen : ds.length ≤ width)
    (hrest : ds.length = width ∨ ∀ c ∈ rest.head?, c.isDigit = false)
    (h : Nat.ofDigitChars 10 ds 0 ≤ maxInteger) :
    readNumber width (ds ++ rest) = .ok (Nat.ofDigitChars 10 ds 0, rest) := by
  obtain ⟨c, cs, rfl⟩ := List.exists_cons_of_ne_nil hne
  have hc := hd c List.mem_cons_self
  rw [← readDigits_append hd hlen hrest h, List.cons_append, readNumber, if_pos hc]

/-- A number with zeros in front, up to a width that it fills or that ends at another character. -/
theorem readNumber_zeroPadded (hrest : ∀ c ∈ rest.head?, c.isDigit = false)
    (hlen : (zeroPadded limit n).toList.length ≤ width) (h : n ≤ maxInteger) :
    readNumber width ((zeroPadded limit n).toList ++ rest) = .ok (n, rest) := by
  have hn := ofDigitChars_zeroPadded limit n
  rw [readNumber_append (zeroPadded_ne_nil limit n) (fun c hc => isDigit_of_mem_zeroPadded hc) hlen
    (.inr hrest) (hn.symm ▸ h), hn]

/-! ### Parts of a date -/

/-- A number starts with a digit. -/
theorem isDigit_of_zeroPadded_append {c : Char}
    (h : (zeroPadded width n).toList ++ rest = c :: cs) : c.isDigit = true := by
  obtain ⟨d, ds, hd⟩ := List.exists_cons_of_ne_nil (zeroPadded_ne_nil width n)
  rw [hd, List.cons_append] at h
  obtain ⟨rfl, -⟩ := List.cons.inj h
  exact isDigit_of_mem_zeroPadded (hd ▸ List.mem_cons_self)

theorem trimLeft_zeroPadded (width n : Nat) (rest : List Char) :
    trimLeft ((zeroPadded width n).toList ++ rest) = (zeroPadded width n).toList ++ rest := by
  refine trimLeft_eq_self fun c hc => ?_
  obtain ⟨cs, h⟩ := List.head?_eq_some_iff.1 hc
  exact not_isBlank_of_isDigit (isDigit_of_zeroPadded_append h)

/-- A month or a day in two digits. -/
theorem readPart_zeroPadded (hrest : ∀ c ∈ rest.head?, c.isDigit = false) (hn : 1 ≤ n)
    (hlim : n ≤ limit) (h : n < 100) :
    readPart limit ((zeroPadded 2 n).toList ++ rest) = .ok (n, rest) := by
  have hlen := length_zeroPadded (n := n) (show 0 < 2 by decide) h
  have hmax : n ≤ maxInteger := Nat.le_trans (Nat.le_of_lt h) (by decide)
  simp only [readPart, trimLeft_zeroPadded, readNumber_zeroPadded hrest (Nat.le_of_eq hlen) hmax,
    bind, Except.bind]
  rw [if_neg (by omega)]

theorem readYear_yearText (hrest : ∀ c ∈ rest.head?, c.isDigit = false) (h₁ : minYear ≤ y)
    (h₂ : y ≤ maxYear) : readYear ((yearText y).toList ++ rest) = .ok (y, rest) := by
  have hmin : minYear = -262143 := rfl
  have hmax : maxYear = 262142 := rfl
  have hint : maxInteger = 9223372036854775807 := rfl
  have hlo : Int32.minValue.toInt = -2147483648 := rfl
  have hhi : Int32.maxValue.toInt = 2147483647 := rfl
  have hfit : ¬ (y < Int32.minValue.toInt ∨ Int32.maxValue.toInt < y) := by omega
  have hnat : y.natAbs ≤ maxInteger := by omega
  unfold yearText
  split
  · next hy =>
    have hlen := length_zeroPadded (n := y.natAbs) (show 0 < 4 by decide) (by omega)
    have e := readNumber_zeroPadded hrest (Nat.le_of_eq hlen) hnat
    have hval : (y.natAbs : Int) = y := by omega
    unfold readYear
    rw [trimLeft_zeroPadded]
    split
    · next h => exact absurd (isDigit_of_zeroPadded_append h) (by decide)
    · next h => exact absurd (isDigit_of_zeroPadded_append h) (by decide)
    · simp only [e, bind, Except.bind, pure, Except.pure, hval, if_neg hfit]
  · next hy =>
    -- behind a sign the width is that of all that is left
    have hlen : (zeroPadded 4 y.natAbs).toList.length ≤
        ((zeroPadded 4 y.natAbs).toList ++ rest).length := by
      rw [List.length_append]
      exact Nat.le_add_right _ _
    have e := readNumber_zeroPadded hrest hlen hnat
    have hsign : ∀ sign : Char, isBlank sign = false →
        trimLeft (sign :: ((zeroPadded 4 y.natAbs).toList ++ rest)) =
          sign :: ((zeroPadded 4 y.natAbs).toList ++ rest) := fun sign hs =>
      trimLeft_eq_self fun c hc => Option.some.inj hc ▸ hs
    rw [String.toList_append, List.append_assoc]
    by_cases hneg : y < 0
    · have hval : -(y.natAbs : Int) = y := by omega
      rw [if_pos hneg, show "-".toList = ['-'] from rfl, List.singleton_append, readYear,
        hsign '-' (by decide)]
      simp only [e, bind, Except.bind, pure, Except.pure, hval, if_neg hfit]
    · have hval : (y.natAbs : Int) = y := by omega
      rw [if_neg hneg, show "+".toList = ['+'] from rfl, List.singleton_append, readYear,
        hsign '+' (by decide)]
      simp only [e, bind, Except.bind, pure, Except.pure, hval, if_neg hfit]

/-! ### Dates -/

theorem toList_text (d : Date) : d.text.toList = (yearText d.year).toList ++
    '-' :: ((zeroPadded 2 d.month).toList ++ '-' :: ((zeroPadded 2 d.day).toList ++ [])) := by
  have hyphen : "-".toList = ['-'] := rfl
  simp only [text, String.toList_append, List.append_assoc, List.append_nil, hyphen,
    List.cons_append, List.nil_append]

/-- The text of a date is read as that date. -/
theorem read_text (d : Date) : read d.text.toList = .ok d := by
  obtain ⟨hy, hm, hd⟩ := d.isDate
  have hle := d.bounds
  have hyphen : ∀ (cs : List Char), ∀ c ∈ ('-' :: cs).head?, c.isDigit = false := by
    intro cs c hc
    obtain rfl := Option.some.inj hc
    decide
  have hday : readPart 31 ((zeroPadded 2 d.day).toList ++ []) = .ok (d.day, []) :=
    readPart_zeroPadded (fun c hc => by cases hc) hd.1 hle.2.2 (by omega)
  rw [toList_text, read]
  simp only [readYear_yearText (hyphen _) hy.1 hy.2, readHyphen,
    readPart_zeroPadded (hyphen _) hm.1 hm.2 (by omega), hday, bind, Except.bind, ↓reduceIte,
    List.isEmpty_nil, Bool.not_true, Bool.false_eq_true]
  rw [ofParts?, dif_pos d.isDate]
  rfl

/-- Digits, hyphens and a plus sign. -/
theorem mem_text_cases {d : Date} {c : Char} (hc : c ∈ d.text.toList) :
    c.isDigit = true ∨ c = '-' ∨ c = '+' := by
  have hyear : ∀ c ∈ (yearText d.year).toList, c.isDigit = true ∨ c = '-' ∨ c = '+' := by
    intro c hc
    unfold yearText at hc
    split at hc
    · exact .inl (isDigit_of_mem_zeroPadded hc)
    · rw [String.toList_append] at hc
      rcases List.mem_append.1 hc with hc | hc
      · split at hc
        · exact .inr (.inl (List.mem_singleton.1 hc))
        · exact .inr (.inr (List.mem_singleton.1 hc))
      · exact .inl (isDigit_of_mem_zeroPadded hc)
  rw [toList_text, List.append_nil] at hc
  rcases List.mem_append.1 hc with hc | hc
  · exact hyear c hc
  rcases List.mem_cons.1 hc with hc | hc
  · exact .inr (.inl hc)
  rcases List.mem_append.1 hc with hc | hc
  · exact .inl (isDigit_of_mem_zeroPadded hc)
  rcases List.mem_cons.1 hc with hc | hc
  · exact .inr (.inl hc)
  · exact .inl (isDigit_of_mem_zeroPadded hc)

theorem trimmed_text (d : Date) : Trimmed d.text.toList := by
  refine trimmed_of_forall fun c hc => ?_
  rcases mem_text_cases hc with hd | rfl | rfl
  · exact not_isBlank_of_isDigit hd
  · decide
  · decide

end Date

end Custody
