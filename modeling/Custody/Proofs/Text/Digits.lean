import Mathlib.Algebra.Group.Nat.Defs
import Custody.Text.Blank
import Custody.Text.Fixed
import Custody.Text.Integer

/-!
# Digits read back

A text is read as a natural number exactly if it is a `NaturalNumeral` of it and the number fits
(`readNatural_eq_ok_iff`).  The digits of a number are a numeral of it (`naturalNumeral_toDigits`),
and zeros in front of them count for nothing (`ofDigitChars_zeroPadded`).
-/

namespace Custody.Text

variable {cs : List Char} {c : Char} {n m limit width : Nat}

theorem toNat_of_isDigit (h : c.isDigit = true) : 48 ≤ c.toNat ∧ c.toNat ≤ 57 := by
  simpa [Char.isDigit, Char.le_def, UInt32.le_iff_toNat_le] using h

theorem not_isBlank_of_isDigit (h : c.isDigit = true) : isBlank c = false := by
  have := toNat_of_isDigit h
  simp only [isBlank, Bool.or_eq_false_iff, Bool.and_eq_false_iff, decide_eq_false_iff_not,
    beq_eq_false_iff_ne]
  omega

/-! ### Digits in front of digits -/

theorem le_ofDigitChars (n : Nat) (cs : List Char) : n ≤ Nat.ofDigitChars 10 cs n := by
  rw [Nat.ofDigitChars_eq_ofDigitChars_zero]
  have := Nat.le_mul_of_pos_left n (Nat.pow_pos (n := cs.length) (show 0 < 10 by decide))
  omega

theorem readDigits_eq_ok {excess : IntegerError} (hd : ∀ c ∈ cs, c.isDigit = true)
    (h : Nat.ofDigitChars 10 cs n ≤ limit) :
    readDigits limit excess n cs = .ok (Nat.ofDigitChars 10 cs n) := by
  induction cs generalizing n with
  | nil => rfl
  | cons c cs ih =>
    rw [Nat.ofDigitChars_cons] at h ⊢
    have hle : 10 * n + digitValue c ≤ limit := Nat.le_trans (le_ofDigitChars _ cs) h
    rw [readDigits, hd c List.mem_cons_self, if_neg (by decide), if_neg (Nat.not_lt.2 hle)]
    exact ih (fun d hd' => hd d (List.mem_cons_of_mem _ hd')) h

theorem readDigits_eq_ok_iff {excess : IntegerError} (hn : n ≤ limit) :
    readDigits limit excess n cs = .ok m ↔
      (∀ c ∈ cs, c.isDigit = true) ∧ Nat.ofDigitChars 10 cs n = m ∧ m ≤ limit := by
  refine ⟨fun h => ?_, fun ⟨hd, he, hm⟩ => he ▸ readDigits_eq_ok hd (he.symm ▸ hm)⟩
  induction cs generalizing n with
  | nil =>
    obtain rfl : n = m := Except.ok.inj h
    exact ⟨fun c hc => absurd hc List.not_mem_nil, rfl, hn⟩
  | cons c cs ih =>
    rw [readDigits] at h
    split at h
    · cases h
    split at h
    · cases h
    next hc hle =>
    obtain ⟨hd, he, hm⟩ := ih (Nat.not_lt.1 hle) h
    exact ⟨List.forall_mem_cons.2 ⟨by simpa using hc, hd⟩,
      (Nat.ofDigitChars_cons ..).trans he, hm⟩

/-! ### Numerals -/

/-- One or more digits, with a plus sign before them or without one. -/
inductive NaturalNumeral : List Char → Nat → Prop where
  | plain {ds : List Char} (hne : ds ≠ []) (hd : ∀ c ∈ ds, c.isDigit = true) :
      NaturalNumeral ds (Nat.ofDigitChars 10 ds 0)
  | plus {ds : List Char} (hne : ds ≠ []) (hd : ∀ c ∈ ds, c.isDigit = true) :
      NaturalNumeral ('+' :: ds) (Nat.ofDigitChars 10 ds 0)

theorem NaturalNumeral.read (h : NaturalNumeral cs n) (hn : n ≤ maxNatural) :
    readNatural cs = .ok n := by
  cases h with
  | plain hne hd =>
    unfold readNatural
    split
    · exact absurd rfl hne
    · exact absurd (hd '+' List.mem_cons_self) (by decide)
    · exact readDigits_eq_ok hd hn
  | plus hne hd =>
    rw [readNatural, readSigned, List.isEmpty_eq_false_iff.2 hne]
    exact readDigits_eq_ok hd hn

/-- Numerals of numbers that fit are read, and nothing else is. -/
theorem readNatural_eq_ok_iff : readNatural cs = .ok n ↔ NaturalNumeral cs n ∧ n ≤ maxNatural := by
  refine ⟨fun h => ?_, fun h => h.1.read h.2⟩
  unfold readNatural at h
  split at h
  · cases h
  · rw [readSigned] at h
    split at h
    · cases h
    next he =>
    obtain ⟨hd, rfl, hn⟩ := (readDigits_eq_ok_iff (Nat.zero_le _)).1 h
    exact ⟨.plus (fun hnil => he (by rw [hnil]; rfl)) hd, hn⟩
  · next hne _ =>
    obtain ⟨hd, rfl, hn⟩ := (readDigits_eq_ok_iff (Nat.zero_le _)).1 h
    exact ⟨.plain hne hd, hn⟩

/-! ### The digits of a number -/

theorem isDigit_of_mem_toDigits (hc : c ∈ Nat.toDigits 10 n) : c.isDigit = true :=
  Nat.isDigit_of_mem_toDigits (by decide) (by decide) hc

theorem naturalNumeral_toDigits (n : Nat) : NaturalNumeral (Nat.toDigits 10 n) n := by
  have h := @NaturalNumeral.plain (Nat.toDigits 10 n) Nat.toDigits_ne_nil
    fun c => isDigit_of_mem_toDigits
  rwa [Nat.ofDigitChars_ten_toDigits] at h

/-! ### Zeros in front -/

theorem toList_zeroPadded (width n : Nat) : (zeroPadded width n).toList =
    List.replicate (width - (Nat.toDigits 10 n).length) '0' ++ Nat.toDigits 10 n := by
  rw [zeroPadded, String.toList_append, String.toList_ofList, Nat.toList_repr,
    ← String.length_toList, Nat.toList_repr]

theorem isDigit_of_mem_zeroPadded (hc : c ∈ (zeroPadded width n).toList) : c.isDigit = true := by
  rw [toList_zeroPadded] at hc
  rcases List.mem_append.1 hc with hc | hc
  · rw [List.eq_of_mem_replicate hc]
    decide
  · exact isDigit_of_mem_toDigits hc

theorem ofDigitChars_zeroPadded (width n : Nat) :
    Nat.ofDigitChars 10 (zeroPadded width n).toList 0 = n := by
  rw [toList_zeroPadded, Nat.ofDigitChars_append, Nat.ofDigitChars_replicate_zero, Nat.mul_zero,
    Nat.ofDigitChars_ten_toDigits]

theorem length_zeroPadded (hw : 0 < width) (h : n < 10 ^ width) :
    (zeroPadded width n).toList.length = width := by
  have := (Nat.length_toDigits_le_iff (by decide) hw).2 h
  rw [toList_zeroPadded, List.length_append, List.length_replicate]
  omega

theorem zeroPadded_ne_nil (width n : Nat) : (zeroPadded width n).toList ≠ [] := by
  rw [toList_zeroPadded]
  exact List.append_ne_nil_of_right_ne_nil _ Nat.toDigits_ne_nil

end Custody.Text
