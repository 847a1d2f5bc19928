import Custody.Text.Case

/-!
# What case mappings keep

Upper case makes letters only: a character of ASCII before the letters stands in the upper case of a
text if and only if it stands in the text (`mem_upper_iff`), and no text becomes empty
(`upper_ne_nil`).  Digits, brackets and capitals of ASCII stay as they are in upper case
(`upper_eq_self`), and its small letters in lower case (`lower_eq_self`).
-/

namespace Custody.Text

variable {cs : List Char} {c d : Char}

/-! ### The tables -/

theorem upperFull_ne_nil : ∀ e ∈ upperFull, e.2 ≠ [] := by decide

theorem le_of_mem_upperFull : ∀ e ∈ upperFull, ∀ n ∈ e.2, 65 ≤ n := by decide

theorem le_of_mem_upperRanges : ∀ r ∈ upperRanges, 65 ≤ r.first + r.shift := by decide +kernel

theorem toUpper_ofNat : ∀ n < 97, (Char.ofNat n).toUpper = Char.ofNat n := by decide +kernel

theorem toLower_ofNat : ∀ n < 128, 91 ≤ n → (Char.ofNat n).toLower = Char.ofNat n := by
  decide +kernel

theorem le_toUpper_ofNat : ∀ n < 128, 97 ≤ n → 65 ≤ (Char.ofNat n).toUpper.toNat := by
  decide +kernel

theorem toNat_ofNat_cases (n : Nat) : (Char.ofNat n).toNat = n ∨ (Char.ofNat n).toNat = 0 := by
  by_cases h : n.isValidChar
  · exact .inl (congrArg Char.toNat (dif_pos h))
  · exact .inr (congrArg Char.toNat (dif_neg h))

/-! ### One character -/

theorem upperChar_eq_self (h : c.toNat < 97) : upperChar c = [c] := by
  have hc := toUpper_ofNat c.toNat h
  rw [Char.ofNat_toNat] at hc
  rw [upperChar, if_pos (by omega), hc]

theorem upperChar_ne_nil (c : Char) : upperChar c ≠ [] := by
  unfold upperChar
  split
  · exact List.cons_ne_nil _ _
  · split
    · next ns hns =>
      obtain ⟨l, r, hl, -⟩ := List.lookup_eq_some_iff.1 hns
      have hm : (c.toNat, ns) ∈ upperFull := hl ▸ List.mem_append_right _ List.mem_cons_self
      simpa using upperFull_ne_nil _ hm
    · exact List.cons_ne_nil _ _

/-- Upper case makes letters only. -/
theorem eq_of_mem_upperChar (hd : d ∈ upperChar c) (h₀ : 0 < d.toNat) (h : d.toNat < 65) :
    d = c := by
  unfold upperChar at hd
  split at hd
  · next hc =>
    obtain rfl := List.mem_singleton.1 hd
    by_cases hlt : c.toNat < 97
    · have := upperChar_eq_self hlt
      rw [upperChar, if_pos hc] at this
      exact (List.cons.inj this).1
    · have := le_toUpper_ofNat c.toNat hc (by omega)
      rw [Char.ofNat_toNat] at this
      omega
  · split at hd
    · next ns hns =>
      obtain ⟨n, hn, rfl⟩ := List.mem_map.1 hd
      obtain ⟨l, r, hl, -⟩ := List.lookup_eq_some_iff.1 hns
      have hm : (c.toNat, ns) ∈ upperFull := hl ▸ List.mem_append_right _ List.mem_cons_self
      have := le_of_mem_upperFull _ hm n hn
      rcases toNat_ofNat_cases n with e | e <;> omega
    · obtain rfl := List.mem_singleton.1 hd
      cases hb : upperRanges.findSome? (·.shifted? c.toNat) with
      | none => rfl
      | some b =>
        rw [hb, Option.getD_some] at h h₀
        obtain ⟨r, hr, e⟩ := List.exists_of_findSome?_eq_some hb
        unfold CaseRange.shifted? at e
        split at e
        · next hin =>
          obtain rfl := Option.some.inj e
          simp only [Bool.and_eq_true, decide_eq_true_eq] at hin
          have := le_of_mem_upperRanges r hr
          rcases toNat_ofNat_cases (c.toNat + r.shift).toNat with e | e <;> omega
        · cases e

/-! ### Texts -/

theorem upper_eq_self (h : ∀ c ∈ cs, c.toNat < 97) : upper cs = cs := by
  induction cs with
  | nil => rfl
  | cons c cs ih =>
    rw [upper, List.flatMap_cons, upperChar_eq_self (h c List.mem_cons_self), ← upper,
      ih fun d hd => h d (List.mem_cons_of_mem _ hd)]
    rfl

theorem upper_ne_nil (h : cs ≠ []) : upper cs ≠ [] := by
  obtain ⟨c, cs, rfl⟩ := List.exists_cons_of_ne_nil h
  rw [upper, List.flatMap_cons]
  exact List.append_ne_nil_of_left_ne_nil (upperChar_ne_nil c) _

theorem mem_upper_iff (h₀ : 0 < d.toNat) (h : d.toNat < 65) : d ∈ upper cs ↔ d ∈ cs := by
  rw [upper, List.mem_flatMap]
  constructor
  · rintro ⟨c, hc, hd⟩
    rwa [eq_of_mem_upperChar hd h₀ h]
  · intro hd
    exact ⟨d, hd, by rw [upperChar_eq_self (by omega)]; exact List.mem_singleton_self d⟩

/-! ### Lower case -/

theorem lowerChar_eq_self (h₁ : 91 ≤ c.toNat) (h₂ : c.toNat < 128) : lowerChar c = [c] := by
  have hc := toLower_ofNat c.toNat h₂ h₁
  rw [Char.ofNat_toNat] at hc
  rw [lowerChar, if_pos h₂, hc]

theorem lowerAfter_eq_self (before : List Char) (h : ∀ c ∈ cs, 91 ≤ c.toNat ∧ c.toNat < 128) :
    lowerAfter before cs = cs := by
  induction cs generalizing before with
  | nil => rfl
  | cons c cs ih =>
    have hc := h c List.mem_cons_self
    have hsigma : c ≠ 'Σ' := by
      rintro rfl
      exact absurd hc.2 (by decide)
    rw [lowerAfter, if_neg hsigma, lowerChar_eq_self hc.1 hc.2,
      ih _ fun d hd => h d (List.mem_cons_of_mem _ hd)]
    rfl

theorem lower_eq_self (h : ∀ c ∈ cs, 91 ≤ c.toNat ∧ c.toNat < 128) : lower cs = cs :=
  lowerAfter_eq_self [] h

end Custody.Text
