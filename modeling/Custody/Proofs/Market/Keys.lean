import Mathlib.Data.List.Basic
import Custody.Market.Cache
import Custody.Proofs.Text.Digits

/-!
# Keys can be read back

The key of a series is its symbol, its timeframe and its applied price with slashes between them,
and the key of an indicator is that of its series, a slash and its kind.  A symbol can be any text,
but no timeframe, applied price or kind has a slash in its name.  So a key can be read back from the
right: different series and different indicators have different keys.
-/

namespace Custody

/-- A text that ends in a part without a separator can be cut at its last separator in one way
only. -/
theorem append_sep_inj {α : Type} {a a' b b' : List α} {c : α} (hb : c ∉ b) (hb' : c ∉ b')
    (e : a ++ c :: b = a' ++ c :: b') : a = a' ∧ b = b' := by
  rcases List.append_eq_append_iff.1 e with ⟨l, rfl, h⟩ | ⟨l, rfl, h⟩
  · cases l with
    | nil => simpa using h
    | cons d l =>
      obtain ⟨-, rfl⟩ := List.cons.inj h
      exact absurd (List.mem_append_right _ List.mem_cons_self) hb
  · cases l with
    | nil => simpa using h.symm
    | cons d l =>
      obtain ⟨-, rfl⟩ := List.cons.inj h
      exact absurd (List.mem_append_right _ List.mem_cons_self) hb'

/-- Two texts with a slash before their last parts are the same only if the parts are. -/
theorem slash_inj {a a' b b' : String} (hb : '/' ∉ b.toList) (hb' : '/' ∉ b'.toList)
    (e : a ++ "/" ++ b = a' ++ "/" ++ b') : a = a' ∧ b = b' := by
  have split : ∀ a b : String, (a ++ "/" ++ b).toList = a.toList ++ '/' :: b.toList := fun a b => by
    rw [String.toList_append, String.toList_append, List.append_assoc]
    rfl
  have h := congrArg String.toList e
  rw [split, split] at h
  obtain ⟨ha, hb⟩ := append_sep_inj hb hb' h
  exact ⟨String.toList_inj.1 ha, String.toList_inj.1 hb⟩

/-! ### The last parts of keys -/

theorem Timeframe.slash_not_mem (t : Timeframe) : '/' ∉ t.text.toList := by
  cases t <;> decide

theorem Timeframe.find?_text (t : Timeframe) : all.find? (·.text = t.text) = some t := by
  cases t <;> decide

theorem Timeframe.text_injective {t t' : Timeframe} (e : t.text = t'.text) : t = t' :=
  Option.some.inj (by rw [← t.find?_text, e, t'.find?_text])

theorem AppliedPrice.slash_not_mem (p : AppliedPrice) : '/' ∉ p.text.toList := by
  cases p <;> decide

theorem AppliedPrice.find?_text (p : AppliedPrice) : all.find? (·.text = p.text) = some p := by
  cases p <;> decide

theorem AppliedPrice.text_injective {p p' : AppliedPrice} (e : p.text = p'.text) : p = p' :=
  Option.some.inj (by rw [← p.find?_text, e, p'.find?_text])

/-- The text of a kind: the name of its method, and the digits of its period in brackets. -/
theorem IndicatorKind.toList_text (k : IndicatorKind) :
    k.text.toList = k.method.text.toList ++ '(' :: (Nat.toDigits 10 k.period ++ [')']) := by
  rw [text, String.toList_append, String.toList_append, String.toList_append, Nat.toList_repr,
    List.append_assoc, List.append_assoc]
  rfl

theorem IndicatorKind.slash_not_mem (k : IndicatorKind) : '/' ∉ k.text.toList := by
  rw [toList_text]
  simp only [List.mem_append, List.mem_cons, List.not_mem_nil, not_or]
  refine ⟨by cases k.method <;> decide, by decide, fun hc => ?_, by decide⟩
  exact absurd (Text.isDigit_of_mem_toDigits hc) (by decide)

theorem Method.text_injective {m m' : Method} (e : m.text.toList = m'.text.toList) : m = m' := by
  cases m <;> cases m' <;> first | rfl | exact absurd e (by decide)

theorem IndicatorKind.text_injective {k k' : IndicatorKind} (e : k.text = k'.text) : k = k' := by
  have h := congrArg String.toList e
  rw [toList_text, toList_text] at h
  -- the name of every method has three letters
  have hlen : k.method.text.toList.length = k'.method.text.toList.length := by
    cases k.method <;> cases k'.method <;> rfl
  obtain ⟨hm, hp⟩ := List.append_inj h hlen
  have hd : k.period = k'.period := by
    have h := congrArg (Nat.ofDigitChars 10 · 0) (List.append_cancel_right (List.cons.inj hp).2)
    simpa only [Nat.ofDigitChars_ten_toDigits] using h
  obtain ⟨m, p⟩ := k
  obtain ⟨m', p'⟩ := k'
  exact congr (congrArg IndicatorKind.mk (Method.text_injective hm)) hd

/-! ### Keys -/

/-- Different series have different keys. -/
theorem SeriesId.key_injective {i i' : SeriesId} (e : i.key = i'.key) : i = i' := by
  obtain ⟨h, hp⟩ := slash_inj i.price.slash_not_mem i'.price.slash_not_mem e
  obtain ⟨hs, ht⟩ := slash_inj i.timeframe.slash_not_mem i'.timeframe.slash_not_mem h
  obtain ⟨s, t, p⟩ := i
  obtain ⟨s', t', p'⟩ := i'
  obtain rfl : s = s' := hs
  obtain rfl : t = t' := Timeframe.text_injective ht
  obtain rfl : p = p' := AppliedPrice.text_injective hp
  rfl

/-- Different kinds over one series and indicators over different series have different keys. -/
theorem Indicator.keyOf_injective {s s' : String} {k k' : IndicatorKind}
    (e : keyOf s k = keyOf s' k') : s = s' ∧ k = k' := by
  obtain ⟨hs, hk⟩ := slash_inj k.slash_not_mem k'.slash_not_mem e
  exact ⟨hs, IndicatorKind.text_injective hk⟩

end Custody
