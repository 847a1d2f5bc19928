import Mathlib.Data.List.Forall2
import Custody.Ownership.Fault

/-!
# Mapping with errors

A map that may fail over a list succeeds exactly if it does on every member, and then gives the
results in order (`mapM_eq_ok_iff`).  It fails with the error of the first member on which it does
(`mapM_eq_error_iff`).  Checks that are made one after another do the same (`forM_eq_ok_iff`,
`forM_eq_error_iff`).
-/

namespace Custody

variable {α β ε : Type} {f : α → Except ε β} {l : List α} {r : List β}

theorem map_eq_ok_iff {x : Except ε α} {g : α → β} {b : β} :
    x.map g = .ok b ↔ ∃ a, x = .ok a ∧ g a = b := by
  cases x <;> simp [Except.map]

theorem map_eq_error_iff {x : Except ε α} {g : α → β} {e : ε} :
    x.map g = .error e ↔ x = .error e := by
  cases x <;> simp [Except.map]

theorem mapM_eq_ok_iff : l.mapM f = .ok r ↔ List.Forall₂ (fun a b => f a = .ok b) l r := by
  induction l generalizing r with
  | nil =>
    rw [List.mapM_nil, List.forall₂_nil_left_iff]
    exact ⟨fun h => (Except.ok.inj h).symm, fun h => h ▸ rfl⟩
  | cons a l ih =>
    rw [List.mapM_cons, List.forall₂_cons_left_iff]
    simp only [bind_eq_ok_iff, ih, pure, Except.pure, Except.ok.injEq]
    constructor
    · rintro ⟨b, hb, bs, hbs, rfl⟩
      exact ⟨b, bs, hb, hbs, rfl⟩
    · rintro ⟨b, bs, hb, hbs, rfl⟩
      exact ⟨b, hb, bs, hbs, rfl⟩

theorem mapM_eq_map {g : α → β} (h : ∀ a ∈ l, f a = .ok (g a)) : l.mapM f = .ok (l.map g) := by
  rw [mapM_eq_ok_iff, List.forall₂_map_right_iff, List.forall₂_same]
  exact h

/-- Every result is that of a member. -/
theorem exists_of_mem_mapM (h : l.mapM f = .ok r) {b : β} (hb : b ∈ r) : ∃ a ∈ l, f a = .ok b := by
  obtain ⟨n, hn, rfl⟩ := List.mem_iff_getElem.1 hb
  have hf := mapM_eq_ok_iff.1 h
  have hn' : n < l.length := hf.length_eq ▸ hn
  exact ⟨l[n], List.getElem_mem hn', hf.get hn' hn⟩

theorem mapM_eq_error_iff {e : ε} : l.mapM f = .error e ↔
    ∃ before a after, l = before ++ a :: after ∧ (∀ b ∈ before, ∃ c, f b = .ok c) ∧
      f a = .error e := by
  induction l with
  | nil => simp [pure, Except.pure]
  | cons a l ih =>
    rw [List.mapM_cons, bind_eq_error_iff]
    simp only [bind_eq_error_iff, ih, pure, Except.pure, reduceCtorEq, and_false, exists_false,
      or_false]
    constructor
    · rintro (ha | ⟨b, hb, before, c, after, rfl, hbefore, hc⟩)
      · exact ⟨[], a, l, rfl, nofun, ha⟩
      · exact ⟨a :: before, c, after, rfl, List.forall_mem_cons.2 ⟨⟨b, hb⟩, hbefore⟩, hc⟩
    · rintro ⟨before, c, after, h, hbefore, hc⟩
      cases before with
      | nil => exact .inl ((List.cons.inj h).1 ▸ hc)
      | cons a' before =>
        obtain ⟨rfl, rfl⟩ := List.cons.inj h
        obtain ⟨⟨b, hb⟩, hbefore⟩ := List.forall_mem_cons.1 hbefore
        exact .inr ⟨b, hb, before, c, after, rfl, hbefore, hc⟩

theorem exists_mapM_eq_ok_iff : (∃ r, l.mapM f = .ok r) ↔ ∀ a ∈ l, ∃ b, f a = .ok b := by
  induction l with
  | nil => simp [pure, Except.pure]
  | cons a l ih =>
    rw [List.forall_mem_cons, ← ih]
    simp only [List.mapM_cons, bind_eq_ok_iff]
    constructor
    · rintro ⟨r, b, hb, bs, hbs, -⟩
      exact ⟨⟨b, hb⟩, bs, hbs⟩
    · rintro ⟨⟨b, hb⟩, bs, hbs⟩
      exact ⟨b :: bs, b, hb, bs, hbs, rfl⟩

/-- Members on which the map does the same may take each other's place. -/
theorem mapM_congr {l' : List α} (h : List.Forall₂ (fun a a' => f a = f a') l l') :
    l.mapM f = l'.mapM f := by
  induction h with
  | nil => rfl
  | cons ha _ ih => rw [List.mapM_cons, List.mapM_cons, ha, ih]

/-! ### Checks one after another -/

theorem exists_eq_ok_unit_iff {x : Except ε Unit} : (∃ u, x = .ok u) ↔ x = .ok () :=
  ⟨fun ⟨_, h⟩ => h, fun h => ⟨(), h⟩⟩

theorem forM_eq_map_mapM {f : α → Except ε Unit} : forM l f = (l.mapM f).map fun _ => () := by
  induction l with
  | nil => rfl
  | cons a l ih =>
    rw [List.forM_cons, ih, List.mapM_cons]
    cases f a <;> cases l.mapM f <;> rfl

theorem forM_eq_ok_iff {f : α → Except ε Unit} :
    forM l f = .ok () ↔ ∀ a ∈ l, f a = .ok () := by
  rw [forM_eq_map_mapM, map_eq_ok_iff]
  simpa only [and_true, exists_eq_ok_unit_iff] using exists_mapM_eq_ok_iff (f := f) (l := l)

theorem forM_eq_error_iff {f : α → Except ε Unit} {e : ε} : forM l f = .error e ↔
    ∃ before a after, l = before ++ a :: after ∧ (∀ b ∈ before, f b = .ok ()) ∧
      f a = .error e := by
  simp only [forM_eq_map_mapM, map_eq_error_iff, mapM_eq_error_iff, exists_eq_ok_unit_iff]

end Custody
