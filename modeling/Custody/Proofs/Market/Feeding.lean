import Custody.Market.Series

/-!
# Feeding a series

A series takes a bar if its day is later than the last one stored.  What a series does not take it
never takes later, and after it was fed some bars it takes none of them: feeding the same bars
again, in the same order, adds nothing (`Series.feed_again`).

The days of a series ascend (`Series.ascending_feed`), and of bars in order of their days it takes
the first of every day that is later than the last one stored (`Series.mem_feed_iff`).
-/

namespace Custody

/-! ### Days in order -/

namespace Date

theorem lt_irrefl (d : Date) : ¬ d < d := Int.lt_irrefl d.rank

theorem lt_trans {d e f : Date} (h : d < e) (h' : e < f) : d < f := Int.lt_trans h h'

theorem le_trans {d e f : Date} (h : d ≤ e) (h' : e ≤ f) : d ≤ f := Int.le_trans h h'

theorem le_total (d e : Date) : d ≤ e ∨ e ≤ d := Int.le_total d.rank e.rank

theorem le_antisymm {d e : Date} (h : d ≤ e) (h' : e ≤ d) : d = e :=
  rank_injective (Int.le_antisymm h h')

theorem lt_of_le_of_ne {d e : Date} (h : d ≤ e) (hne : d ≠ e) : d < e :=
  Int.lt_iff_le_and_ne.2 ⟨h, fun he => hne (rank_injective he)⟩

theorem not_lt {d e : Date} : ¬ d < e ↔ e ≤ d := Int.not_lt

end Date

namespace Series

variable {s : Series} {b c : Bar} {bars : List Bar}

/-! ### One bar -/

theorem accepts_push (s : Series) (b c : Bar) :
    (s.push b).accepts c = decide (b.date < c.date) := by
  simp [accepts, last?, push]

theorem not_accepts_push_self (s : Series) (b : Bar) : (s.push b).accepts b = false := by
  rw [accepts_push]
  exact decide_eq_false b.date.lt_irrefl

/-- A bar that is not taken is not taken later either. -/
theorem not_accepts_push (hb : s.accepts b = true) (hc : s.accepts c = false) :
    (s.push b).accepts c = false := by
  rw [accepts_push]
  refine decide_eq_false fun hlt => ?_
  unfold accepts at hb hc
  split at hc
  · cases hc
  · next p hp =>
    rw [hp] at hb
    exact of_decide_eq_false hc (Date.lt_trans (of_decide_eq_true hb) hlt)

/-! ### Some bars -/

theorem not_accepts_feed (hc : s.accepts c = false) (bars : List Bar) :
    (s.feed bars).1.accepts c = false := by
  induction bars generalizing s with
  | nil => exact hc
  | cons b bars ih =>
    rw [feed]
    split
    · next hb => exact ih (not_accepts_push hb hc)
    · exact ih hc

/-- A series takes no bar that it was fed before. -/
theorem not_accepts_of_mem (s : Series) (hm : c ∈ bars) : (s.feed bars).1.accepts c = false := by
  induction bars generalizing s with
  | nil => cases hm
  | cons b bars ih =>
    rw [feed]
    rcases List.mem_cons.1 hm with rfl | hm
    · split
      · exact not_accepts_feed (not_accepts_push_self s c) bars
      · next hb => exact not_accepts_feed (Bool.not_eq_true _ ▸ hb) bars
    · split
      · exact ih _ hm
      · exact ih _ hm

theorem feed_eq_self (h : ∀ c ∈ bars, s.accepts c = false) : s.feed bars = (s, 0) := by
  induction bars with
  | nil => rfl
  | cons b bars ih =>
    rw [feed, if_neg (by rw [h b List.mem_cons_self]; decide)]
    exact ih fun c hc => h c (List.mem_cons_of_mem _ hc)

/-- Feeding the same bars again adds nothing. -/
theorem feed_again (s : Series) (bars : List Bar) :
    (s.feed bars).1.feed bars = ((s.feed bars).1, 0) :=
  feed_eq_self fun _ hc => s.not_accepts_of_mem hc

/-- A series that was fed some bars has values. -/
theorem values_feed_ne_nil (s : Series) (hm : c ∈ bars) : (s.feed bars).1.values ≠ [] := by
  intro e
  have hc := s.not_accepts_of_mem hm
  rw [values, List.map_eq_nil_iff, Array.toList_eq_nil_iff] at e
  rw [accepts, last?, e] at hc
  cases hc

/-- The number that comes with feeding is that of the values added. -/
theorem size_feed (s : Series) (bars : List Bar) :
    (s.feed bars).1.size = s.size + (s.feed bars).2 := by
  induction bars generalizing s with
  | nil => rfl
  | cons b bars ih =>
    rw [feed]
    split
    · have hpush : (s.push b).size = s.size + 1 := by simp [push, size]
      have := ih (s.push b)
      rw [hpush] at this
      show ((s.push b).feed bars).1.size = s.size + (((s.push b).feed bars).2 + 1)
      omega
    · exact ih s

/-! ### Days stored -/

/-- The days of a series are in order, and none is there twice. -/
def Ascending (s : Series) : Prop := s.points.toList.Pairwise fun p q => p.1 < q.1

/-- The series ends before a day. -/
def EndsBefore (s : Series) (d : Date) : Prop := ∀ p ∈ s.last?, p.1 < d

theorem accepts_iff : s.accepts b = true ↔ s.EndsBefore b.date := by
  unfold accepts EndsBefore
  split
  · next h => simp [h]
  · next p h => simp [h]

theorem endsBefore_push {d : Date} : (s.push b).EndsBefore d ↔ b.date < d := by
  simp [EndsBefore, last?, push]

/-- In order, all days are earlier than one that the series ends before. -/
theorem Ascending.lt_of_endsBefore {d : Date} (hs : s.Ascending) (hd : s.EndsBefore d) :
    ∀ p ∈ s.points.toList, p.1 < d := by
  intro p hp
  obtain ⟨ps, q, hps⟩ :=
    (List.eq_nil_or_concat s.points.toList).resolve_left (List.ne_nil_of_mem hp)
  rw [List.concat_eq_append] at hps
  have hq : q.1 < d := by
    refine hd q ?_
    rw [last?, ← Array.getLast?_toList, hps, List.getLast?_concat]
    rfl
  rw [Ascending, hps, List.pairwise_append] at hs
  rw [hps] at hp
  rcases List.mem_append.1 hp with hp | hp
  · exact Date.lt_trans (hs.2.2 p hp q List.mem_cons_self) hq
  · exact List.mem_singleton.1 hp ▸ hq

theorem Ascending.push (hs : s.Ascending) (hb : s.accepts b = true) : (s.push b).Ascending := by
  rw [Ascending, Series.push, Array.toList_push, List.pairwise_append]
  refine ⟨hs, List.pairwise_singleton _ _, fun p hp q hq => ?_⟩
  obtain rfl := List.mem_singleton.1 hq
  exact hs.lt_of_endsBefore (accepts_iff.1 hb) p hp

theorem ascending_feed (hs : s.Ascending) (bars : List Bar) : (s.feed bars).1.Ascending := by
  induction bars generalizing s with
  | nil => exact hs
  | cons b bars ih =>
    rw [feed]
    split
    · next hb => exact ih (hs.push hb)
    · exact ih hs

theorem mem_push_iff {d : Date} {v : Float} :
    (d, v) ∈ (s.push b).points ↔ (d, v) ∈ s.points ∨ d = b.date ∧ v = s.price.of b := by
  rw [push, Array.mem_push, Prod.mk.injEq]

/-- Of bars in order, the first of every day is taken that is later than the last one stored. -/
theorem mem_feed_iff {d : Date} {v : Float} (hbars : bars.Pairwise fun b c => b.date ≤ c.date) :
    (d, v) ∈ (s.feed bars).1.points ↔ (d, v) ∈ s.points ∨
      s.EndsBefore d ∧ ∃ b, bars.find? (·.date = d) = some b ∧ v = s.price.of b := by
  induction bars generalizing s with
  | nil => simp [feed]
  | cons b bars ih =>
    obtain ⟨hle, hbars⟩ := List.pairwise_cons.1 hbars
    rw [feed]
    by_cases hd : b.date = d
    · -- no later bar of the day is taken, be this one or not
      subst hd
      rw [List.find?_cons_of_pos (by simp)]
      split
      · next hb =>
        rw [ih hbars, endsBefore_push, mem_push_iff]
        simp [b.date.lt_irrefl, accepts_iff.1 hb]
      · next hb =>
        rw [accepts_iff] at hb
        rw [ih hbars]
        simp only [hb, false_and]
    · rw [List.find?_cons_of_neg (by simp [hd])]
      split
      · next hb =>
        rw [ih hbars, endsBefore_push, mem_push_iff]
        have hlater : (∃ c, bars.find? (·.date = d) = some c ∧ v = s.price.of c) →
            b.date < d ∧ s.EndsBefore d := by
          rintro ⟨c, hc, -⟩
          have hcd : c.date = d := by simpa using List.find?_some hc
          have hlt := Date.lt_of_le_of_ne (hcd ▸ hle c (List.mem_of_find?_eq_some hc)) hd
          exact ⟨hlt, fun p hp => Date.lt_trans (accepts_iff.1 hb p hp) hlt⟩
        constructor
        · rintro ((h | ⟨rfl, -⟩) | ⟨-, h⟩)
          · exact .inl h
          · exact absurd rfl hd
          · exact .inr ⟨(hlater h).2, h⟩
        · rintro (h | ⟨-, h⟩)
          · exact .inl (.inl h)
          · exact .inr ⟨(hlater h).1, h⟩
      · exact ih hbars

end Series

end Custody
