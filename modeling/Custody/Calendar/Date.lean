import Custody.Text.Fixed

/-!
# Dates

A `Date` is a day of the proleptic Gregorian calendar between the years -262143 and 262142.  Dates
are ordered by year, month and day; `Date.rank` turns the order into that of the integers, and
`rank_injective` says that no two dates share a rank.
-/

namespace Custody

def isLeapYear (y : Int) : Bool := y % 4 == 0 && (y % 100 != 0 || y % 400 == 0)

def daysInMonth (y : Int) (m : Nat) : Nat :=
  if m = 2 then if isLeapYear y then 29 else 28
  else if m = 4 ∨ m = 6 ∨ m = 9 ∨ m = 11 then 30
  else 31

def minYear : Int := -262143

def maxYear : Int := 262142

def IsDate (y : Int) (m d : Nat) : Prop :=
  (minYear ≤ y ∧ y ≤ maxYear) ∧ (1 ≤ m ∧ m ≤ 12) ∧ 1 ≤ d ∧ d ≤ daysInMonth y m

instance (y : Int) (m d : Nat) : Decidable (IsDate y m d) := by
  unfold IsDate
  infer_instance

/-- A day of the calendar. -/
@[ext]
structure Date where
  year : Int
  month : Nat
  day : Nat
  isDate : IsDate year month day
  deriving DecidableEq

namespace Date

/-- The date of a year, month and day, if there is such a day. -/
def ofParts? (y : Int) (m d : Nat) : Option Date :=
  if h : IsDate y m d then some ⟨y, m, d, h⟩ else none

def first : Date := ⟨minYear, 1, 1, by decide⟩

def last : Date := ⟨maxYear, 12, 31, by decide⟩

def rank (d : Date) : Int := d.year * 512 + d.month * 32 + d.day

theorem daysInMonth_le (y : Int) (m : Nat) : daysInMonth y m ≤ 31 := by
  unfold daysInMonth
  split
  · split <;> omega
  · split <;> omega

theorem bounds (d : Date) : d.month ≤ 12 ∧ 1 ≤ d.day ∧ d.day ≤ 31 :=
  ⟨d.isDate.2.1.2, d.isDate.2.2.1, Nat.le_trans d.isDate.2.2.2 (daysInMonth_le _ _)⟩

theorem rank_injective {d e : Date} (h : d.rank = e.rank) : d = e := by
  have := d.bounds
  have := e.bounds
  unfold rank at h
  ext <;> omega

instance : LE Date := ⟨fun d e => d.rank ≤ e.rank⟩

instance : LT Date := ⟨fun d e => d.rank < e.rank⟩

instance (d e : Date) : Decidable (d ≤ e) := inferInstanceAs (Decidable (d.rank ≤ e.rank))

instance (d e : Date) : Decidable (d < e) := inferInstanceAs (Decidable (d.rank < e.rank))

/-! ### Writing -/

/-- A year: four digits for 0 to 9999; else a sign and at least four digits. -/
def yearText (y : Int) : String :=
  if 0 ≤ y ∧ y ≤ 9999 then Text.zeroPadded 4 y.natAbs
  else (if y < 0 then "-" else "+") ++ Text.zeroPadded 4 y.natAbs

def text (d : Date) : String :=
  yearText d.year ++ "-" ++ Text.zeroPadded 2 d.month ++ "-" ++ Text.zeroPadded 2 d.day

end Date

end Custody
