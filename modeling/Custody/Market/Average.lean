import Custody.Words

/-!
# Moving averages

The simple, exponential and weighted moving average of a series, over any type with the four
operations and the natural numbers.  Each is a pass over the series that keeps a few sums and shows,
at every position, the average or nothing while the window is not full.

`entries` pairs each value with its position and with the value that leaves the window when it
enters; `scan` is the pass.  The order of the operations is part of the definitions: over doubles,
another order gives other results.

The weighted average divides by half of a product of machine words.  For large periods the product
is none: a build may stop there (`weightProduct`), and `wma` is what it shows if it does not.
-/

namespace Custody

/-- A natural number as the nearest double. -/
instance natCastFloat : NatCast Float := ⟨Float.ofNat⟩

namespace Average

/-- A value entering the window. -/
structure Entry (R : Type) where
  index : Nat
  value : R
  /-- The value that leaves the window at the same time. -/
  leaving : Option R

/-- The entries for the values from position `index` on; `old` are the values that have not left the
window yet. -/
def entriesFrom {R : Type} (period index : Nat) (old : List R) : List R → List (Entry R)
  | [] => []
  | v :: vs =>
    if index < period then ⟨index, v, none⟩ :: entriesFrom period (index + 1) old vs
    else ⟨index, v, old.head?⟩ :: entriesFrom period (index + 1) old.tail vs

def entries {R : Type} (period : Nat) (values : List R) : List (Entry R) :=
  entriesFrom period 0 values values

/-- Runs through a list with a state and collects what each step shows. -/
def scan {σ β γ : Type} (step : σ → β → σ × γ) (s : σ) : List β → List γ
  | [] => []
  | b :: bs =>
    let (s', c) := step s b
    c :: scan step s' bs

variable {R : Type} [Add R] [Sub R] [Mul R] [Div R] [NatCast R]

/-! ### Simple -/

def smaStep (period : Nat) (sum : R) (e : Entry R) : R × Option R :=
  let sum := match e.leaving with
    | none => sum + e.value
    | some old => sum + e.value - old
  (sum, if period ≤ e.index + 1 then some (sum / (period : R)) else none)

def sma (period : Nat) (values : List R) : List (Option R) :=
  if period = 0 then []
  else scan (smaStep period) ((0 : Nat) : R) (entries period values)

/-! ### Weighted -/

/-- The sum of the window with the weights 1 to `period`, and the plain sum. -/
structure WeightedSums (R : Type) where
  weighted : R
  plain : R

/-- Twice the sum of the weights 1 to `period`, computed in machine words. -/
def weightProduct (mode : Arithmetic) (period : Nat) : Except Overflow Nat := do
  let next ← mode.add period 1
  mode.mul period next

/-- The sum of the weights; of their product only the lower 64 bits count. -/
def weightTotal (period : Nat) : R :=
  ((period * (period + 1) % UInt64.size : Nat) : R) / ((2 : Nat) : R)

/-- Moves both sums of the window one position on.  A full window adds the new value with the full
weight and takes every older one down by one. -/
def wmaStep (period : Nat) (s : WeightedSums R) (e : Entry R) : WeightedSums R × Option R :=
  let s := match e.leaving with
    | none => ⟨s.weighted + ((e.index + 1 : Nat) : R) * e.value, s.plain + e.value⟩
    | some old =>
      ⟨s.weighted + ((period : R) * e.value - s.plain), s.plain + (e.value - old)⟩
  (s, if period ≤ e.index + 1 then some (s.weighted / weightTotal period) else none)

/-- The mean of the last `period` values, the newest with the weight `period` and each older one
with one less. -/
def wma (period : Nat) (values : List R) : List (Option R) :=
  if period = 0 then []
  else scan (wmaStep period) ⟨((0 : Nat) : R), ((0 : Nat) : R)⟩ (entries period values)

/-! ### Exponential -/

/-- The current average, and the sum of the values before the window is full. -/
structure SmoothedSums (R : Type) where
  average : R
  sum : R

def smoothing (period : Nat) : R := ((2 : Nat) : R) / ((period : R) + ((1 : Nat) : R))

/-- Starts with the mean of the first `period` values and then moves towards each new value. -/
def emaStep (period : Nat) (s : SmoothedSums R) (e : Entry R) : SmoothedSums R × Option R :=
  if e.index + 1 < period then (⟨s.average, s.sum + e.value⟩, none)
  else if e.index + 1 = period then
    let sum := s.sum + e.value
    let average := sum / (period : R)
    (⟨average, sum⟩, some average)
  else
    let k : R := smoothing period
    let average := e.value * k + s.average * (((1 : Nat) : R) - k)
    (⟨average, s.sum⟩, some average)

def ema (period : Nat) (values : List R) : List (Option R) :=
  if period = 0 then []
  else scan (emaStep period) ⟨((0 : Nat) : R), ((0 : Nat) : R)⟩ (entries period values)

end Average

end Custody
