import Custody.Market.Bar
import Custody.Market.Timeframe

/-!
# Series

A `Series` holds one value per day for a symbol: the applied price of the first bar of the day that
it was fed.  Bars must come in the order of their dates; one that is not later than the last stored
value is passed over, so feeding the same bars again adds nothing.
-/

namespace Custody

/-- The values of a symbol, day by day. -/
structure Series where
  symbol : String
  timeframe : Timeframe
  price : AppliedPrice
  points : Array (Date × Float) := #[]

namespace Series

def keyOf (symbol : String) (timeframe : Timeframe) (price : AppliedPrice) : String :=
  symbol ++ "/" ++ timeframe.text ++ "/" ++ price.text

def key (s : Series) : String := keyOf s.symbol s.timeframe s.price

def last? (s : Series) : Option (Date × Float) := s.points.back?

def accepts (s : Series) (b : Bar) : Bool :=
  match s.last? with
  | none => true
  | some p => decide (p.1 < b.date)

def push (s : Series) (b : Bar) : Series :=
  { s with points := s.points.push (b.date, s.price.of b) }

/-- Adds the value of every bar that is later than everything stored before it; gives the number of
values added. -/
def feed (s : Series) : List Bar → Series × Nat
  | [] => (s, 0)
  | b :: bs =>
    if s.accepts b then
      let (s, n) := (s.push b).feed bs
      (s, n + 1)
    else s.feed bs

def size (s : Series) : Nat := s.points.size

def values (s : Series) : List Float := s.points.toList.map Prod.snd

/-- The sum of the stored values, added up in the order of their days. -/
def total (s : Series) : Float := s.values.foldl (· + ·) 0

end Series

end Custody
