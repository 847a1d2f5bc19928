import Custody.Market.Kind
import Custody.Market.Series
import Custody.Ownership.Registry

/-!
# The market cache

A `Market` keeps one series per symbol, timeframe and applied price, and one `Indicator` per series
and kind.  The registry of series shares them through strong handles, so a series can outlive the
market; that of indicators owns them, and each indicator holds its source.  The series themselves
live on a `Heap Series`.

Series are made empty on the first request (`Market.series`, `Market.load`, `Market.indicator`);
`Market.trySeries`, `Market.tryIndicator` and `Market.observe` make nothing.
-/

namespace Custody

/-- A kind of average over a series that it holds. -/
structure Indicator where
  kind : IndicatorKind
  source : Strong
  deriving DecidableEq, Repr

instance : Holder Indicator := ⟨fun i => [.strong i.source]⟩

namespace Indicator

/-- The name under which an indicator is kept: that of its series and its kind. -/
def keyOf (seriesKey : String) (kind : IndicatorKind) : String := seriesKey ++ "/" ++ kind.text

/-- The values that the source stores; none if it is unset. -/
def stored (i : Indicator) (h : Heap Series) : Except Fault (List Float) :=
  match i.source.target with
  | none => .ok []
  | some o => do
    let x ← h.object o
    .ok x.value.values

/-- The averages of what the source stores, in the arithmetic of a build. -/
def values (mode : Arithmetic) (i : Indicator) (h : Heap Series) :
    Except Fault (Except Overflow (List (Option Float))) := do
  let v ← i.stored h
  .ok (i.kind.compute mode v)

/-- The last of some averages, if the window is full there. -/
def lastOf (averages : List (Option Float)) : Option Float := averages.getLast?.join

end Indicator

/-- What a series is asked for by. -/
structure SeriesId where
  symbol : String
  timeframe : Timeframe
  price : AppliedPrice
  deriving DecidableEq, Repr

namespace SeriesId

def key (i : SeriesId) : String := Series.keyOf i.symbol i.timeframe i.price

def fresh (i : SeriesId) : Object Series :=
  { value := { symbol := i.symbol, timeframe := i.timeframe, price := i.price } }

end SeriesId

/-- Feeds bars to the series a handle names; an unset handle takes none. -/
def feedSeries (h : Heap Series) (s : Strong) (bars : List Bar) :
    Except Fault (Heap Series × Option Nat) :=
  match s.target with
  | none => .ok (h, none)
  | some o => do
    let x ← h.object o
    let (series, n) := x.value.feed bars
    .ok (h.setObject o fun x => { x with value := series }, some n)

/-- The series and the indicators that are kept. -/
structure Market where
  series : Roster Strong := .empty
  indicators : Roster Indicator := .empty

/-- How many series and indicators a market keeps, and how many counters are allocated. -/
structure MarketStats where
  series : Nat
  indicators : Nat
  live : Nat
  deriving DecidableEq, Repr

namespace Market

/-- A handle on the series of `i`, made empty on the first request. -/
def openSeries (m : Market) (h : Heap Series) (i : SeriesId) :
    Except Fault (Market × Heap Series × Strong) := do
  let (series, h, s, _, _) ← m.series.lendOrMake h i.key i.fresh
  .ok ({ m with series }, h, s)

/-- Feeds bars to the series of `i`; gives a handle on it and the number of new values. -/
def load (m : Market) (h : Heap Series) (i : SeriesId) (bars : List Bar) :
    Except Fault (Market × Heap Series × Strong × Nat) := do
  let (m, h, s) ← m.openSeries h i
  let (h, n) ← feedSeries h s bars
  .ok (m, h, s, n.getD 0)

/-- The indicator of a kind over the series of `i`, made on the first request. -/
def indicator (m : Market) (h : Heap Series) (i : SeriesId) (kind : IndicatorKind) :
    Except Fault (Market × Heap Series × Indicator) := do
  let key := Indicator.keyOf i.key kind
  match m.indicators.get? key with
  | some x => .ok (m, h, x)
  | none =>
    let (m, h, source) ← m.openSeries h i
    let x : Indicator := ⟨kind, source⟩
    let (indicators, h, _) ← m.indicators.store h key x
    .ok ({ m with indicators }, h, x)

def trySeries (m : Market) (h : Heap Series) (key : String) :
    Except Fault (Heap Series × Option Strong) :=
  m.series.lend h key

def tryIndicator (m : Market) (key : String) : Option Indicator := m.indicators.get? key

/-- A weak handle on the series kept under a name; unbound if there is none. -/
def observe (m : Market) (h : Heap Series) (key : String) :
    Except Fault (Heap Series × Weak) := do
  match ← m.trySeries h key with
  | (h, none) => .ok (h, ⟨none⟩)
  | (h, some s) =>
    let (h, w) ← h.downgrade s
    let (h, _) ← h.release [.strong s]
    .ok (h, w)

def stats (m : Market) (h : Heap Series) : MarketStats :=
  ⟨m.series.size, m.indicators.size, h.live⟩

/-- Releases everything that is kept, the indicators first.  Gives the indicators that were dropped,
and the records of the series that went with the last handles on them. -/
def clear (m : Market) (h : Heap Series) :
    Except Fault (Heap Series × List Indicator × List (DropRecord Series)) := do
  let (h, l) ← m.indicators.releaseAll h
  let (h, l') ← m.series.releaseAll h
  .ok (h, m.indicators.values, l ++ l')

def shutdown (m : Market) (h : Heap Series) : Except Fault (Heap Series) := do
  let (h, _, _) ← m.clear h
  .ok h

end Market

end Custody
