import Custody.Market.Cache

/-!
# Market sessions

A `MarketSession` is a market together with the handles on series and the indicators that its user
keeps under names.  A `MarketCommand` is one operation on it; `MarketSession.step` runs it, and one
that is stopped by a fault changes nothing.  `MarketSession.close` releases everything.
-/

namespace Custody

/-- A market and what its user keeps. -/
structure MarketSession where
  heap : Heap Series := {}
  market : Market := {}
  held : Roster Strong := .empty
  seen : Roster Weak := .empty
  kept : Roster Indicator := .empty

/-- One operation on a market session.  A handle made for no name is released at once. -/
inductive MarketCommand where
  | series (dst : Option String) (id : SeriesId)
  /-- A series outside the market. -/
  | ownSeries (dst : Option String) (id : SeriesId)
  | unset (dst : String)
  | load (dst : Option String) (id : SeriesId) (bars : List Bar)
  | feed (name : String) (bars : List Bar)
  | indicator (id : SeriesId) (kind : IndicatorKind)
  | tryIndicator (key : String)
  | trySeries (dst : Option String) (key : String)
  | observe (dst key : String)
  | upgrade (dst : Option String) (src : String)
  | compare (a b : String)
  | inspect (name : String)
  /-- An indicator outside the market, over a series that is held. -/
  | ownIndicator (dst name : String) (kind : IndicatorKind)
  | showIndicator (name : String)
  | dropIndicator (name : String)
  | release (name : String)
  | releaseWeak (name : String)
  | stats
  | shutdown
  /-- Gives the market up for a new one. -/
  | renew

/-- What can be read off an indicator. -/
structure IndicatorView where
  kind : IndicatorKind
  /-- Its averages, in the arithmetic of a build. -/
  values : Arithmetic → Except Overflow (List (Option Float))
  source : Option String
  strong : Nat

/-- The answer to a market command. -/
inductive MarketReply where
  | nothing
  | flag (b : Bool)
  | count (n : Nat)
  | indicator (i : IndicatorView)
  | series (s : Series)
  | stats (s : MarketStats) (seriesKeys indicatorKeys : List String)
  /-- How many indicators and series a shutdown released. -/
  | released (indicators series : Nat)
  | fault (f : Fault)

namespace MarketSession

def heldAt (s : MarketSession) (name : String) : Except Fault Strong :=
  (s.held.get? name).elim (.error .notFound) .ok

def seenAt (s : MarketSession) (name : String) : Except Fault Weak :=
  (s.seen.get? name).elim (.error .notFound) .ok

def keptAt (s : MarketSession) (name : String) : Except Fault Indicator :=
  (s.kept.get? name).elim (.error .notFound) .ok

/-- Keeps a handle just taken in `h` under a name, or releases it if it is for none. -/
def keep (s : MarketSession) (dst : Option String) (h : Heap Series) (x : Strong)
    (reply : MarketReply) : Except Fault (MarketSession × MarketReply) :=
  match dst with
  | none => do
    let (heap, _) ← h.release [.strong x]
    .ok ({ s with heap }, reply)
  | some name => do
    let (held, heap, _) ← s.held.store h name x
    .ok ({ s with heap, held }, reply)

def seriesOf (h : Heap Series) (x : Strong) : Except Fault (Option Series) :=
  match x.target with
  | none => .ok none
  | some o => do
    let y ← h.object o
    .ok (some y.value)

def viewIndicator (h : Heap Series) (i : Indicator) : Except Fault IndicatorView := do
  let v ← i.stored h
  let source ← seriesOf h i.source
  let strong ← h.strongCount i.source
  .ok ⟨i.kind, fun mode => i.kind.compute mode v, source.map Series.key, strong⟩

def exec (s : MarketSession) : MarketCommand → Except Fault (MarketSession × MarketReply)
  | .series dst id => do
    let (market, h, x) ← s.market.openSeries s.heap id
    { s with market }.keep dst h x .nothing
  | .ownSeries dst id => do
    let (h, x) ← s.heap.manage id.fresh
    s.keep dst h x .nothing
  | .unset dst => s.keep (some dst) s.heap ⟨none⟩ .nothing
  | .load dst id bars => do
    let (market, h, x, n) ← s.market.load s.heap id bars
    { s with market }.keep dst h x (.count n)
  | .feed name bars => do
    let (heap, n) ← feedSeries s.heap (← s.heldAt name) bars
    .ok ({ s with heap }, n.elim .nothing .count)
  | .indicator id kind => do
    let (market, heap, i) ← s.market.indicator s.heap id kind
    let v ← viewIndicator heap i
    .ok ({ s with heap, market }, .indicator v)
  | .tryIndicator key => do
    match s.market.tryIndicator key with
    | none => .ok (s, .nothing)
    | some i => .ok (s, .indicator (← viewIndicator s.heap i))
  | .trySeries dst key => do
    match ← s.market.trySeries s.heap key with
    | (_, none) => .ok (s, .flag false)
    | (h, some x) => s.keep dst h x (.flag true)
  | .observe dst key => do
    let (h, w) ← s.market.observe s.heap key
    let (seen, heap, _) ← s.seen.store h dst w
    .ok ({ s with heap, seen }, .nothing)
  | .upgrade dst src => do
    let (h, x) ← s.heap.upgrade (← s.seenAt src)
    s.keep dst h x (.flag x.target.isSome)
  | .compare a b => do
    let x ← s.heldAt a
    let y ← s.heldAt b
    .ok (s, .flag (x.target.isSome && decide (x.target = y.target)))
  | .inspect name => do
    let x ← seriesOf s.heap (← s.heldAt name)
    .ok (s, x.elim .nothing .series)
  | .ownIndicator dst name kind => do
    let (h, x) ← s.heap.clone (← s.heldAt name)
    let i : Indicator := ⟨kind, x⟩
    let v ← viewIndicator h i
    let (kept, heap, _) ← s.kept.store h dst i
    .ok ({ s with heap, kept }, .indicator v)
  | .showIndicator name => do
    let v ← viewIndicator s.heap (← s.keptAt name)
    .ok (s, .indicator v)
  | .dropIndicator name => do
    let (kept, heap, _) ← s.kept.discard s.heap name
    .ok ({ s with heap, kept }, .flag (s.kept.contains name))
  | .release name => do
    let (held, heap, _) ← s.held.discard s.heap name
    .ok ({ s with heap, held }, .flag (s.held.contains name))
  | .releaseWeak name => do
    let (seen, heap, _) ← s.seen.discard s.heap name
    .ok ({ s with heap, seen }, .flag (s.seen.contains name))
  | .stats =>
    .ok (s, .stats (s.market.stats s.heap) s.market.series.keys s.market.indicators.keys)
  | .shutdown => do
    let heap ← s.market.shutdown s.heap
    .ok ({ s with heap, market := {} },
      .released s.market.indicators.size s.market.series.size)
  | .renew => do
    let heap ← s.market.shutdown s.heap
    .ok ({ s with heap, market := {} }, .nothing)

/-- Runs a command.  One that is stopped by a fault changes nothing. -/
def step (s : MarketSession) (c : MarketCommand) : MarketSession × MarketReply :=
  match s.exec c with
  | .ok r => r
  | .error f => (s, .fault f)

def run (s : MarketSession) (cs : List MarketCommand) : MarketSession :=
  cs.foldl (fun s c => (s.step c).1) s

/-- What the handles kept under names show between two commands. -/
structure View where
  /-- Key, size, strong and weak count of each series that is held. -/
  held : List (String × Option (String × Nat × Nat × Nat))
  /-- The counter of each series that is seen. -/
  seen : List (String × Option Counter)
  live : Nat

def viewHeld (h : Heap Series) (x : Strong) :
    Except Fault (Option (String × Nat × Nat × Nat)) := do
  match ← seriesOf h x with
  | none => .ok none
  | some y => .ok (some (y.key, y.size, ← h.strongCount x, ← h.weakCount x))

def view (s : MarketSession) : Except Fault View := do
  let held ← s.held.entries.mapM fun e => do .ok (e.1, ← viewHeld s.heap e.2)
  let seen ← s.seen.entries.mapM fun e => do .ok (e.1, ← s.heap.boundTo e.2)
  .ok ⟨held, seen, s.heap.live⟩

/-- Releases everything; gives the number of counters that stay. -/
def close (s : MarketSession) : Except Fault Nat := do
  let (h, _) ← s.held.releaseAll s.heap
  let (h, _) ← s.seen.releaseAll h
  let (h, _) ← s.kept.releaseAll h
  let h ← s.market.shutdown h
  .ok h.live

end MarketSession

end Custody
