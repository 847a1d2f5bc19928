import Custody.Config.Plan
import Custody.Market.Cache
import Custody.Market.PriceFile
import Custody.Report.Sink
import Custody.Text.Fixed

/-!
# The load pipeline

`Pipeline.runOn` carries out a load plan: it asks a port for the bars of every code, loads them into
a market, writes a table of the series and indicators kept by it, shuts the market down and writes
what was released.  Codes without bars are skipped.  Each text is written when its turn comes, so a
writer that refuses one ends the run with whatever is held at that moment.  So does an average that
a build with checked arithmetic cannot compute: the run is unwound then.  However a run ends, it
lets go of all that it holds (`Pipeline.leave`).

`Pipeline.run` is a run with a source whose answers depend on the question only and a sink that
keeps the text.
-/

namespace Custody

/-- What a run of the pipeline comes to. -/
structure LoadSummary where
  series : Nat
  indicators : Nat
  added : Nat
  skipped : List String
  /-- How many series were still there after the shutdown. -/
  alive : Nat
  deriving DecidableEq, Repr

namespace Pipeline

/-- Why a run comes to no summary. -/
inductive Stop where
  /-- It gives an error back. -/
  | error (e : Error)
  /-- It gives nothing back, but is unwound. -/
  | overflow (o : Overflow)
  deriving DecidableEq, Repr

def Stop.refused (reason : String) : Stop := .error (.io reason)

/-! ### Loading -/

/-- What a run holds and has come to so far. -/
structure Loading where
  heap : Heap Series
  market : Market := {}
  /-- A weak handle on each series that was loaded. -/
  observers : List Weak := []
  skipped : List String := []
  added : Nat := 0
  /-- What the port was asked for. -/
  asked : List Query := []
  /-- The indicators that were dropped. -/
  closed : List Indicator := []
  /-- The series that were dropped. -/
  log : List (DropRecord Series) := []

def queryOf (p : LoadPlan) (code : String) : Query := ⟨code, p.exchange, p.start, p.stop⟩

def seriesOf (p : LoadPlan) (code : String) : SeriesId := ⟨code, p.timeframe, p.price⟩

namespace Loading

def release (s : Loading) (ts : List Handle) : Except Fault Loading := do
  let (heap, log) ← s.heap.release ts
  .ok { s with heap, log := s.log ++ log }

def shutdown (s : Loading) : Except Fault Loading := do
  let (heap, closed, log) ← s.market.clear s.heap
  .ok { s with heap, market := {}, closed := s.closed ++ closed, log := s.log ++ log }

/-- Makes the indicators of the given kinds over the series of `i`. -/
def addIndicators (s : Loading) (i : SeriesId) : List IndicatorKind → Except Fault Loading
  | [] => .ok s
  | k :: ks => do
    let (market, heap, _) ← s.market.indicator s.heap i k
    { s with market, heap }.addIndicators i ks

/-- Observes a series, unless it is observed already. -/
def observe (s : Loading) (x : Strong) : Except Fault Loading := do
  let seen ← s.observers.mapM s.heap.visible
  if seen.contains x.target then .ok s
  else
    let (heap, w) ← s.heap.downgrade x
    .ok { s with heap, observers := s.observers ++ [w] }

def addBars (s : Loading) (p : LoadPlan) (code : String) (bars : List Bar) :
    Except Fault Loading := do
  let i := seriesOf p code
  let (market, heap, x, n) ← s.market.load s.heap i bars
  let s ← { s with market, heap, added := s.added + n }.addIndicators i p.indicators
  let s ← s.observe x
  s.release [.strong x]

def skip (s : Loading) (code : String) : Loading := { s with skipped := s.skipped ++ [code] }

/-- Asks for the bars of the codes in order and loads them, up to the first error that is more than
a lack of bars. -/
def addCodes (s : Loading) (p : LoadPlan) (port : Port) :
    List String → Except Fault (Loading × Option Error)
  | [] => .ok (s, none)
  | c :: cs =>
    let q := queryOf p c
    let answer := port s.asked q
    let s := { s with asked := s.asked ++ [q] }
    match answer with
    | .ok [] => (s.skip c).addCodes p port cs
    | .error (.noData ..) => (s.skip c).addCodes p port cs
    | .error e => .ok (s, some e)
    | .ok bars => do
      let s ← s.addBars p c bars
      s.addCodes p port cs

end Loading

/-! ### The texts -/

def row (name size strong last : String) : String :=
  Text.padRight 28 name ++ " " ++ Text.padLeft 6 size ++ " " ++ Text.padLeft 8 strong ++ " " ++
    Text.padLeft 12 last ++ "\n"

def heading : String := row "storage" "bars" "strong" "last"

def valueText (x : Float) : String := Text.fixed 4 x

/-- The row of a series: how many values it has, how many strong handles are on it, and its last
value. -/
def seriesLine (key : String) (s : Series) (strong : Nat) : String :=
  row key s.size.repr strong.repr ((s.last?.map fun p => valueText p.2).getD "-")

/-- The row of an indicator: the last of its averages. -/
def indicatorLine (key : String) (averages : List (Option Float)) : String :=
  row key "" "" (((Indicator.lastOf averages).map valueText).getD "warmup")

def totals (s : MarketStats) : String :=
  "storages: " ++ s.series.repr ++ ", indicators: " ++ s.indicators.repr ++
    ", live counters on thread: " ++ s.live.repr ++ "\n"

def farewell (indicators series alive : Nat) : String :=
  "shutdown released " ++ indicators.repr ++ " indicators, " ++ series.repr ++ " storages; " ++
    alive.repr ++ " still alive\n"

/-! ### Writing -/

variable {σ : Type}

/-- How far the writing has come, and why it goes no further, if it does not. -/
structure Progress (σ : Type) where
  loading : Loading
  sink : σ
  stop : Option Stop

/-- A part of the report, which is written by a run to a writer that is in some state. -/
abbrev Part (σ : Type) := Loading → σ → Except Fault (Progress σ)

/-- Writes the parts in order, up to the first that stops the run. -/
def inOrder : List (Part σ) → Part σ
  | [], s, out => .ok ⟨s, out, none⟩
  | f :: fs, s, out => do
    let r ← f s out
    match r.stop with
    | none => inOrder fs r.loading r.sink
    | some _ => .ok r

def putText (w : Writer σ) (t : String) : Part σ := fun s out =>
  let (out, refusal) := w.write out t
  .ok ⟨s, out, refusal.map .refused⟩

/-- Writes the row of a series.  It shows the strong handles besides the one taken for looking,
which is let go after the row was given to the writer, whether or not the writer took it. -/
def putSeries (w : Writer σ) (key : String) : Part σ := fun s out => do
  match ← s.market.trySeries s.heap key with
  | (heap, none) => .ok ⟨{ s with heap }, out, none⟩
  | (heap, some x) =>
    match x.target with
    | none => .ok ⟨{ s with heap }, out, none⟩
    | some o =>
      let y ← heap.object o
      let strong ← heap.strongCount x
      let (out, refusal) := w.write out (seriesLine key y.value (strong - 1))
      let s ← { s with heap }.release [.strong x]
      .ok ⟨s, out, refusal.map .refused⟩

/-- Writes the row of an indicator, if its averages can be computed. -/
def putIndicator (mode : Arithmetic) (w : Writer σ) (key : String) : Part σ := fun s out =>
  match s.market.tryIndicator key with
  | none => .ok ⟨s, out, none⟩
  | some a => do
    match ← a.values mode s.heap with
    | .ok averages => putText w (indicatorLine key averages) s out
    | .error o => .ok ⟨s, out, some (.overflow o)⟩

/-- The table of what a market keeps, and the line of totals. -/
def table (mode : Arithmetic) (w : Writer σ) (m : Market) (stats : MarketStats) : List (Part σ) :=
  putText w heading ::
      (m.series.keys.map (putSeries w) ++ m.indicators.keys.map (putIndicator mode w)) ++
    [putText w (totals stats)]

/-! ### Runs -/

/-- What a run leaves. -/
structure Outcome (σ : Type) where
  result : Except Stop LoadSummary
  heap : Heap Series
  sink : σ
  asked : List Query
  /-- The indicators that were dropped, in order. -/
  closed : List Indicator
  /-- The series that were dropped, in order. -/
  log : List (DropRecord Series)

/-- Ends a run, also one that is unwound: lets go of the observers, and then of all that the market
still keeps. -/
def leave (s : Loading) (out : σ) (result : Except Stop LoadSummary) :
    Except Fault (Outcome σ) := do
  let s ← s.release (s.observers.map .weak)
  let s ← s.shutdown
  .ok ⟨result, s.heap, out, s.asked, s.closed, s.log⟩

/-- Shuts the market down and writes what was released. -/
def finish (w : Writer σ) (stats : MarketStats) (s : Loading) (out : σ) :
    Except Fault (Outcome σ) := do
  let indicators := s.market.indicators.size
  let series := s.market.series.size
  let s ← s.shutdown
  let seen ← s.observers.mapM s.heap.objectExists
  let alive := seen.count true
  match w.write out (farewell indicators series alive) with
  | (out, some reason) => leave s out (.error (.refused reason))
  | (out, none) => leave s out (.ok ⟨stats.series, stats.indicators, s.added, s.skipped, alive⟩)

/-- Writes the table of what was loaded and goes on to the shutdown. -/
def present (mode : Arithmetic) (w : Writer σ) (s : Loading) (out : σ) :
    Except Fault (Outcome σ) := do
  let stats := s.market.stats s.heap
  let r ← inOrder (table mode w s.market stats) s out
  match r.stop with
  | some stop => leave r.loading r.sink (.error stop)
  | none => finish w stats r.loading r.sink

/-- Carries out a plan on a heap, with a port to ask and a writer to write to. -/
def runOn (mode : Arithmetic) (w : Writer σ) (port : Port) (h : Heap Series) (p : LoadPlan)
    (out : σ) : Except Fault (Outcome σ) := do
  match ← ({ heap := h } : Loading).addCodes p port p.codes with
  | (s, some e) => leave s out (.error (.error e))
  | (s, none) =>
    if s.market.series.size = 0 then
      leave s out (.error (.error (.noData (String.intercalate "," p.codes) p.exchange)))
    else present mode w s out

def outOfRoom : Error := .io Sink.outOfRoom

def run (mode : Arithmetic) (h : Heap Series) (p : LoadPlan) (source : Source) (sink : Sink) :
    Except Fault (Outcome Sink) :=
  runOn mode Sink.writer (fun _ => source) h p sink

end Pipeline

end Custody
