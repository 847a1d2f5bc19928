import Custody.Calendar.Reading
import Custody.Config.Settings
import Custody.Market.Bar
import Custody.Market.Kind
import Custody.Market.Timeframe

/-!
# Load plans

A `LoadPlan` says which bars to load from where and which indicators to keep over them.
`LoadPlan.ofSettings` builds it from settings and stops at the first one that is missing or makes no
sense, in a fixed order; `LoadPlan.override` replaces the codes and the exchange afterwards.
-/

namespace Custody

/-- Which bars to load from where, and which indicators to keep over them. -/
structure LoadPlan where
  dataPath : String
  exchange : String
  codes : List String
  start : Date
  stop : Date
  timeframe : Timeframe
  price : AppliedPrice
  indicators : List IndicatorKind
  deriving DecidableEq

namespace LoadPlan

open Text

/-- The error for a value of the section `load` that makes no sense. -/
def invalid (key reason : String) : Error := .configInvalid "load" key reason

/-- A setting that must not be blank, without the blanks at its ends. -/
def required (s : Settings) (heading key : String) : Except Error String :=
  match s.text? heading key with
  | none => .error (.configMissing heading key)
  | some t =>
    if isBlankText t.toList then .error (.configMissing heading key) else .ok (trimString t)

def readCode (cs : List Char) : Except Error String :=
  match trim cs with
  | [] => .error (invalid "codes" "empty token in code list")
  | code => .ok (String.ofList (upper code))

def readCodes (s : String) : Except Error (List String) := (fields ',' s.toList).mapM readCode

/-- Reads a date, or takes the default if the setting is missing. -/
def readDate (s : Settings) (key : String) (default : Date) : Except Error Date :=
  match s.text? "load" key with
  | none => .ok default
  | some t =>
    match Date.read (trim t.toList) with
    | .ok d => .ok d
    | .error _ => .error (invalid key ("invalid " ++ key ++ " format, expected YYYY-MM-DD"))

def readDates (s : Settings) : Except Error (Date × Date) := do
  let start ← readDate s "start_date" Date.first
  let stop ← readDate s "end_date" Date.last
  if stop < start then .error (invalid "start_date" "start_date must not be after end_date")
  else .ok (start, stop)

/-- Reads a named value, or takes the default if the setting is missing. -/
def readNamed {α : Type} (s : Settings) (key : String) (read : String → Except String α)
    (default : α) : Except Error α :=
  match s.text? "load" key with
  | none => .ok default
  | some t => (read t).mapError (invalid key)

/-- Reads the list of indicators, which is empty if the setting is missing. -/
def readIndicators (s : Settings) : Except Error (List IndicatorKind) :=
  match s.text? "load" "indicators" with
  | none => .ok []
  | some t => IndicatorKind.readList t.toList

def ofSettings (s : Settings) : Except Error LoadPlan := do
  let dataPath ← required s "data" "path"
  let exchange ← required s "load" "exchange"
  let codes ← readCodes (← required s "load" "codes")
  let (start, stop) ← readDates s
  let timeframe ← readNamed s "timeframe" Timeframe.read .d1
  let price ← readNamed s "applied_price" AppliedPrice.read .closing
  let indicators ← readIndicators s
  .ok { dataPath, exchange, codes, start, stop, timeframe, price, indicators }

/-- Replaces the codes by one code, and the exchange. -/
def override (p : LoadPlan) (code exchange : Option String) : LoadPlan :=
  let p := match code with
    | none => p
    | some c => { p with codes := [upperString (trimString c)] }
  match exchange with
  | none => p
  | some e => { p with exchange := trimString e }

end LoadPlan

end Custody
