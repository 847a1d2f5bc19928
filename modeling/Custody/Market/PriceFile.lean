import Custody.Calendar.Reading
import Custody.Error
import Custody.Text.Split
import Custody.Files.Tree
import Custody.Market.Bar
import Custody.Text.Csv
import Custody.Text.Real

/-!
# Price files

The bars of a symbol stand in one file per code and exchange: a header row, and then rows of the
date, the four prices and the volume.  `fetchBars` reads the bars of a range of dates in order of
their dates, and `listCodes` finds the codes of an exchange by the names of the files in a folder.
-/

namespace Custody

/-- What bars are asked for by. -/
structure Query where
  code : String
  exchange : String
  start : Date
  stop : Date

/-- Where bars come from. -/
abbrev Source := Query → Except Error (List Bar)

/-- A source that may answer the same question differently every time: its answer can depend on all
the questions that it was asked before. -/
abbrev Port := List Query → Source

namespace PriceFile

/-- What the name of a price file of an exchange ends in. -/
def suffix (exchange : String) : String := "_" ++ exchange ++ ".csv"

def path (folder code exchange : String) : String := joinPath folder (code ++ suffix exchange)

def column {α ε : Type} (read : List Char → Except ε α) (message : ε → String) (row : List String)
    (index : Nat) (name : String) : Except Error α :=
  match row[index]? with
  | none => .error (.data ("missing " ++ name ++ " column"))
  | some t =>
    (read (Text.trim t.toList)).mapError fun e =>
      .data ("invalid " ++ name ++ " value: " ++ message e)

def price (row : List String) (index : Nat) (name : String) : Except Error Float :=
  column Text.readReal Text.RealError.message row index name

def dateOf (row : List String) : Except Error Date :=
  match row[0]? with
  | none => .error (.data "missing date column")
  | some t =>
    (Date.read (Text.trim t.toList)).mapError fun e => .data ("invalid date format: " ++ e.message)

/-- Reads the bar of a row that has the given date. -/
def barOf (q : Query) (date : Date) (row : List String) : Except Error Bar := do
  let opening ← price row 1 "open"
  let high ← price row 2 "high"
  let low ← price row 3 "low"
  let closing ← price row 4 "close"
  let volume ← column Text.readInteger Text.IntegerError.message row 5 "volume"
  .ok { code := q.code, exchange := q.exchange, date, opening, high, low, closing, volume }

/-- Reads a row; one whose date lies outside the range gives no bar, whatever its other columns. -/
def readRow (q : Query) (row : List String) : Except Error (Option Bar) := do
  let date ← dateOf row
  if date < q.start ∨ q.stop < date then .ok none
  else
    let b ← barOf q date row
    .ok (some b)

/-- Reads the rows in order, up to the first error. -/
def readRows (q : Query) : List (Except Csv.LengthError (List String)) → Except Error (List Bar)
  | [] => .ok []
  | .error e :: _ => .error (.data ("CSV parse error: " ++ e.message))
  | .ok row :: rest => do
    let b ← readRow q row
    let bs ← readRows q rest
    .ok (b.toList ++ bs)

/-- Orders bars by their dates; bars of the same date stay in their order. -/
def sortBars (bs : List Bar) : List Bar := bs.mergeSort fun a b => decide (a.date ≤ b.date)

/-- The bars of a price file that lie in the range of dates. -/
def readBars (q : Query) (s : String) : Except Error (List Bar) := do
  let bs ← readRows q (Csv.records s.toList)
  .ok (sortBars bs)

end PriceFile

/-- The bars that the price files of a folder hold. -/
def fetchBars (d : Disk) (folder : String) : Source := fun q =>
  let path := PriceFile.path folder q.code q.exchange
  match d.readText path with
  | .error .notFound => .error (.noData q.code q.exchange)
  | .error e => .error (.data ("failed to read " ++ path ++ ": " ++ e.message))
  | .ok s => PriceFile.readBars q s

/-- The code that a file name holds prices of, for an exchange. -/
def codeOfFile? (exchange name : String) : Option String :=
  let tail := (PriceFile.suffix exchange).toList
  (Text.dropTail? tail name.toList).map String.ofList

/-- The codes of an exchange that the files of a folder are named for, in order. -/
def listCodes (d : Disk) (folder exchange : String) : Except Error (List String) :=
  match d.list folder with
  | .error e => .error (.data ("failed to read directory " ++ folder ++ ": " ++ e.message))
  | .ok names =>
    .ok ((names.filterMap (codeOfFile? exchange)).mergeSort fun a b => decide (a ≤ b))

end Custody
