/-!
# Comma-separated records

`Csv.rows` splits a text into rows of fields.  Fields end at commas and rows at a carriage return or
a line feed; a field that starts with a quote runs up to its closing quote, and a doubled quote in
it stands for one.  Line ends before a row are skipped, so blank lines give no rows.  Each row knows
where it starts (`Row.offset` in bytes, `Row.line`), which is just behind the end of the row before.

`Csv.records` gives the rows after the header, and an error at the first one whose number of fields
is not that of the header.
-/

namespace Custody.Csv

/-- A row of fields and the place where it starts. -/
structure Row where
  fields : List String
  offset : Nat
  line : Nat
  deriving DecidableEq, Repr

/-- What the next character belongs to. -/
inductive Mode where
  | rowStart
  | fieldStart
  | plain
  | quoted
  /-- Behind a quote in a quoted field. -/
  | closing
  deriving DecidableEq, Repr

/-- The state of the pass over a text.  Lists are in reverse. -/
structure State where
  mode : Mode := .rowStart
  field : List Char := []
  fields : List String := []
  rows : List Row := []
  /-- Bytes and lines before the current character. -/
  offset : Nat := 0
  line : Nat := 1
  /-- Bytes and lines before the current row. -/
  rowOffset : Nat := 0
  rowLine : Nat := 1

namespace State

def keep (s : State) (c : Char) (mode : Mode) : State := { s with mode, field := c :: s.field }

def endField (s : State) : State :=
  { s with
    mode := .fieldStart, field := [], fields := String.ofList s.field.reverse :: s.fields }

def endRow (s : State) : State :=
  let s := s.endField
  { s with
    mode := .rowStart, fields := [], rows := ⟨s.fields.reverse, s.rowOffset, s.rowLine⟩ :: s.rows }

def plain (s : State) (c : Char) : State :=
  if c = ',' then s.endField
  else if c = '\r' ∨ c = '\n' then s.endRow
  else s.keep c .plain

def start (s : State) (c : Char) : State :=
  if c = '"' then { s with mode := .quoted } else s.plain c

def take (s : State) (c : Char) : State :=
  match s.mode with
  | .rowStart => if c = '\r' ∨ c = '\n' then s else s.start c
  | .fieldStart => s.start c
  | .plain => s.plain c
  | .quoted => if c = '"' then { s with mode := .closing } else s.keep c .quoted
  | .closing => if c = '"' then s.keep c .quoted else s.plain c

/-- Moves the place behind a character; a row starts behind the end of the one before. -/
def advance (s : State) (c : Char) (ended : Bool) : State :=
  let offset := s.offset + c.utf8Size
  let line := if c = '\n' then s.line + 1 else s.line
  if ended then { s with offset, line, rowOffset := offset, rowLine := line }
  else { s with offset, line }

/-- Takes a character and moves on.  A row ends where the pass comes back to the start of a row. -/
def step (s : State) (c : Char) : State :=
  let t := s.take c
  t.advance c (s.mode ≠ .rowStart && t.mode = .rowStart)

def finish (s : State) : List Row :=
  match s.mode with
  | .rowStart => s.rows.reverse
  | _ => s.endRow.rows.reverse

end State

/-- The mark that may stand at the very start of a text. -/
def byteOrderMark : Char := Char.ofNat 0xFEFF

def rows (cs : List Char) : List Row :=
  match cs with
  | [] => []
  | c :: rest =>
    if c = byteOrderMark then
      (rest.foldl State.step { offset := c.utf8Size, rowOffset := c.utf8Size }).finish
    else (cs.foldl State.step {}).finish

/-- A row that has another number of fields than the header. -/
structure LengthError where
  /-- The number of the row; the header is number 0. -/
  number : Nat
  row : Row
  expected : Nat
  deriving DecidableEq, Repr

def LengthError.message (e : LengthError) : String :=
  "CSV error: record " ++ e.number.repr ++ " (line: " ++ e.row.line.repr ++ ", byte: " ++
    e.row.offset.repr ++ "): found record with " ++ e.row.fields.length.repr ++
    " fields, but the previous record has " ++ e.expected.repr ++ " fields"

/-- Checks the rows from number `number` on against the number of fields of the header. -/
def checkFrom (expected number : Nat) : List Row → List (Except LengthError (List String))
  | [] => []
  | r :: rs =>
    (if r.fields.length = expected then .ok r.fields else .error ⟨number, r, expected⟩) ::
      checkFrom expected (number + 1) rs

/-- The rows of a text after the header, each with the error it gives. -/
def records (cs : List Char) : List (Except LengthError (List String)) :=
  match rows cs with
  | [] => []
  | header :: rest => checkFrom header.fields.length 1 rest

end Custody.Csv
