import Custody.Text.Blank
import Custody.Text.Case
import Custody.Text.Split

/-!
# Sectioned settings

`Ini.parse` reads lines of the forms `[section]` and `key = value` (or `key: value`), and
`Ini.get?` looks a key up in a section.  Sections and keys are in lower case; a later line for the
same key counts instead of the earlier one.  A semicolon or a number sign starts a comment.
-/

namespace Custody

/-- What one line says. -/
inductive IniLine where
  /-- Nothing but blanks or a comment. -/
  | blank
  | heading (name : String)
  /-- A key and its value; a key may stand alone. -/
  | entry (key : String) (value : Option String)
  deriving DecidableEq, Repr

/-- Why a line makes no sense. -/
inductive IniError where
  | openHeading
  | emptyKey (position : Nat)
  deriving DecidableEq, Repr

/-- The wording of an error in the line numbered `number`. -/
def IniError.message (number : Nat) : IniError → String
  | openHeading =>
    "line " ++ number.repr ++
      ": Found opening bracket for section name but no closing bracket"
  | emptyKey position =>
    "line " ++ number.repr ++ ":" ++ position.repr ++ ": Key cannot be empty"

/-- The entries of all lines in order, each with its section. -/
structure Ini where
  entries : List (String × String × Option String) := []
  deriving DecidableEq, Repr

namespace Ini

open Text

/-- The section of the keys before the first heading. -/
def defaultSection : String := "default"

def startsComment (c : Char) : Bool := c = ';' || c = '#'

/-- Whether a character stands between a key and its value. -/
def separates (c : Char) : Bool := c = '=' || c = ':'

def fold (cs : List Char) : String := String.ofList (lower (trim cs))

/-- Reads a heading behind its opening bracket, up to the last closing one. -/
def readHeading (cs : List Char) : Except IniError IniLine :=
  match cut (· = ']') cs.reverse with
  | none => .error .openHeading
  | some (_, name) => .ok (.heading (fold name.reverse))

def readEntry (cs : List Char) : Except IniError IniLine :=
  match cut separates cs with
  | none => .ok (.entry (fold cs) none)
  | some (key, value) =>
    if isBlankText key then .error (.emptyKey (String.ofList key).utf8ByteSize)
    else .ok (.entry (fold key) (some (String.ofList (trim value))))

def readLine (line : List Char) : Except IniError IniLine :=
  match trim line with
  | [] => .ok .blank
  | c :: cs =>
    if startsComment c then .ok .blank
    else
      match trim ((c :: cs).takeWhile (!startsComment ·)) with
      | '[' :: rest => readHeading rest
      | rest => readEntry rest

/-- Reads the lines from number `number` on, which stand in the section `heading`. -/
def readLines (heading : String) (number : Nat) :
    List (List Char) → Except String (List (String × String × Option String))
  | [] => .ok []
  | l :: ls =>
    match readLine l with
    | .error e => .error (e.message number)
    | .ok .blank => readLines heading (number + 1) ls
    | .ok (.heading name) => readLines name (number + 1) ls
    | .ok (.entry key value) => do
      let rest ← readLines heading (number + 1) ls
      .ok ((heading, key, value) :: rest)

/-- Reads settings; the error is the wording of what is wrong. -/
def parse (s : String) : Except String Ini := do
  let entries ← readLines defaultSection 1 (fields '\n' s.toList)
  .ok ⟨entries⟩

/-- The value of a key in a section, in any case of letters. -/
def get? (i : Ini) (heading key : String) : Option String :=
  let found := i.entries.reverse.find? fun e =>
    e.1 = lowerString heading && e.2.1 = lowerString key
  found.bind (·.2.2)

end Ini

end Custody
