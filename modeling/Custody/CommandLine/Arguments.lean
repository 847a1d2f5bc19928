/-!
# Command-line arguments

`Arguments.parse` reads the words of a command line into a `Task`, or gives the kind of mistake they
make (`Misuse`).  Options of a command may stand in any order: `--name value`, `--name=value`,
`-n value`, `-nvalue` or `-n=value`; switches may share one hyphen.  An option waits for its value
in the next word unless that word is an option itself.
-/

namespace Custody

/-- What the program is asked to do. -/
inductive Task where
  | scenario
  | load (config : String) (code exchange : Option String)
  | validate (config : String)
  deriving DecidableEq, Repr

/-- What keeps a command line from being a task. -/
inductive Misuse where
  | displayHelp
  | displayHelpOnMissing
  | missingCommand
  | invalidCommand
  | unknownArgument
  | invalidValue
  | tooManyValues
  | missingArgument
  | argumentConflict
  deriving DecidableEq, Repr

def Misuse.name : Misuse → String
  | displayHelp => "DisplayHelp"
  | displayHelpOnMissing => "DisplayHelpOnMissingArgumentOrSubcommand"
  | missingCommand => "MissingSubcommand"
  | invalidCommand => "InvalidSubcommand"
  | unknownArgument => "UnknownArgument"
  | invalidValue => "InvalidValue"
  | tooManyValues => "TooManyValues"
  | missingArgument => "MissingRequiredArgument"
  | argumentConflict => "ArgumentConflict"

namespace Arguments

/-! ### Options -/

/-- What an option is for. -/
inductive OptionKind where
  | help
  | switch
  /-- An option with a value, which may be empty or not. -/
  | value (allowEmpty : Bool)
  deriving DecidableEq, Repr

/-- An option of a command. -/
structure OptionSpec where
  name : String
  short : Option Char
  kind : OptionKind
  deriving DecidableEq, Repr

def commonOptions : List OptionSpec :=
  [⟨"verbose", some 'v', .switch⟩, ⟨"help", some 'h', .help⟩]

def commands : List (String × List OptionSpec) :=
  let config : OptionSpec := ⟨"config", some 'c', .value false⟩
  [("scenario", []),
    ("load", [config, ⟨"code", none, .value true⟩, ⟨"exchange", none, .value true⟩]),
    ("validate", [config])]

/-! ### Reading options -/

/-- An option whose value is not settled yet. -/
structure Pending where
  option : OptionSpec
  value : Option String

/-- The options read so far. -/
structure Found where
  values : List (String × String) := []
  pending : Option Pending := none

namespace Found

def has (f : Found) (name : String) : Bool := f.values.any (·.1 = name)

def get? (f : Found) (name : String) : Option String := f.values.lookup name

def accept (f : Found) (o : OptionSpec) (value : String) : Except Misuse Found :=
  if f.has o.name then .error .argumentConflict
  else if o.kind = .value false ∧ value = "" then .error .invalidValue
  else .ok { f with values := f.values ++ [(o.name, value)] }

def settle (f : Found) : Except Misuse Found :=
  match f.pending with
  | none => .ok f
  | some ⟨_, none⟩ => .error .invalidValue
  | some ⟨o, some v⟩ => { f with pending := none }.accept o v

/-- Takes an option, perhaps with a value attached to it. -/
def give (f : Found) (o : OptionSpec) (attached : Option String) : Except Misuse Found := do
  let f ← f.settle
  match o.kind, attached with
  | .help, _ => .error .displayHelp
  | .switch, _ => f.accept o ""
  | .value _, some v => f.accept o v
  | .value _, none => .ok { f with pending := some ⟨o, none⟩ }

/-- Takes the characters behind a single hyphen: switches, and at most one option with a value,
which takes the rest. -/
def giveShort (f : Found) (options : List OptionSpec) : List Char → Except Misuse Found
  | [] => .ok f
  | c :: cs =>
    match options.find? (·.short = some c) with
    | none => .error .unknownArgument
    | some o =>
      match o.kind with
      | .value _ =>
        match cs with
        | [] => f.give o none
        | '=' :: v => f.give o (some (String.ofList v))
        | v => f.give o (some (String.ofList v))
      | _ => do
        let f ← f.give o none
        f.giveShort options cs

def giveLong (f : Found) (options : List OptionSpec) (cs : List Char) : Except Misuse Found :=
  let name := String.ofList (cs.takeWhile (· ≠ '='))
  let attached := match cs.dropWhile (· ≠ '=') with
    | [] => none
    | _ :: v => some (String.ofList v)
  match options.find? (·.name = name) with
  | none => .error .unknownArgument
  | some o =>
    match o.kind, attached with
    | .value _, v => f.give o v
    | _, none => f.give o none
    | _, some _ => .error .tooManyValues

/-- Takes a word as the value of the option that waits for one, if one does. -/
def fill? (f : Found) (word : String) : Option Found :=
  match f.pending with
  | some ⟨o, none⟩ => some { f with pending := some ⟨o, some word⟩ }
  | _ => none

end Found

/-! ### Commands -/

def readOptions (options : List OptionSpec) (f : Found) : List String → Except Misuse Found
  | [] => f.settle
  | w :: ws =>
    match w.toList with
    | ['-', '-'] => if ws.isEmpty then f.settle else .error .unknownArgument
    | '-' :: '-' :: cs => do
      let f ← f.giveLong options cs
      readOptions options f ws
    | '-' :: c :: cs => do
      let f ← f.giveShort options (c :: cs)
      readOptions options f ws
    | _ =>
      match f.fill? w with
      | some f => readOptions options f ws
      | none => .error .unknownArgument

def taskOf (command : String) (f : Found) : Except Misuse Task :=
  match command, f.get? "config" with
  | "scenario", _ => .ok .scenario
  | _, none => .error .missingArgument
  | "load", some config => .ok (.load config (f.get? "code") (f.get? "exchange"))
  | _, some config => .ok (.validate config)

def readCommand (name : String) (words : List String) : Except Misuse Task :=
  match commands.lookup name with
  | none => .error .invalidCommand
  | some options => do
    let f ← readOptions (options ++ commonOptions) {} words
    taskOf name f

def readHelp : List String → Misuse
  | [] => .displayHelp
  | [w] => if w = "help" ∨ (commands.lookup w).isSome then .displayHelp else .invalidCommand
  | _ => .invalidCommand

/-- Reads the words before the command, which may be switches only. -/
def readWords (f : Found) : List String → Except Misuse Task
  | [] => .error (if f.values.isEmpty then .displayHelpOnMissing else .missingCommand)
  | w :: ws =>
    match w.toList with
    | ['-', '-'] =>
      match ws with
      | [] => .error (if f.values.isEmpty then .displayHelpOnMissing else .missingCommand)
      | v :: _ =>
        .error (if v = "help" ∨ (commands.lookup v).isSome then .unknownArgument
          else .invalidCommand)
    | '-' :: '-' :: cs => do
      let f ← f.giveLong commonOptions cs
      readWords f ws
    | '-' :: c :: cs => do
      let f ← f.giveShort commonOptions (c :: cs)
      readWords f ws
    | _ => if w = "help" then .error (readHelp ws) else readCommand w ws

def parse (words : List String) : Except Misuse Task := readWords {} words

end Arguments

end Custody
