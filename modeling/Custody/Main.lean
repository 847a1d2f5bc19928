import Custody.CommandLine.Run

/-!
# The program

`main` reads the command line, reads the files that the task needs, carries the task out and writes
what it has to say.
-/

namespace Custody.Program

def usage : String :=
  "Shared market object cache\n\nUsage: [-v] <command>\n\nCommands:\n" ++
    "  scenario\n  load -c <config> [--code <code>] [--exchange <exchange>]\n" ++
    "  validate -c <config>\n"

def causeOf : IO.Error → FileError
  | .noFileOrDirectory .. => .notFound
  | .inappropriateType _ code _ => if code = 21 then .isFolder else .notFolder
  | .invalidArgument _ code _ => if code = 22 then .holdsNul else .tooLong
  | e => .other e.toString

def readFile (path : String) : IO (Except FileError String) := do
  try
    let bytes ← IO.FS.readBinFile path
    return decodeText bytes
  catch e => return .error (causeOf e)

def readFiles (paths : List String) : IO (List (String × Except FileError String)) :=
  paths.mapM fun p => return (p, ← readFile p)

/-- Files that have been read, as something to read from. -/
def diskOf (files : List (String × Except FileError String)) : Disk where
  readText path := (files.lookup path).getD (.error .notFound)
  list _ := .error .notFound

def carryOut (task : Task) : IO UInt32 := do
  let config ← readFiles task.configPath.toList
  let prices ← readFiles (task.dataPaths (diskOf config))
  match task.run .checked (diskOf (config ++ prices)) with
  | .error f =>
    IO.eprintln f.message
    return 101
  | .ok ending =>
    (← IO.getStdout).write ⟨ending.output.taken.toArray⟩
    (← IO.getStderr).write ⟨ending.errors.taken.toArray⟩
    if let some o := ending.unwound then IO.eprintln o.message
    return ending.exitCode.toUInt32

/-- Says why a command line is no task; gives the exit status. -/
def refuse : Misuse → IO UInt32
  | .displayHelp => do
    IO.print usage
    return 0
  | m => do
    IO.eprintln ("error: " ++ m.name)
    IO.eprint usage
    return 2

end Custody.Program

def main (args : List String) : IO UInt32 :=
  match Custody.Arguments.parse args with
  | .error m => Custody.Program.refuse m
  | .ok task => Custody.Program.carryOut task
