import Custody.CommandLine.Arguments
import Custody.Report.Pipeline
import Custody.Report.Scenario

/-!
# Running a task

`Task.run` carries a task out with files read from a disk.  `reportError` writes the line about an
error and gives the exit status.  `Task.configPath` and `Task.dataPaths` say which files a task
reads, so that a disk can be put together before.
-/

namespace Custody

/-- Writes the line about an error; gives the exit status.  A sink that takes no more is let be. -/
def reportError (e : Error) (sink : Sink) : Sink × Nat :=
  ((sink.write ("error: " ++ e.message ++ "\n")).1, e.exitCode)

/-- How a task ends. -/
structure Ending where
  exitCode : Nat
  output : Sink := {}
  errors : Sink := {}
  /-- The operation that the task was unwound for, if it was. -/
  unwound : Option Overflow := none

namespace Ending

/-- How a task ends that came to a result after writing some output. -/
def ofResult {α : Type} (output : Sink) : Except Error α → Ending
  | .ok _ => { exitCode := 0, output }
  | .error e =>
    let (errors, exitCode) := reportError e {}
    { exitCode, output, errors }

/-- How a task ends whose run of the pipeline ended. -/
def ofRun {α : Type} (output : Sink) : Except Pipeline.Stop α → Ending
  | .ok a => ofResult output (.ok a)
  | .error (.error e) => ofResult output (.error e : Except Error α)
  | .error (.overflow o) => { exitCode := 101, output, unwound := some o }

end Ending

namespace Task

def planOf (d : Disk) (config : String) : Except Error LoadPlan := do
  let s ← Settings.ofFile d config
  LoadPlan.ofSettings s

def loadPlan (d : Disk) (config : String) (code exchange : Option String) :
    Except Error LoadPlan := do
  let p ← planOf d config
  .ok (p.override code exchange)

def run (mode : Arithmetic) (d : Disk) : Task → Except Fault Ending
  | scenario => do
    let out ← Scenario.run {} {}
    .ok (Ending.ofResult out.sink (if out.written then .ok () else .error Pipeline.outOfRoom))
  | load config code exchange =>
    match loadPlan d config code exchange with
    | .error e => .ok (Ending.ofResult {} (.error e : Except Error Unit))
    | .ok p => do
      let out ← Pipeline.run mode {} p (fetchBars d p.dataPath) {}
      .ok (Ending.ofRun out.sink out.result)
  | validate config =>
    match planOf d config with
    | .error e => .ok (Ending.ofResult {} (.error e : Except Error Unit))
    | .ok _ => .ok { exitCode := 0, output := (({} : Sink).write (config ++ ": ok\n")).1 }

def configPath : Task → Option String
  | scenario => none
  | load config _ _ => some config
  | validate config => some config

/-- The price files that a task reads, given a disk with its configuration file. -/
def dataPaths (d : Disk) : Task → List String
  | load config code exchange =>
    match loadPlan d config code exchange with
    | .error _ => []
    | .ok p => p.codes.map fun c => PriceFile.path p.dataPath c p.exchange
  | _ => []

end Task

end Custody
