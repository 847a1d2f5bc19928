/-!
# Errors

`Error` lists what can go wrong outside the ownership rules: in a configuration, in price data, in
the name of an indicator, or in writing a report.  `Error.message` is the wording, and
`Error.exitCode` the status with which a program that meets the error ends.
-/

namespace Custody

/-- What can go wrong outside the ownership rules. -/
inductive Error where
  /-- A configuration file cannot be read. -/
  | configParse (file reason : String)
  /-- A setting that is needed is missing or blank. -/
  | configMissing (section_ key : String)
  /-- A setting has a value that makes no sense. -/
  | configInvalid (section_ key reason : String)
  /-- Price data cannot be read. -/
  | data (reason : String)
  /-- There is no price data for a code. -/
  | noData (code exchange : String)
  | unknownIndicator (spec : String)
  /-- A report cannot be written. -/
  | io (reason : String)
  deriving DecidableEq, Repr

namespace Error

def message : Error → String
  | configParse file reason => "config parse error in " ++ file ++ ": " ++ reason
  | configMissing section_ key => "missing config key [" ++ section_ ++ "] " ++ key
  | configInvalid section_ key reason =>
    "invalid config value [" ++ section_ ++ "] " ++ key ++ ": " ++ reason
  | data reason => "data error: " ++ reason
  | noData code exchange => "no data for " ++ code ++ " on " ++ exchange
  | unknownIndicator spec => "unknown indicator '" ++ spec ++ "'"
  | io reason => reason

def exitCode : Error → Nat
  | io _ => 1
  | configParse .. | configMissing .. | configInvalid .. => 2
  | data _ => 3
  | unknownIndicator _ => 4
  | noData .. => 5

end Error

end Custody
