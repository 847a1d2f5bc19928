import Custody.Files.Tree
import Custody.Error
import Custody.Text.Ini
import Custody.Text.Real

/-!
# Settings

`Settings` are texts under sections and keys.  They are read from a text or a file in the form of
`Ini`, and each can be taken as a text, an integer, a number or a switch; one that is missing or
makes no sense counts as the given default.
-/

namespace Custody

/-- Texts under sections and keys. -/
structure Settings where
  text? : String → String → Option String

namespace Settings

def ofText (s : String) : Except Error Settings :=
  match Ini.parse s with
  | .ok i => .ok ⟨i.get?⟩
  | .error reason => .error (.configParse "<string>" reason)

def ofFile (d : Disk) (path : String) : Except Error Settings :=
  let fail (reason : String) : Error :=
    .configParse path ("couldn't read " ++ path ++ ": " ++ reason)
  match d.readText path with
  | .error e => .error (fail e.message)
  | .ok s =>
    match Ini.parse s with
    | .ok i => .ok ⟨i.get?⟩
    | .error reason => .error (fail reason)

def integer (s : Settings) (heading key : String) (default : Int) : Int :=
  match s.text? heading key with
  | none => default
  | some t => (Text.readInteger t.toList).toOption.getD default

def real (s : Settings) (heading key : String) (default : Float) : Float :=
  match s.text? heading key with
  | none => default
  | some t => (Text.readReal t.toList).toOption.getD default

def switch? (t : String) : Option Bool :=
  let word := Text.lowerString (Text.trimString t)
  if ["true", "yes", "on", "1"].contains word then some true
  else if ["false", "no", "off", "0"].contains word then some false
  else none

def switch (s : Settings) (heading key : String) (default : Bool) : Bool :=
  ((s.text? heading key).bind switch?).getD default

end Settings

end Custody
