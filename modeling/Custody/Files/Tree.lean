import Custody.Text.Split

/-!
# Trees of files

A `FileTree` holds files and folders under paths.  A path is followed part by part to a `Location`
(`FileTree.locate`), and what stands there is looked up.  `FileTree.readText` and `FileTree.list`
read a file and list a folder, with the errors a reader meets (`FileError`).  A `Disk` is anything
that can be read in this way.
-/

namespace Custody

/-- Why a path cannot be read. -/
inductive FileError where
  | notFound
  | notFolder
  | isFolder
  /-- The path, or a name in it, is longer than can be. -/
  | tooLong
  /-- The path holds a NUL, which no path can. -/
  | holdsNul
  /-- The bytes of the file are no text. -/
  | notText
  /-- Anything else that keeps a file from being read. -/
  | other (reason : String)
  deriving DecidableEq, Repr

def FileError.message : FileError → String
  | notFound => "No such file or directory (os error 2)"
  | notFolder => "Not a directory (os error 20)"
  | isFolder => "Is a directory (os error 21)"
  | tooLong => "File name too long (os error 36)"
  | holdsNul => "file name contained an unexpected NUL byte"
  | notText => "stream did not contain valid UTF-8"
  | other reason => reason

/-- Something from which files can be read. -/
structure Disk where
  readText : String → Except FileError String
  list : String → Except FileError (List String)

def decodeText (bytes : ByteArray) : Except FileError String :=
  (String.fromUTF8? bytes).elim (.error .notText) .ok

/-- The path of `name` inside the folder at `base`; an absolute name stands for itself. -/
def joinPath (base name : String) : String :=
  if base = "" ∨ name.toList.head? = some '/' then name
  else if base.toList.getLast? = some '/' then base ++ name
  else base ++ "/" ++ name

def pathParts (path : String) : List String := (Text.fields '/' path.toList).map String.ofList

/-- How many bytes the longest name and the longest path have, if there is a limit. -/
structure PathLimits where
  name : Option Nat := some 255
  path : Option Nat := some 4095

/-- Whether a text is longer than a limit allows. -/
def exceeds (limit : Option Nat) (s : String) : Bool := limit.any (· < s.utf8ByteSize)

/-- Files and folders by their paths from the root, part by part. -/
structure FileTree where
  files : List (List String × ByteArray) := []
  folders : List (List String) := []
  limits : PathLimits := {}

/-- A place below the root of a tree or below the folder around it, by the names that lead there. -/
structure Location where
  outside : Bool
  names : List String
  deriving DecidableEq, Repr

namespace Location

def root : Location := ⟨false, []⟩

/-- The folder around every tree. -/
def around : Location := ⟨true, []⟩

def down (q : Location) (name : String) : Location := { q with names := q.names ++ [name] }

/-- The folder above; above a root lies the folder around the tree, which is its own parent. -/
def up (q : Location) : Location :=
  if q.names.isEmpty then around else { q with names := q.names.dropLast }

end Location

namespace FileTree

/-- What stands at a path. -/
inductive Node where
  | file (bytes : ByteArray)
  /-- A folder, with the paths from it to what it holds. -/
  | folder (below : List (List String))

/-- The place in a tree that a path names, before anything is looked up. -/
def placeOf (path : String) : List String := (pathParts path).filter fun p => p ≠ "" ∧ p ≠ "."

def addFile (t : FileTree) (path : String) (bytes : ByteArray) : FileTree :=
  { t with files := t.files ++ [(placeOf path, bytes)] }

def addFolder (t : FileTree) (path : String) : FileTree :=
  { t with folders := t.folders ++ [placeOf path] }

def isFolder (t : FileTree) (p : List String) : Bool :=
  p.isEmpty || t.folders.any (p.isPrefixOf ·) ||
    t.files.any fun f => p.isPrefixOf f.1 && p.length < f.1.length

/-- The paths from a place to what stands below it. -/
def below (t : FileTree) (p : List String) : List (List String) :=
  (t.files.map Prod.fst ++ t.folders).filterMap p.isPrefixOf?

def node? (t : FileTree) (p : List String) : Option Node :=
  if t.isFolder p then some (.folder (t.below p))
  else (t.files.find? (·.1 = p)).map fun f => .file f.2

/-- What stands at a location; nothing is known of the folder around a tree. -/
def at? (t : FileTree) (q : Location) : Option Node :=
  if q.outside then FileTree.node? {} q.names else t.node? q.names

/-- Follows one part of a path, which needs a folder to start from. -/
def follow (t : FileTree) (q : Location) (part : String) : Except FileError Location :=
  match t.at? q with
  | none => .error .notFound
  | some (.file _) => .error .notFolder
  | some (.folder _) =>
    if part = "" ∨ part = "." then .ok q
    else if part = ".." then .ok q.up
    else if exceeds t.limits.name part then .error .tooLong
    else .ok (q.down part)

/-- Where a path leads; absolute paths lead out of the tree. -/
def locate (t : FileTree) (path : String) : Except FileError Location :=
  if '\x00' ∈ path.toList then .error .holdsNul
  else if path = "" then .error .notFound
  else if exceeds t.limits.path path then .error .tooLong
  else
    let start := if path.toList.head? = some '/' then Location.around else Location.root
    (pathParts path).foldlM t.follow start

/-- What stands where a path leads. -/
def resolve (t : FileTree) (path : String) : Except FileError Node := do
  (t.at? (← t.locate path)).elim (.error .notFound) .ok

def readText (t : FileTree) (path : String) : Except FileError String := do
  match ← t.resolve path with
  | .folder _ => .error .isFolder
  | .file bytes => decodeText bytes

def list (t : FileTree) (path : String) : Except FileError (List String) := do
  match ← t.resolve path with
  | .file _ => .error .notFolder
  | .folder below => .ok (below.filterMap List.head?).eraseDups

def disk (t : FileTree) : Disk := ⟨t.readText, t.list⟩

end FileTree

end Custody
