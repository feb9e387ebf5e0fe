import UnifiedConfig.Path

/-!
# Disks

A disk is a tree of directories and files. A path leads from the root of the tree to a place in it:
each step of the path has to start in a directory that exists, but nothing needs to stand at the
place that the last step leads to.

A path may be no path at all, as it holds a null character or has a name that is too long. Otherwise
what can be wrong is on the way along it or at its end: something is missing, a file stands where a
directory is needed, or a directory stands where a file is needed.

`Disk.perform` says what the changes do that a program can ask for. A change that fails leaves the
disk as it is.
-/

namespace UnifiedConfig

/-- Why a file or a directory cannot be used as it is meant to. -/
inductive FileError where
  | missing
  | notADirectory
  | isADirectory
  | alreadyExists
  /-- The path is one that a directory goes by from the inside, such as `d/.`. -/
  | busy
  /-- A name or the path has too many bytes. -/
  | nameTooLong
  /-- The path holds a null character. -/
  | nullCharacter
  /-- The content of the file is no text. -/
  | notText
deriving DecidableEq, Repr

/-- The wording of a fault. -/
def FileError.message : FileError → String
  | .missing => "No such file or directory (os error 2)"
  | .notADirectory => "Not a directory (os error 20)"
  | .isADirectory => "Is a directory (os error 21)"
  | .alreadyExists => "File exists (os error 17)"
  | .busy => "Device or resource busy (os error 16)"
  | .nameTooLong => "File name too long (os error 36)"
  | .nullCharacter => "file name contained an unexpected NUL byte"
  | .notText => "stream did not contain valid UTF-8"

/-- What a file holds: a text, or bytes that are not the UTF-8 encoding of any. -/
inductive Content where
  | text (s : String)
  | binary (bytes : List UInt8)
deriving DecidableEq, Repr

/-- The content that bytes make. -/
def Content.ofBytes (bytes : ByteArray) : Content :=
  match String.fromUTF8? bytes with
  | some s => .text s
  | none => .binary bytes.toList

/-- A file, or a directory with its entries. -/
inductive Node where
  | file (content : Content)
  | directory (entries : List (String × Node))
deriving Inhabited

/-- The names that lead from the root to a place, the outermost first. -/
abbrev Location := List String

namespace Node

/-- What stands at a location below a node, if anything does. -/
def find? : Node → Location → Option Node
  | n, [] => some n
  | .directory entries, name :: rest => (entries.lookup name).bind fun child => child.find? rest
  | .file _, _ :: _ => none

/-- The entries with `new` under a name, or with nothing under it. -/
def putEntry (entries : List (String × Node)) (name : String) (new : Option Node) :
    List (String × Node) :=
  entries.filter (·.1 ≠ name) ++ (new.map fun child => (name, child)).toList

/-- Puts `new` where something may stand, or removes it. Nothing happens where there is no directory
to hold it. -/
def put (new : Option Node) : Location → Node → Node
  | [], n => new.getD n
  | [name], .directory entries => .directory (putEntry entries name new)
  | name :: rest, .directory entries =>
    match entries.lookup name with
    | some child => .directory (putEntry entries name (some (put new rest child)))
    | none => .directory entries
  | _ :: _, .file content => .file content

end Node

/-- A disk is the directory at its root. -/
abbrev Disk := Node

/-- What a program asks of a disk to change it. -/
inductive Change where
  /-- Makes a directory. -/
  | makeDirectory (path : Path)
  /-- Makes an empty file, or empties the one that stands there. -/
  | create (path : Path)
  /-- Writes into a file that is there. -/
  | write (path : Path) (content : Content)
  /-- Moves a file to another place, over the file that may stand there. -/
  | rename (source target : Path)
  /-- Removes a file. -/
  | remove (path : Path)
deriving DecidableEq, Repr

namespace Disk

/-- The disk with nothing on it. -/
def empty : Disk := .directory []

/-- The most bytes that the name of an entry has. -/
def maxNameSize : Nat := 255

/-- The most bytes that a path has. -/
def maxPathSize : Nat := 4095

/-- The location that a step leads to, unless the name in it is too long. There is nothing above the
root. -/
def stepFrom (place : Location) : Path.Step → Except FileError Location
  | .here => .ok place
  | .up => .ok place.dropLast
  | .down name =>
    if name.utf8ByteSize > maxNameSize then .error .nameTooLong else .ok (place ++ [name])

/-- The location that steps lead to from a location. -/
def locateFrom (d : Disk) : Location → List Path.Step → Except FileError Location
  | place, [] => .ok place
  | place, step :: rest =>
    match d.find? place with
    | none => .error .missing
    | some (.file _) => .error .notADirectory
    | some (.directory _) =>
      match stepFrom place step with
      | .error fault => .error fault
      | .ok next => locateFrom d next rest

/-- The location that a path leads to. The empty path leads nowhere. -/
def locate (d : Disk) (path : Path) : Except FileError Location :=
  if '\x00' ∈ path.text.toList then .error .nullCharacter
  else if path.text.utf8ByteSize > maxPathSize then .error .nameTooLong
  else if path.text = "" then .error .missing
  else d.locateFrom [] path.steps

/-- What stands at the end of a path, if anything does. -/
def find (d : Disk) (path : Path) : Except FileError (Option Node) :=
  (d.locate path).map d.find?

/-- The text of a file. -/
def readText (d : Disk) (path : Path) : Except FileError String := do
  match ← d.find path with
  | none => throw .missing
  | some (.directory _) => throw .isADirectory
  | some (.file (.binary _)) => throw .notText
  | some (.file (.text s)) => return s

/-- The entries of a directory. -/
def list (d : Disk) (path : Path) : Except FileError (List (String × Node)) := do
  match ← d.find path with
  | none => throw .missing
  | some (.file _) => throw .notADirectory
  | some (.directory entries) => return entries

/-- Performs one change. A file cannot be moved to a path that ends in a slash or in a dot. -/
def perform (d : Disk) : Change → Except FileError Disk
  | .makeDirectory path => do
    let place ← d.locate path
    match d.find? place with
    | some _ => throw .alreadyExists
    | none => return d.put (some (.directory [])) place
  | .create path => do
    let place ← d.locate path
    match d.find? place with
    | some (.directory _) => throw .isADirectory
    | _ => return d.put (some (.file (.text ""))) place
  | .write path content => do
    let place ← d.locate path
    match d.find? place with
    | none => throw .missing
    | some (.directory _) => throw .isADirectory
    | some (.file _) => return d.put (some (.file content)) place
  | .rename source target => do
    let start ← d.locate source
    let goal ← d.locate target
    if !target.leadsDown then throw .busy
    match d.find? start, d.find? goal with
    | none, _ => throw .missing
    | some (.directory _), _ => throw .isADirectory
    | some (.file content), there =>
      if target.endsInSlash then throw .notADirectory
      match there with
      | some (.directory _) => throw .isADirectory
      -- The source goes first: the target may be the source itself.
      | _ => return (d.put none start).put (some (.file content)) goal
  | .remove path => do
    let place ← d.locate path
    match d.find? place with
    | none => throw .missing
    | some (.directory _) => throw .isADirectory
    | some (.file _) => return d.put none place

end Disk

end UnifiedConfig
