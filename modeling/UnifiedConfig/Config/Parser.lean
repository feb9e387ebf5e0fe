import UnifiedConfig.Config.Lookup
import UnifiedConfig.Config.Merge
import UnifiedConfig.Error
import UnifiedConfig.Text.Lines

/-!
# Reading a configuration

The statements of a text take effect one after the other. An `option` line replaces what the open
section holds under its name, and a `list` line adds to it. A `config` line opens a new section,
unless some section goes by the name that it gives: then it opens that section again, whose type
must be the same.

The first line with a fault ends the reading, whatever lines follow. What is read is not tainted.
-/

namespace UnifiedConfig

/-- Gives a value to a setting, as a line of its kind does. -/
def Section.assign (s : Section) (kind : Setting.Kind) (name value : String) : Section :=
  match kind with
  | .scalar => s.set name .scalar [value]
  | .list => s.addToList name value

namespace Config

/-- Opens a section as a `config` line does, and gives its place. -/
def openSection (c : Config) (type name : String) : Except LineError (Config × Nat) :=
  -- Each line without a name opens a section of its own.
  if name = "" then .ok (c.push { type }, c.sections.length)
  else
    match c.findNamed? name with
    | some previous =>
      if previous.type = type then .ok (c.mergeAt { type, name } 0)
      else .error (.typeChanged name type previous.type)
    | none => .ok (c.mergeAt { type, name } 0)

/-- A configuration that is being read, and the place of the section that is open. -/
structure Reader where
  config : Config
  current : Option Nat := none
deriving DecidableEq, Repr

namespace Reader

/-- The effect of a statement. -/
def apply (r : Reader) : Statement → Except LineError Reader
  | .package _ => .ok r
  | .opening type name =>
    (r.config.openSection type name).map fun (config, i) => { config, current := some i }
  | .setting kind name value =>
    match r.current with
    | none => .error (.outsideSection kind)
    | some i =>
      if name = "" then .error .emptySettingName
      else .ok { r with config := r.config.changeAt i (·.assign kind name value) }

/-- The effect of a line. -/
def readLine (r : Reader) (line : List Char) : Except LineError Reader :=
  match Statement.ofLine line with
  | .error fault => .error fault
  | .ok none => .ok r
  | .ok (some statement) => r.apply statement

/-- The effect of lines, the first of which has the given number. -/
def readLines : Reader → Nat → List (List Char) → Except Error Reader
  | r, _, [] => .ok r
  | r, number, line :: rest =>
    match r.readLine line with
    | .error fault => .error (.line r.config.name number fault)
    | .ok r => readLines r (number + 1) rest

end Reader

/-- Reads the text of a configuration. -/
def parse (name text : String) : Except Error Config :=
  (Reader.readLines { config := { name } } 1 (Text.lines text.toList)).map fun r =>
    r.config.markClean

end Config

end UnifiedConfig
