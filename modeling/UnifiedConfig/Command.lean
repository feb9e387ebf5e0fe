import UnifiedConfig.Address
import UnifiedConfig.Config.Dump
import UnifiedConfig.Config.Lookup
import UnifiedConfig.Config.Show
import UnifiedConfig.Store.Basic

/-!
# Commands

What a user asks of the directory of configurations from the command line. A command works on a new
store. Those that edit commit what they have changed; if an edit is in error, nothing is written.

The outcome of a command is what it prints or the error that it ends with, and the journal of the
changes that it made to the disk.
-/

namespace UnifiedConfig

/-- A command with its arguments as they were typed. -/
inductive Command where
  /-- Shows what is at an address, or every configuration. -/
  | display (address : Option String)
  /-- Prints the text of a configuration. -/
  | print (config : String)
  /-- Prints a configuration as JSON. -/
  | dump (config : String)
  /-- Prints the values of a setting or the type of a section. -/
  | read (address : String)
  /-- Gives a setting a value, or makes a named section. -/
  | assign (address : String)
  /-- Appends a value to a list. -/
  | append (address : String)
  /-- Deletes a setting or a section. -/
  | delete (address : String)
  /-- Adds a section and prints the name that it goes by. -/
  | add (config type : String) (name : Option String)
deriving DecidableEq, Repr

/-- What comes of a command. -/
structure Outcome where
  result : Except Error String
  journal : Journal

/-- The exit code of a command. -/
def Outcome.exitCode (o : Outcome) : Nat :=
  match o.result with
  | .ok _ => 0
  | .error e => e.exitCode

namespace Command

/-! ## Commands that read -/

/-- What shows an address in its configuration. -/
def displayIn (c : Config) (address : Address) : Except Error String := do
  match address.selector with
  | none => return c.shown
  | some selector =>
    let found ← (c.place selector).mapError .selector
    match found.bind fun i => (c.sections[i]?).map (i, ·) with
    | none => throw (.notFound (.sectionAt address.text))
    | some (i, s) =>
      let there := c.addressOf (← c.nameOf s i)
      match address.setting with
      | none => return s.showAt there
      | some name =>
        match s.find? name with
        | none => throw (.notFound (.settingAt address.text))
        | some o => return o.showAt there

/-- What shows the configurations of some names. -/
def displayAll (s : Store) (disk : Disk) : List String → Except Error String
  | [] => .ok ""
  | name :: rest => do
    let (c, s) ← s.load disk name
    let others ← displayAll s disk rest
    return c.shown ++ others

/-- What `display` prints. -/
def displayed (s : Store) (disk : Disk) : Option String → Except Error String
  | none => do displayAll s disk (← s.configNames disk)
  | some text => do
    let address ← Address.parse text
    let (c, _) ← s.load disk address.config
    displayIn c address

/-- What `read` prints. -/
def readValue (s : Store) (disk : Disk) (text : String) : Except Error String := do
  let address ← Address.parse text
  let selector ← address.require .selector
  match address.setting with
  | none =>
    let (c, _) ← s.load disk address.config
    match ← (c.find selector).mapError .selector with
    | some found => return found.type ++ "\n"
    | none => throw (.notFound (.sectionAt address.text))
  | some setting =>
    match ← (s.get disk address.config selector setting).1 with
    | some values => return String.intercalate " " values ++ "\n"
    | none => throw (.notFound (.settingAt address.text))

/-! ## Commands that edit -/

/-- The edit that `assign` makes. -/
def assignValue (s : Store) (disk : Disk) (address : Address) : Except Error Unit × Store :=
  match address.require .selector, address.require .value with
  | .error e, _ | .ok _, .error e => (.error e, s)
  | .ok selector, .ok value =>
    match address.setting with
    | some setting => s.set disk address.config selector setting .scalar [value]
    | none =>
      let (outcome, s) := s.addSection disk address.config value (some selector)
      (outcome.map fun _ => (), s)

/-- The edit that `append` makes. -/
def appendValue (s : Store) (disk : Disk) (address : Address) : Except Error Unit × Store :=
  match address.require .selector, address.require .setting, address.require .value with
  | .error e, _, _ | .ok _, .error e, _ | .ok _, .ok _, .error e => (.error e, s)
  | .ok selector, .ok setting, .ok value => s.addToList disk address.config selector setting value

/-- The edit that `delete` makes. -/
def deleteAt (s : Store) (disk : Disk) (address : Address) : Except Error Unit × Store :=
  match address.require .selector with
  | .error e => (.error e, s)
  | .ok selector =>
    let (outcome, s) := match address.setting with
      | some setting => s.deleteSetting disk address.config selector setting
      | none => s.deleteSection disk address.config selector
    match outcome with
    | .error e => (.error e, s)
    | .ok true => (.ok (), s)
    | .ok false => (.error (.notFound (.anythingAt address.text)), s)

/-- An edit at an address. -/
def editAt (s : Store) (text : String) (edit : Address → Except Error Unit × Store) :
    Except Error String × Store :=
  match Address.parse text with
  | .error e => (.error e, s)
  | .ok address => ((edit address).1.map fun _ => "", (edit address).2)

/-- Commits an edit, unless it is in error. -/
def committed (disk : Disk) (edited : Except Error String × Store) : Outcome :=
  match edited with
  | (.error e, _) => { result := .error e, journal := { disk } }
  | (.ok output, s) =>
    let (outcome, _, journal) := s.commit disk
    { result := outcome.map fun _ => output, journal }

/-! ## Running a command -/

/-- Runs a command on the configurations of a directory. -/
def run (command : Command) (dir : Path) (disk : Disk) : Outcome :=
  let s : Store := { dir }
  let reading (result : Except Error String) : Outcome := { result, journal := { disk } }
  match command with
  | .display address => reading (displayed s disk address)
  | .print config => reading ((s.load disk config).map fun (c, _) => c.render)
  | .dump config =>
    reading ((s.load disk config).map fun (c, _) => c.toJson.render .pretty ++ "\n")
  | .read address => reading (readValue s disk address)
  | .assign address => committed disk (editAt s address (assignValue s disk))
  | .append address => committed disk (editAt s address (appendValue s disk))
  | .delete address => committed disk (editAt s address (deleteAt s disk))
  | .add config type name =>
    let (outcome, s) := s.addSection disk config type name
    committed disk (outcome.map (· ++ "\n"), s)

end Command

end UnifiedConfig
