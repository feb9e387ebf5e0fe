import UnifiedConfig.Config.Statement
import UnifiedConfig.Disk.Basic
import UnifiedConfig.Selector

/-!
# Errors

Whatever can go wrong with a configuration, a store of them or a command has one of a few causes. A
cause has one wording (`Error.message`), and its kind decides the exit code of a command that fails
(`Error.exitCode`).
-/

namespace UnifiedConfig

/-- What a request refers to that does not exist. -/
inductive Missing where
  | config (name : String)
  /-- A section, by the address that refers to it. -/
  | sectionAt (address : String)
  /-- A setting, by the address that refers to it. -/
  | settingAt (address : String)
  /-- Whatever the address refers to. -/
  | anythingAt (address : String)
deriving DecidableEq, Repr

/-- How a message names what is missing. -/
def Missing.describe : Missing → String
  | .config name => s!"config '{name}'"
  | .sectionAt address => s!"section '{address}'"
  | .settingAt address => s!"option '{address}'"
  | .anythingAt address => s!"'{address}'"

/-- The parts of an address that a request may need. -/
inductive AddressPart where
  | selector
  | setting
  | value
deriving DecidableEq, Repr

/-- How a message names a part of an address. -/
def AddressPart.describe : AddressPart → String
  | .selector => "section"
  | .setting => "option"
  | .value => "value"

/-- Why a request is refused. -/
inductive Refusal where
  | invalidAddress (text : String)
  | addressLacks (address : String) (part : AddressPart)
  | invalidConfigName (name : String)
  | invalidSectionName (name : String)
  | emptyType
  /-- A section of the name exists already, with another type. -/
  | sectionExists (config name type : String)
  | invalidFilePath (path : Path)
deriving DecidableEq, Repr

/-- The wording of a refusal. -/
def Refusal.message : Refusal → String
  | .invalidAddress text => s!"invalid address '{text}'"
  | .addressLacks address part => s!"address '{address}' has no {part.describe}"
  | .invalidConfigName name => s!"invalid config name '{name}'"
  | .invalidSectionName name => s!"invalid section name '{name}'"
  | .emptyType => "section type cannot be empty"
  | .sectionExists config name type =>
    s!"section '{config}.{name}' already exists with type '{type}'"
  | .invalidFilePath path => s!"invalid file path '{path.text}'"

/-- What was being done with a file or a directory. -/
inductive FileAction where
  | readConfig (path : Path)
  | listConfigs (path : Path)
  | makeDirectory (path : Path)
  | createTemporary (path : Path)
  | writeTemporary (path : Path)
  | replace (path : Path)
deriving DecidableEq, Repr

/-- How a message names what was being done. -/
def FileAction.describe : FileAction → String
  | .readConfig path => s!"failed to read config file '{path.text}'"
  | .listConfigs path => s!"failed to list config directory '{path.text}'"
  | .makeDirectory path => s!"failed to create directory '{path.text}'"
  | .createTemporary path => s!"failed to create temporary file '{path.text}'"
  | .writeTemporary path => s!"failed to write temporary file '{path.text}'"
  | .replace path => s!"failed to replace '{path.text}'"

/-- The causes of failure. -/
inductive Error where
  /-- A selector is malformed or out of range. -/
  | selector (fault : SelectorError)
  /-- A section is not one of those of the configuration. -/
  | foreignSection (config : String)
  /-- A line of a configuration is at fault; lines count from one. -/
  | line (config : String) (number : Nat) (fault : LineError)
  /-- What a request refers to does not exist. -/
  | notFound (what : Missing)
  /-- A request makes no sense, or not in the present state. -/
  | refused (why : Refusal)
  /-- A file or a directory could not be used. -/
  | file (action : FileAction) (fault : FileError)
deriving DecidableEq, Repr

namespace Error

/-- The wording of an error. -/
def message : Error → String
  | .selector fault => fault.message
  | .foreignSection config =>
    s!"internal invariant violated: section is not owned by config '{config}'"
  | .line config number fault =>
    s!"parse error in '{config}' at line {number}: {fault.message}"
  | .notFound what => s!"{what.describe} not found"
  | .refused why => why.message
  | .file action fault => s!"{action.describe}: {fault.message}"

/-- The exit code of a command that fails: 1 for a request that makes no sense, 2 for a text that is
malformed, 3 for something that does not exist, and 4 for a file that could not be used. -/
def exitCode : Error → Nat
  | .refused _ | .foreignSection _ => 1
  | .selector _ | .line .. => 2
  | .notFound _ => 3
  | .file .. => 4

end Error

end UnifiedConfig
