import UnifiedConfig.Section
import UnifiedConfig.Text.Words

/-!
# Statements

A line of a configuration file with at least one word is a statement; its first word says which. A
`package` line names the file and has no effect, a `config` line opens a section, and an `option` or
a `list` line gives a value to a setting of the section that is open.

`Statement.ofWords` makes the checks that concern one line alone. Those that depend on the lines
before it, or that come after such a check, are made where the statement takes effect.
-/

namespace UnifiedConfig

/-- What is wrong with a line. -/
inductive LineError where
  /-- The line has no reading as words. -/
  | words (fault : Text.WordError)
  /-- A `package` line without a name, or with several. -/
  | packageArity
  /-- A `config` line without a type, or with more than a type and a name. -/
  | openingArity
  /-- A `config` line with an empty type. -/
  | emptyType
  /-- A `config` line with the name of an earlier section of another type. -/
  | typeChanged (name type previous : String)
  /-- The first word is no keyword. -/
  | unknownKeyword (word : String)
  /-- An `option` or `list` line without exactly a name and a value. -/
  | settingArity (kind : Setting.Kind)
  /-- An `option` or `list` line before any `config` line. -/
  | outsideSection (kind : Setting.Kind)
  /-- An `option` or `list` line with an empty name. -/
  | emptySettingName
deriving DecidableEq, Repr

/-- The wording of a fault. -/
def LineError.message : LineError → String
  | .words fault => fault.message
  | .packageArity => "'package' expects exactly one name"
  | .openingArity => "'config' expects a type and an optional name"
  | .emptyType => "section type cannot be empty"
  | .typeChanged name type previous =>
    s!"section '{name}' redefined with type '{type}', previously '{previous}'"
  | .unknownKeyword word => s!"unknown keyword '{word}'"
  | .settingArity kind => s!"'{kind.keyword}' expects a name and a value"
  | .outsideSection kind => s!"'{kind.keyword}' outside of a config section"
  | .emptySettingName => "option name cannot be empty"

/-- A line of a configuration file. -/
inductive Statement where
  /-- `package name` -/
  | package (name : String)
  /-- `config type` or `config type name`, where no name counts as the empty one. -/
  | opening (type name : String)
  /-- `option name value` or `list name value` -/
  | setting (kind : Setting.Kind) (name value : String)
deriving DecidableEq, Repr

namespace Statement

/-- The statement that opens a section, whose type must not be empty. -/
def ofOpening (type name : String) : Except LineError Statement :=
  if type = "" then .error .emptyType else .ok (.opening type name)

/-- The statement that a keyword and its arguments make. -/
def ofKeyword (keyword : String) (args : List String) : Except LineError Statement :=
  if keyword = "package" then
    match args with
    | [name] => .ok (.package name)
    | _ => .error .packageArity
  else if keyword = "config" then
    match args with
    | [type] => ofOpening type ""
    | [type, name] => ofOpening type name
    | _ => .error .openingArity
  else
    match Setting.Kind.ofKeyword? keyword, args with
    | none, _ => .error (.unknownKeyword keyword)
    | some kind, [name, value] => .ok (.setting kind name value)
    | some kind, _ => .error (.settingArity kind)

/-- The statement of a line, or none if the line is blank or a comment. -/
def ofLine (line : List Char) : Except LineError (Option Statement) :=
  match Text.words line with
  | .error fault => .error (.words fault)
  | .ok [] => .ok none
  | .ok (keyword :: args) =>
    (ofKeyword (String.ofList keyword) (args.map String.ofList)).map some

end Statement

end UnifiedConfig
