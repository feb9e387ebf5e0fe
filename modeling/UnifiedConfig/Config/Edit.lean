import UnifiedConfig.Config.Lookup
import UnifiedConfig.Error

/-!
# Reading and editing by selector

What a user asks of a configuration: the values of a setting, a setting changed or removed, a
section added. The section is given by a selector.

An edit that is in error gives no configuration, and so changes nothing.
-/

namespace UnifiedConfig.Config

/-- The values of a setting, or none if there is no such section or setting. -/
def values? (c : Config) (selector setting : String) :
    Except SelectorError (Option (List String)) :=
  (c.find selector).map fun found => (found.bind (·.find? setting)).map (·.values)

/-- The last value of a setting. -/
def lastValue? (c : Config) (selector setting : String) : Except SelectorError (Option String) :=
  (c.find selector).map fun found => found.bind (·.lastValue? setting)

/-- Changes the section that a selector picks, which has to exist. -/
def editSection (c : Config) (selector : String) (change : Section → Section) :
    Except Error (Unit × Config) :=
  match c.edit selector fun s => ((), change s) with
  | .error fault => .error (.selector fault)
  | .ok (none, _) => .error (.notFound (.sectionAt s!"{c.name}.{selector}"))
  | .ok (some (), c) => .ok ((), c)

/-- Replaces the kind and the values of a setting. -/
def setValues (c : Config) (selector setting : String) (kind : Setting.Kind)
    (values : List String) : Except Error (Unit × Config) :=
  c.editSection selector (·.set setting kind values)

/-- Appends a value to a list unless it is there already. -/
def addToList (c : Config) (selector setting value : String) : Except Error (Unit × Config) :=
  c.editSection selector (·.addToList setting value)

/-- Removes a setting, and tells whether it was there. -/
def deleteSetting (c : Config) (selector setting : String) : Except Error (Bool × Config) :=
  match c.find selector with
  | .error fault => .error (.selector fault)
  | .ok found =>
    if found.any (·.contains setting) then
      match c.edit selector fun s => (true, s.erase setting) with
      | .error fault => .error (.selector fault)
      | .ok (removed, c) => .ok (removed.getD false, c)
    else .ok (false, c)

/-- Adds a section, and gives the name that it goes by. A section that has the name and the type
already is left as it is. -/
def addSection (c : Config) (type : String) : Option String → Except Error (String × Config)
  | none => .ok (SyntheticName.text type (c.count type), c.push { type })
  | some name =>
    if name = "" ∨ name.toList.head? = some '@' then .error (.refused (.invalidSectionName name))
    else
      match c.findNamed? name with
      | none => .ok (name, c.push { type, name })
      | some existing =>
        if existing.type = type then .ok (name, c)
        else .error (.refused (.sectionExists c.name name existing.type))

end UnifiedConfig.Config
