import UnifiedConfig.Setting

/-!
# Sections

A section groups settings under a type. It may have a name; the empty name means that it has none.
Settings keep the order in which they came, and an operation on a setting by name concerns the first
one of that name.
-/

namespace UnifiedConfig

/-- A group of settings under a type. -/
structure Section where
  type : String
  name : String := ""
  settings : List Setting := []
deriving DecidableEq, Repr

namespace Section

/-- Whether the section has no name of its own. -/
def isUnnamed (s : Section) : Bool :=
  s.name == ""

/-- Whether the section's own name is `name`. An unnamed section has no name to compare, not even
the empty one. -/
def hasName (s : Section) (name : String) : Bool :=
  !s.isUnnamed && s.name == name

/-- The first setting of a name. -/
def find? (s : Section) (name : String) : Option Setting :=
  s.settings.find? (·.name == name)

/-- The last value of a setting. -/
def lastValue? (s : Section) (name : String) : Option String :=
  (s.find? name).bind (·.values.getLast?)

/-- Changes the first element that passes a test, and appends `new` if none does. -/
def changeFirstOr (test : Setting → Bool) (change : Setting → Setting) (new : Setting) :
    List Setting → List Setting
  | [] => [new]
  | o :: rest => if test o then change o :: rest else o :: changeFirstOr test change new rest

/-- Changes the first setting of the name of `new`, and appends `new` if there is none. -/
def changeOr (s : Section) (change : Setting → Setting) (new : Setting) : Section :=
  { s with settings := changeFirstOr (·.name == new.name) change new s.settings }

/-- Changes the first setting of a name, if there is one. -/
def change (s : Section) (name : String) (change : Setting → Setting) : Section :=
  { s with settings :=
    match s.settings.findIdx? (·.name == name) with
    | some i => s.settings.modify i change
    | none => s.settings }

/-- Appends a setting, whether or not there is one of its name. -/
def push (s : Section) (o : Setting) : Section :=
  { s with settings := s.settings ++ [o] }

/-- Merges the values of a setting into the one of its name, and appends it if there is none. -/
def merge (s : Section) (o : Setting) : Section :=
  s.changeOr (·.merge o.values) o

/-- Replaces the kind and the values of a setting, and adds it if there is none. -/
def set (s : Section) (name : String) (kind : Setting.Kind) (values : List String) : Section :=
  s.changeOr (fun o => { o with kind, values }) { name, kind, values }

/-- Appends a value to a list unless it is there already. A scalar of the name becomes a list that
begins with the values it has. -/
def addToList (s : Section) (name value : String) : Section :=
  s.changeOr (fun o => { o with kind := .list }.merge [value])
    { name, kind := .list, values := [value] }

/-- Removes the first setting of a name. -/
def erase (s : Section) (name : String) : Section :=
  { s with settings := s.settings.eraseP (·.name == name) }

/-- Whether there is a setting of a name. -/
def contains (s : Section) (name : String) : Bool :=
  (s.find? name).isSome

end Section

end UnifiedConfig
