import UnifiedConfig.Config.Basic
import UnifiedConfig.Error

/-!
# Lookup

A selector resolves to the place of a section. A name resolves to the first section that has it, if
there is one; a positional selector resolves to a section of its type, and is in error if its index
is out of range.

The other way round, the place of a section tells its name. A section that is in hand may be a
foreign one, which has no place in the configuration. It has no ordinal then, and so no name either
unless it has one of its own.
-/

namespace UnifiedConfig.Config

/-- The place of the section of a type with `ordinal` sections of the type before it. -/
def placeOf? (type : String) : Nat → List Section → Option Nat
  | _, [] => none
  | ordinal, s :: rest =>
    if s.type = type then
      match ordinal with
      | 0 => some 0
      | ordinal + 1 => (placeOf? type ordinal rest).map (· + 1)
    else (placeOf? type ordinal rest).map (· + 1)

/-- The place of the first section that has a name of its own, the given one. -/
def placeNamed? (c : Config) (name : String) : Option Nat :=
  c.sections.findIdx? (·.hasName name)

/-- The place of the section at an index among those of a type. -/
def placeAt (c : Config) (type : String) (index : Int) : Except SelectorError (Option Nat) :=
  (Selector.resolve index (c.count type)).map fun ordinal => placeOf? type ordinal c.sections

/-- The place of the section that a positional selector picks. -/
def placePositional (c : Config) (selector : String) : Except SelectorError (Option Nat) := do
  let (type, index) ← Selector.readPositional selector
  c.placeAt type index

/-- The place of the section that a selector picks, or none if it is a name that no section has. -/
def place (c : Config) (selector : String) : Except SelectorError (Option Nat) := do
  match ← Selector.parse selector with
  | .named name => return c.placeNamed? name
  | .positional type index => c.placeAt type index

/-- The section that a selector picks. -/
def find (c : Config) (selector : String) : Except SelectorError (Option Section) :=
  (c.place selector).map fun place => place.bind (c.sections[·]?)

/-- The first section of a name. -/
def findNamed? (c : Config) (name : String) : Option Section :=
  c.sections.find? (·.hasName name)

/-- The ordinal of the section at a place, which has to be one of the configuration. -/
def ordinalOf (c : Config) (place : Nat) : Except Error Nat :=
  match c.ordinal? place with
  | some ordinal => .ok ordinal
  | none => .error (.foreignSection c.name)

/-- The name that a section at a place goes by. -/
def nameOf (c : Config) (s : Section) (place : Nat) : Except Error String :=
  if s.isUnnamed then (c.ordinalOf place).map (SyntheticName.text s.type) else .ok s.name

/-- Hands the section that a selector picks to `edit`, which gives a result and the section after
it. The configuration is tainted if there is a section, also if `edit` leaves it as it is. -/
def edit {α : Type} (c : Config) (selector : String) (edit : Section → α × Section) :
    Except SelectorError (Option α × Config) := do
  match ← c.place selector with
  | none => return (none, c)
  | some i =>
    match c.sections[i]? with
    | none => return (none, c.taint)
    | some s => return (some (edit s).1, (c.changeAt i fun _ => (edit s).2).taint)

end UnifiedConfig.Config
