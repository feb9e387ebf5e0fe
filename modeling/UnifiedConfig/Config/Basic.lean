import UnifiedConfig.Section
import UnifiedConfig.SyntheticName

/-!
# Configurations

A configuration is a named sequence of sections. The order of the sections has a meaning: an unnamed
section is known by its ordinal, the number of sections of its type before it, and its synthetic
name is made of the two. Named sections count as well.

A configuration is tainted once an operation has changed it, or has handed out a section to be
changed, since it was read or last marked clean.
-/

namespace UnifiedConfig

/-- A named sequence of sections. -/
structure Config where
  name : String
  sections : List Section := []
  tainted : Bool := false
deriving DecidableEq, Repr

/-- The name that a section goes by if `ordinal` sections of its type are before it: its own name,
or its synthetic name if it has none. -/
@[inline] def Section.nameAt (s : Section) (ordinal : Nat) : String :=
  if s.isUnnamed then SyntheticName.text s.type ordinal else s.name

namespace Config

/-- The number of sections of a type. -/
def count (c : Config) (type : String) : Nat :=
  c.sections.countP (·.type == type)

/-- The number of sections of a type among the first `i`. -/
def countBefore (c : Config) (type : String) (i : Nat) : Nat :=
  (c.sections.take i).countP (·.type == type)

/-- The ordinal of the section at a place, if there is one. -/
def ordinal? (c : Config) (i : Nat) : Option Nat :=
  c.sections[i]?.map fun s => c.countBefore s.type i

/-- The names that the sections go by, in order. -/
def names (c : Config) : List String :=
  c.sections.mapIdx fun i s => s.nameAt (c.countBefore s.type i)

/-- The configuration, marked as changed. -/
def taint (c : Config) : Config :=
  { c with tainted := true }

/-- The configuration, with no change to remember. -/
def markClean (c : Config) : Config :=
  { c with tainted := false }

/-- Changes the section at a place; the configuration is not tainted by it. -/
def changeAt (c : Config) (i : Nat) (change : Section → Section) : Config :=
  { c with sections := c.sections.modify i change }

/-- Appends a section. -/
def push (c : Config) (s : Section) : Config :=
  { c with sections := c.sections ++ [s], tainted := true }

end Config

end UnifiedConfig
