import UnifiedConfig.Config.Basic

/-!
# Merging

A section is merged into the one it is meant for, which is the first section that goes by its name.
For an unnamed section this is the synthetic name at the place that it is intended for. If no
section goes by that name, the merged section is appended.

A whole configuration is laid over another one section by section, each unnamed section intended for
the place that it has in its own configuration.
-/

namespace UnifiedConfig

/-- Merges the settings of another section into those of `s`, one by one. -/
def Section.mergeAll (s : Section) (settings : List Setting) : Section :=
  settings.foldl Section.merge s

namespace Config

/-- Merges a section that is intended to have `ordinal` sections of its type before it, and gives
the place of the section that has taken it up. -/
def mergeAt (c : Config) (s : Section) (ordinal : Nat) : Config × Nat :=
  match c.names.findIdx? (· == s.nameAt ordinal) with
  | some i => ((c.changeAt i (·.mergeAll s.settings)).taint, i)
  | none => (c.push s, c.sections.length)

/-- Lays sections over a configuration, given how often each type has come before. -/
def overlayFrom (c : Config) (before : List Section) : List Section → Config
  | [] => c
  | s :: rest =>
    overlayFrom (c.mergeAt s (before.countP (·.type == s.type))).1 (before ++ [s]) rest

/-- Lays another configuration over this one. -/
def overlay (c other : Config) : Config :=
  c.overlayFrom [] other.sections

end Config

end UnifiedConfig
