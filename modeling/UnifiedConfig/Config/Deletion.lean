import UnifiedConfig.Config.Lookup

/-!
# Deletion

A section is deleted by a name or by a positional selector. A text that is a positional selector
might also be the stored name of a section; the first section that it concerns in either way is
deleted.
-/

namespace UnifiedConfig.Config

/-- The type and the ordinal that a text picks as a positional selector. A text that is none, or is
out of range, picks nothing, whatever is wrong with it. -/
def picked? (c : Config) (selector : String) : Option (String × Nat) :=
  match Selector.readPositional selector with
  | .error _ => none
  | .ok (type, index) =>
    match Selector.resolve index (c.count type) with
    | .error _ => none
    | .ok ordinal => some (type, ordinal)

/-- The place of the first section that has a name, or that is of the picked type and at the picked
ordinal, given how many sections of that type have come before. -/
def placeToDelete? (name : String) (picked : Option (String × Nat)) :
    Nat → List Section → Option Nat
  | _, [] => none
  | seen, s :: rest =>
    if s.hasName name then some 0
    else
      match picked with
      | some (type, ordinal) =>
        if s.type = type then
          if seen = ordinal then some 0
          else (placeToDelete? name picked (seen + 1) rest).map (· + 1)
        else (placeToDelete? name picked seen rest).map (· + 1)
      | none => (placeToDelete? name picked seen rest).map (· + 1)

/-- Deletes a section, and tells whether there was one to delete. -/
def delete (c : Config) (selector : String) : Bool × Config :=
  match placeToDelete? selector (c.picked? selector) 0 c.sections with
  | some i => (true, { c with sections := c.sections.eraseIdx i, tainted := true })
  | none => (false, c)

end UnifiedConfig.Config
