import UnifiedConfig.Config.Basic
import UnifiedConfig.Json

/-!
# Configurations as JSON

A configuration is dumped as an object, with an object for each section and for each setting. A name
of a section that is empty, and a list of sections or settings that is empty, are left out. Reading
a dump takes what is left out as empty and passes over fields that it does not know; the
configuration that it gives is not tainted.
-/

namespace UnifiedConfig

namespace Json

/-- Reads a field that must be there. -/
def required {α : Type} (fields : List (String × Json)) (name : String)
    (read : Json → Option α) : Option α :=
  (fields.lookup name).bind read

/-- Reads a field that stands for a default value where it is left out. -/
def withDefault {α : Type} (fields : List (String × Json)) (name : String) (default : α)
    (read : Json → Option α) : Option α :=
  match fields.lookup name with
  | none => some default
  | some j => read j

/-- Reads an array, all of whose items must be readable. -/
def listOf? {α : Type} (read : Json → Option α) (j : Json) : Option (List α) :=
  j.array?.bind fun items => items.mapM read

end Json

namespace Setting

/-- The dump of a setting. -/
def toJson (o : Setting) : Json :=
  .object [("name", .string o.name), ("values", .array (o.values.map .string)),
    ("type", .string o.kind.keyword)]

/-- Reads the dump of a setting. -/
def ofJson? (j : Json) : Option Setting := do
  let fields ← j.object?
  let name ← Json.required fields "name" Json.string?
  let values ← Json.required fields "values" (Json.listOf? Json.string?)
  let kind ← Json.required fields "type" fun kind => kind.string?.bind Kind.ofKeyword?
  return { name, kind, values }

end Setting

namespace Section

/-- The dump of a section. -/
def toJson (s : Section) : Json :=
  .object <|
    (if s.name = "" then [] else [("name", .string s.name)]) ++
    [("type", .string s.type)] ++
    (if s.settings = [] then [] else [("options", .array (s.settings.map Setting.toJson))])

/-- Reads the dump of a section. -/
def ofJson? (j : Json) : Option Section := do
  let fields ← j.object?
  let name ← Json.withDefault fields "name" "" Json.string?
  let type ← Json.required fields "type" Json.string?
  let settings ← Json.withDefault fields "options" [] (Json.listOf? Setting.ofJson?)
  return { type, name, settings }

end Section

namespace Config

/-- The dump of a configuration. -/
def toJson (c : Config) : Json :=
  .object <|
    [("name", .string c.name)] ++
    (if c.sections = [] then [] else [("sections", .array (c.sections.map Section.toJson))])

/-- Reads the dump of a configuration. -/
def ofJson? (j : Json) : Option Config := do
  let fields ← j.object?
  let name ← Json.required fields "name" Json.string?
  let sections ← Json.withDefault fields "sections" [] (Json.listOf? Section.ofJson?)
  return { name, sections }

end Config

end UnifiedConfig
