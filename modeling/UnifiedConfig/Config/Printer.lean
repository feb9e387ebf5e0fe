import UnifiedConfig.Config.Basic
import UnifiedConfig.Text.Lines

/-!
# The text of a configuration

A configuration is written as lines. Each section has an empty line before it, then the line with
its type and its name, then a line for each value of its settings, and the text ends with an empty
line. Names and values stand between single quotes as they are. A scalar has one line, for the first
of its values, and a setting without values has none.

A section has no name in the text if it has none, or if its name is a synthetic name for its own
type: such names follow from the place of a section and are not written.
-/

namespace UnifiedConfig

/-- The lines of a setting. -/
def Setting.lines (o : Setting) : List String :=
  let written := match o.kind with
    | .scalar => o.values.take 1
    | .list => o.values
  written.map fun value => s!"\t{o.kind.keyword} {o.name} '{value}'"

namespace Section

/-- The line that opens a section. -/
def openingLine (s : Section) : String :=
  if s.isUnnamed || SyntheticName.isFor s.name s.type then s!"config {s.type}"
  else s!"config {s.type} '{s.name}'"

/-- The lines of a section, with the empty one before it. -/
def lines (s : Section) : List String :=
  "" :: s.openingLine :: s.settings.flatMap Setting.lines

end Section

namespace Config

/-- The lines of a configuration. -/
def lines (c : Config) : List String :=
  c.sections.flatMap Section.lines ++ [""]

/-- The text of a configuration. -/
def render (c : Config) : String :=
  String.ofList (Text.unlines (c.lines.map String.toList))

end Config

end UnifiedConfig
