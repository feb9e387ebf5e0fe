import UnifiedConfig.Config.Basic

/-!
# Showing a configuration

A configuration is shown as lines that each begin with an address: `config.section=type` for a
section, by the name that it goes by, and `config.section.option=values` for each of its settings,
where the values stand in quotes with a blank between them.

The quotes are single ones, so that a shell and the words of a line read a value back as it is. A
quote in a value ends the quoted part, comes after a backslash, and begins the next part.
-/

namespace UnifiedConfig

namespace Text

/-- A character inside of single quotes. -/
def quotedChar (c : Char) : List Char :=
  if c = '\'' then ['\'', '\\', '\'', '\''] else [c]

/-- A text in single quotes. -/
def quoted (s : List Char) : List Char :=
  '\'' :: s.flatMap quotedChar ++ ['\'']

end Text

namespace Setting

/-- The values of a setting in quotes. -/
def quotedValues (o : Setting) : String :=
  String.intercalate " " (o.values.map fun value => String.ofList (Text.quoted value.toList))

/-- The line that shows a setting of the section at an address. -/
def showAt (address : String) (o : Setting) : String :=
  s!"{address}.{o.name}={o.quotedValues}\n"

end Setting

/-- The lines that show a section at an address. -/
def Section.showAt (address : String) (s : Section) : String :=
  s!"{address}={s.type}\n" ++ String.join (s.settings.map (Setting.showAt address))

namespace Config

/-- The address of a section that goes by a name. -/
def addressOf (c : Config) (name : String) : String :=
  s!"{c.name}.{name}"

/-- The lines that show a configuration. -/
def shown (c : Config) : String :=
  String.join ((c.names.zip c.sections).map fun (name, s) => s.showAt (c.addressOf name))

end Config

end UnifiedConfig
