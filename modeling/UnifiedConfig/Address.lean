import UnifiedConfig.Error
import UnifiedConfig.Text.Split

/-!
# Addresses

An address is what a command is given: `config[.section[.option]][=value]`. The section is a name or
a positional selector, and the type in a selector may hold dots, as the selector ends at its first
`]`. Only the value may hold a `=`, as everything after the first one belongs to it.
-/

namespace UnifiedConfig

open Text

/-- The parts of an address. -/
structure Address where
  config : String
  selector : Option String := none
  setting : Option String := none
  value : Option String := none
deriving DecidableEq, Repr

namespace Address

/-- Cuts what follows the configuration into the selector and the name of a setting. A positional
selector must be followed by a dot or by nothing. -/
def cutSelector (tail : List Char) : Option (List Char × Option (List Char)) :=
  if tail.head? = some '@' then
    match cut ']' tail with
    | (_, none) => none
    | (selector, some []) => some (selector ++ [']'], none)
    | (selector, some ('.' :: setting)) => some (selector ++ [']'], some setting)
    | (_, some _) => none
  else some (cut '.' tail)

/-- The selector and the name of a setting in what follows the configuration. Neither is empty, and
there is no dot in the name of a setting. -/
def readSelector (tail : List Char) : Option (List Char × Option (List Char)) :=
  match cutSelector tail with
  | none | some ([], _) => none
  | some (selector, none) => some (selector, none)
  | some (selector, some setting) =>
    if setting = [] ∨ '.' ∈ setting then none else some (selector, some setting)

/-- The parts of an address, if it is well formed. -/
def parse? (s : String) : Option Address :=
  let (path, value) := cut '=' s.toList
  let value := value.map String.ofList
  match cut '.' path with
  | ([], _) => none
  | (config, none) => some { config := String.ofList config, value }
  | (config, some tail) =>
    (readSelector tail).map fun (selector, setting) =>
      { config := String.ofList config, selector := some (String.ofList selector),
        setting := setting.map String.ofList, value }

/-- Reads an address. -/
def parse (s : String) : Except Error Address :=
  match parse? s with
  | some a => .ok a
  | none => .error (.refused (.invalidAddress s))

/-- The text of an address without its value. -/
def text (a : Address) : String :=
  a.config ++ (a.selector.map ("." ++ ·)).getD "" ++ (a.setting.map ("." ++ ·)).getD ""

/-- A part of an address, which must be there. -/
def require (a : Address) (part : AddressPart) : Except Error String :=
  let found := match part with
    | .selector => a.selector
    | .setting => a.setting
    | .value => a.value
  match found with
  | some s => .ok s
  | none => .error (.refused (.addressLacks a.text part))

end Address

end UnifiedConfig
