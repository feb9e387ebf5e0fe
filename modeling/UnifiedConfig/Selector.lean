import UnifiedConfig.Text.Escaped
import UnifiedConfig.Text.Integer
import UnifiedConfig.Text.Split

/-!
# Section selectors

A selector picks a section of a configuration, by its stored name or by its place among the sections
of a type. The second form is `@type[index]`: the index is a signed decimal number, and a negative
one counts from the end. Whatever begins with `@` has to follow that form; all else is a name.

A text that does not follow it has exactly one fault: the checks have a fixed order, and the faults
that lie in a character are reported for the leftmost of them (`offence`).
-/

namespace UnifiedConfig

open Text

/-- Why a text is no positional selector, or selects nothing. -/
inductive SelectorError where
  /-- Too short to hold a type and an index. -/
  | tooShort
  /-- The first character is not `@`. -/
  | missingAt
  /-- A further `@`. -/
  | secondAt
  /-- A further `[`. -/
  | secondOpenBracket
  /-- A `]` before the end. -/
  | earlyCloseBracket
  /-- A bracket is missing, or the type is empty. -/
  | malformed
  /-- The text between the brackets is not the text of an index. -/
  | indexNotNumeric (index : String) (fault : IntegerError)
  /-- There is no section of the type at the index. -/
  | outOfBounds
deriving DecidableEq, Repr

/-- The wording of a fault. -/
def SelectorError.message : SelectorError → String
  | .tooShort => "implausible section selector: must be at least 5 characters long"
  | .missingAt => "invalid syntax: section selector must start with @ sign"
  | .secondAt => "invalid syntax: multiple @ signs found"
  | .secondOpenBracket => "invalid syntax: multiple open brackets found"
  | .earlyCloseBracket => "invalid syntax: multiple closed brackets found"
  | .malformed => "invalid syntax: section selector must have format '@type[index]'"
  | .indexNotNumeric index fault =>
    s!"invalid syntax: index must be numeric: parsing {escaped index}: {fault.message}"
  | .outOfBounds => "invalid name: index out of bounds"

/-- A section selector. -/
inductive Selector where
  /-- The section whose stored name this is. -/
  | named (name : String)
  /-- The section at an index among those of a type, counted from the end if it is negative. -/
  | positional (type : String) (index : Int)
deriving DecidableEq, Repr

namespace Selector

/-- The leftmost character after the `@` that no positional selector has there: a second `@`, a
second `[`, or a `]` that is not the last character. -/
def offence (opened : Bool) : List Char → Option SelectorError
  | [] => none
  | c :: rest =>
    if c = '@' then some .secondAt
    else if c = '[' then if opened then some .secondOpenBracket else offence true rest
    else if c = ']' ∧ rest ≠ [] then some .earlyCloseBracket
    else offence opened rest

/-- The type and the text of the index in what follows the `@`, if it is a type, `[`, a text and
`]`. -/
def brackets (body : List Char) : Option (List Char × List Char) :=
  match cut '[' body with
  | ([], _) | (_, none) => none
  | (type, some tail) => if tail.getLast? = some ']' then some (type, tail.dropLast) else none

/-- The least length of a positional selector in bytes: a type and a digit with the three signs. -/
def leastSize : Nat := 5

/-- Reads a positional selector as its type and index. -/
def readPositional (s : String) : Except SelectorError (String × Int) :=
  if s.utf8ByteSize < leastSize then .error .tooShort
  else match s.toList with
    | '@' :: body =>
      -- A character in the wrong place is reported before a part that is missing.
      match offence false body, brackets body with
      | some fault, _ => .error fault
      | none, none => .error .malformed
      | none, some (type, index) =>
        match readInt64 index with
        | .error fault => .error (.indexNotNumeric (String.ofList index) fault)
        | .ok n => .ok (String.ofList type, n)
    | _ => .error .missingAt

/-- Reads a selector: a positional one if it begins with `@`, and a name otherwise. -/
def parse (s : String) : Except SelectorError Selector :=
  if s.toList.head? = some '@' then
    (readPositional s).map fun (type, index) => .positional type index
  else .ok (.named s)

/-- The ordinal that an index stands for among `count` sections. -/
def resolve (index : Int) (count : Nat) : Except SelectorError Nat :=
  if index ≥ count ∨ index < -count then .error .outOfBounds
  else .ok (if index < 0 then index + count else index).toNat

end Selector

end UnifiedConfig
