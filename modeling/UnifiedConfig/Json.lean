/-!
# JSON

JSON values and their text. The fields of an object keep their order. A number is kept as it is
written.

The text has one of two layouts. The compact one has no blanks; in the pretty one each item of an
array and each field of an object has a line of its own, indented by two blanks for each level.
-/

namespace UnifiedConfig

/-- A JSON value. -/
inductive Json where
  | null
  | bool (b : Bool)
  | number (literal : String)
  | string (s : String)
  | array (items : List Json)
  | object (fields : List (String × Json))
deriving Inhabited

namespace Json

/-! ## Access -/

/-- The text of a string value. -/
def string? : Json → Option String
  | .string s => some s
  | _ => none

/-- The items of an array. -/
def array? : Json → Option (List Json)
  | .array items => some items
  | _ => none

/-- The fields of an object. -/
def object? : Json → Option (List (String × Json))
  | .object fields => some fields
  | _ => none

/-! ## Text -/

/-- How a text is laid out: what stands before an item, or before the closing bracket, at a depth,
and what stands between the name of a field and its value. -/
structure Layout where
  lineBreak : Nat → String
  colon : String

/-- The layout without blanks. -/
def Layout.compact : Layout where
  lineBreak _ := ""
  colon := ":"

/-- The layout with a line for each item. -/
def Layout.pretty : Layout where
  lineBreak depth := "\n" ++ String.ofList (List.replicate (2 * depth) ' ')
  colon := ": "

/-- A control character as four hexadecimal digits. -/
def controlEscape (c : Char) : String :=
  let digits := Nat.toDigits 16 c.toNat
  "\\u" ++ String.ofList (List.replicate (4 - digits.length) '0' ++ digits)

/-- A character of a string: the double quote, the backslash and the controls below the blank are
escaped. -/
def escapedChar (c : Char) : String :=
  match c with
  | '"' => "\\\""
  | '\\' => "\\\\"
  | '\x08' => "\\b"
  | '\x0c' => "\\f"
  | '\n' => "\\n"
  | '\r' => "\\r"
  | '\t' => "\\t"
  | c => if c < ' ' then controlEscape c else c.toString

/-- The text of a string. -/
def quoted (s : String) : String :=
  "\"" ++ String.join (s.toList.map escapedChar) ++ "\""

/-- The text between the brackets of an array or an object, from the texts of what it holds. -/
def Layout.enclose (layout : Layout) (depth : Nat) (left right : String) (items : List String) :
    String :=
  match items with
  | [] => left ++ right
  | items =>
    left ++ String.intercalate "," (items.map (layout.lineBreak (depth + 1) ++ ·)) ++
      layout.lineBreak depth ++ right

mutual

/-- The text of a value that stands at a depth. -/
def renderAt (layout : Layout) (depth : Nat) : Json → String
  | .null => "null"
  | .bool b => if b then "true" else "false"
  | .number literal => literal
  | .string s => quoted s
  | .array items => layout.enclose depth "[" "]" (renderItems layout (depth + 1) items)
  | .object fields => layout.enclose depth "\x7b" "\x7d" (renderFields layout (depth + 1) fields)

/-- The texts of the items of an array. -/
def renderItems (layout : Layout) (depth : Nat) : List Json → List String
  | [] => []
  | item :: rest => renderAt layout depth item :: renderItems layout depth rest

/-- The texts of the fields of an object. -/
def renderFields (layout : Layout) (depth : Nat) : List (String × Json) → List String
  | [] => []
  | (name, value) :: rest =>
    (quoted name ++ layout.colon ++ renderAt layout depth value) :: renderFields layout depth rest

end

/-- The text of a value. -/
def render (layout : Layout) (j : Json) : String :=
  renderAt layout 0 j

end Json

end UnifiedConfig
