import UnifiedConfig.Text.Split

/-!
# Words of a line

A line is words between blanks. A word is made of fragments without a blank between them: bare
characters, a backslash with the character that it stands for, text in single quotes, which is taken
as it is, and text in double quotes, where a backslash gives the character after it. A `#` where a
word would begin makes the rest of the line a comment; inside a word it is a character like any
other. A pair of quotes with nothing in it is a word, the empty one. Blanks are the white space of
Unicode, and not only that of ASCII.

The words are read by a machine that sees one character at a time (`Mode.move`).
-/

namespace UnifiedConfig.Text

/-- Whether a character is white space: one of the 25 characters of the Unicode property
`White_Space`. -/
def isBlank (c : Char) : Bool :=
  let n := c.toNat
  (0x9 ≤ n && n ≤ 0xd) || n == 0x20 || n == 0x85 || n == 0xa0 || n == 0x1680 ||
    (0x2000 ≤ n && n ≤ 0x200a) || n == 0x2028 || n == 0x2029 || n == 0x202f || n == 0x205f ||
    n == 0x3000

/-- The two kinds of quotes. -/
inductive Quote where
  | single
  | double
deriving DecidableEq, Repr

/-- What is wrong with a line that has no reading as words. -/
inductive WordError where
  /-- The line ends inside a quoted text. -/
  | openQuote (quote : Quote)
  /-- The line ends right after a backslash. -/
  | danglingEscape
deriving DecidableEq, Repr

/-- The wording of a fault. -/
def WordError.message : WordError → String
  | .openQuote .single => "unterminated single quote"
  | .openQuote .double => "unterminated double quote"
  | .danglingEscape => "trailing backslash escapes nothing"

/-- Where the machine stands between two characters. -/
inductive Mode where
  /-- In no word. -/
  | between
  /-- In a word, outside of quotes. -/
  | bare
  /-- After a backslash outside of quotes. -/
  | escaped
  /-- In a quoted text. -/
  | quoted (quote : Quote)
  /-- After a backslash in double quotes. -/
  | quotedEscape
deriving DecidableEq, Repr

/-- What the machine does with a character. -/
inductive Move where
  /-- The rest of the line is a comment. -/
  | finish
  /-- The character belongs to no word. -/
  | skip (next : Mode)
  /-- The character belongs to the current word. -/
  | take (next : Mode)
  /-- The character ends the current word. -/
  | close
deriving DecidableEq, Repr

/-- The move for a character that begins a fragment of a word. -/
def fragment (c : Char) : Move :=
  if c = '\'' then .skip (.quoted .single)
  else if c = '"' then .skip (.quoted .double)
  else if c = '\\' then .skip .escaped
  else .take .bare

/-- The move of the machine for each character. -/
def Mode.move : Mode → Char → Move
  | .between, c =>
    if isBlank c then .skip .between else if c = '#' then .finish else fragment c
  | .bare, c => if isBlank c then .close else fragment c
  | .escaped, _ => .take .bare
  | .quoted .single, c => if c = '\'' then .skip .bare else .take (.quoted .single)
  | .quoted .double, c =>
    if c = '"' then .skip .bare
    else if c = '\\' then .skip .quotedEscape
    else .take (.quoted .double)
  | .quotedEscape, _ => .take (.quoted .double)

/-- What the end of the line means in each mode: no further word, the end of the current word, or a
fault. -/
def Mode.atEnd : Mode → Except WordError (List (List Char))
  | .between => .ok []
  | .bare => .ok [[]]
  | .escaped | .quotedEscape => .error .danglingEscape
  | .quoted q => .error (.openQuote q)

/-- The words in the rest of a line. In a word, the first of them is what is left of it. -/
def wordsFrom : Mode → List Char → Except WordError (List (List Char))
  | mode, [] => mode.atEnd
  | mode, c :: rest =>
    match mode.move c with
    | .finish => .ok []
    | .skip next => wordsFrom next rest
    | .take next => (wordsFrom next rest).map (extendFirst c)
    | .close => (wordsFrom .between rest).map ([] :: ·)

/-- The words of a line. -/
def words (line : List Char) : Except WordError (List (List Char)) :=
  wordsFrom .between line

end UnifiedConfig.Text
