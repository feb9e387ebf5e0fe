import UnifiedConfig.Text.Split

/-!
# Lines of a text

A text is cut into lines at line feeds. A line feed ends its line, so a text that ends in one has no
empty line after it, and a carriage return right before a line feed belongs to the line end. Any
other carriage return, also one at the end of a last line without a line feed, stays in its line.

* `lines_append_lineFeed`: a line that holds no line feed and ends in no carriage return is the first
  one of a text that begins with it and a line feed.
-/

namespace UnifiedConfig.Text

/-- The lines of a text, without their ends. -/
def lines : List Char → List (List Char)
  | [] => []
  | c :: rest =>
    if c = '\n' then [] :: lines rest
    else if c = '\r' ∧ rest.head? = some '\n' then lines rest
    else extendFirst c (lines rest)

/-- The text of a list of lines, each ended by a line feed. -/
def unlines (ls : List (List Char)) : List Char :=
  ls.flatMap (· ++ ['\n'])

@[simp] theorem lines_nil : lines [] = [] := rfl

@[simp] theorem lines_lineFeed (rest : List Char) : lines ('\n' :: rest) = [] :: lines rest := by
  simp [lines]

@[simp] theorem unlines_nil : unlines [] = [] := rfl

@[simp] theorem unlines_cons (l : List Char) (ls : List (List Char)) :
    unlines (l :: ls) = l ++ '\n' :: unlines ls := by
  simp [unlines]

@[simp] theorem unlines_append (ls ms : List (List Char)) :
    unlines (ls ++ ms) = unlines ls ++ unlines ms := by
  simp [unlines]

/-- A line without a line feed, and without a carriage return at its end, is the first line of a
text that begins with it and a line feed. -/
theorem lines_append_lineFeed {l : List Char} (hfeed : '\n' ∉ l) (hreturn : l.getLast? ≠ some '\r')
    (rest : List Char) : lines (l ++ '\n' :: rest) = l :: lines rest := by
  induction l with
  | nil => simp
  | cons c l ih =>
    have hc : c ≠ '\n' := fun h => hfeed (by simp [h])
    have hl : '\n' ∉ l := fun h => hfeed (by simp [h])
    cases l with
    | nil =>
      have hr : c ≠ '\r' := fun h => hreturn (by simp [h])
      simp [lines, hc, hr, extendFirst]
    | cons d l =>
      have hd : d ≠ '\n' := fun h => hl (by simp [h])
      have ih := ih hl (by simpa [List.getLast?_cons_cons] using hreturn)
      simp only [List.cons_append] at ih ⊢
      rw [lines, ih]
      simp [hc, hd, extendFirst]

end UnifiedConfig.Text
