import UnifiedConfig.Config.Printer
import UnifiedConfig.Config.Statement
import UnifiedConfig.Proofs.Words

/-!
# Blocks of lines

The text of a configuration falls into blocks: the line that opens a section, and the lines after it
that each give a value to a setting. A section is written as one block (`Section.block`), and each
line of a block is again read as a line of the same kind (`Block.reread`), whatever the names and
values on it are.

* `lines_unlines_dropReturn`: the lines of a text are read back from it, except that a line loses a
  carriage return at its end.
* `Config.render_eq`: the text of a configuration is the lines of its blocks.
* `Assignment.ofLine_of_plain`, `Block.ofLine_of_plain`: a line whose names are plain and whose
  values hold no single quote says what was written.
* `Assignment.isPlain_of_reread`, `Block.isPlain_of_reread`: no other line does.
-/

namespace UnifiedConfig

namespace Text

/-! ## Lines of a text -/

/-- A line without the carriage return that belongs to its end. -/
def dropReturn (l : List Char) : List Char :=
  if l.getLast? = some '\r' then l.dropLast else l

theorem dropReturn_nil : dropReturn [] = [] := rfl

theorem dropReturn_append_cons (l : List Char) {c : Char} (hc : c ≠ '\r') (rest : List Char) :
    dropReturn (l ++ c :: rest) = l ++ c :: dropReturn rest := by
  cases rest with
  | nil => simp [dropReturn, hc]
  | cons d rest =>
    have hlast : (l ++ c :: d :: rest).getLast? = (d :: rest).getLast? := by
      cases hrest : (d :: rest).getLast? with
      | none => simp at hrest
      | some e => simp [List.getLast?_append, List.getLast?_cons_cons, hrest]
    unfold dropReturn
    rw [hlast]
    split <;> simp

theorem dropReturn_withQuoted (w v : List Char) : dropReturn (withQuoted w v) = withQuoted w v := by
  rw [withQuoted, dropReturn_append_cons _ (by decide), ← List.cons_append,
    dropReturn_append_cons _ (by decide), dropReturn_nil, List.cons_append]

theorem dropReturn_length_le (l : List Char) : (dropReturn l).length ≤ l.length := by
  unfold dropReturn
  split <;> simp

/-- If dropping a carriage return keeps the length, there is none. -/
theorem dropReturn_eq_self {l : List Char} (h : l.length ≤ (dropReturn l).length) :
    dropReturn l = l := by
  unfold dropReturn at h ⊢
  split
  · next hlast =>
    have hne : l ≠ [] := by
      intro hnil
      simp [hnil] at hlast
    have hpos := List.length_pos_iff.2 hne
    rw [if_pos hlast, List.length_dropLast] at h
    omega
  · rfl

/-- No line holds a line feed. -/
theorem lineFeed_notMem_of_mem_lines {s l : List Char} (h : l ∈ lines s) : '\n' ∉ l := by
  induction s generalizing l with
  | nil => simp at h
  | cons c rest ih =>
    unfold lines at h
    split at h
    · rcases List.mem_cons.1 h with rfl | h
      · simp
      · exact ih h
    · next hc =>
      split at h
      · exact ih h
      · cases hrest : lines rest with
        | nil =>
          have hl : l = [c] := by simpa [hrest, extendFirst] using h
          simpa [hl] using Ne.symm hc
        | cons first more =>
          rw [hrest] at h ih
          rcases List.mem_cons.1 h with rfl | h
          · simpa [Ne.symm hc] using ih (List.mem_cons_self ..)
          · exact ih (by simp [h])

theorem lines_append_return {l : List Char} (h : '\n' ∉ l) (rest : List Char) :
    lines (l ++ '\r' :: '\n' :: rest) = l :: lines rest := by
  induction l with
  | nil => simp [lines]
  | cons c l ih =>
    have hc : c ≠ '\n' := fun hc => h (by simp [hc])
    have hl : '\n' ∉ l := fun hmem => h (by simp [hmem])
    -- A carriage return goes with the line feed right after it only.
    have hhead : (l ++ '\r' :: '\n' :: rest).head? ≠ some '\n' := by
      cases l with
      | nil => simp
      | cons d l => simpa using fun hd => hl (by simp [hd])
    rw [List.cons_append, lines, if_neg hc, if_neg (fun hand => hhead hand.2), ih hl]
    rfl

/-- A line feed ends the line before it, together with a carriage return. -/
theorem lines_append_lineFeed_dropReturn {l : List Char} (h : '\n' ∉ l) (rest : List Char) :
    lines (l ++ '\n' :: rest) = dropReturn l :: lines rest := by
  by_cases hlast : l.getLast? = some '\r'
  · -- A carriage return that ends the line belongs to the line feed.
    obtain ⟨m, rfl⟩ := List.getLast?_eq_some_iff.1 hlast
    have hm : '\n' ∉ m := fun hmem => h (by simp [hmem])
    rw [dropReturn, if_pos hlast, List.dropLast_concat, List.append_assoc, List.singleton_append,
      lines_append_return hm]
  · rw [dropReturn, if_neg hlast, lines_append_lineFeed h hlast]

theorem lines_unlines_dropReturn {ls : List (List Char)} (h : ∀ l ∈ ls, '\n' ∉ l) :
    lines (unlines ls) = ls.map dropReturn := by
  induction ls with
  | nil => rfl
  | cons l ls ih =>
    rw [unlines_cons, lines_append_lineFeed_dropReturn (h l (by simp)),
      ih fun m hm => h m (by simp [hm]), List.map_cons]

/-- Texts of lines without line feeds are equal only if the lines are. -/
theorem unlines_inj {ls ms : List (List Char)} (hls : ∀ l ∈ ls, '\n' ∉ l)
    (hms : ∀ m ∈ ms, '\n' ∉ m) (h : unlines ls = unlines ms) : ls = ms := by
  induction ls generalizing ms with
  | nil =>
    cases ms with
    | nil => rfl
    | cons m ms => simp at h
  | cons l ls ih =>
    cases ms with
    | nil => simp at h
    | cons m ms =>
      rw [unlines_cons, unlines_cons] at h
      -- Both texts are cut at their first line feed.
      have hl : cut '\n' (l ++ '\n' :: unlines ls) = (l, some (unlines ls)) :=
        cut_eq_some_iff.2 ⟨hls l (by simp), rfl⟩
      have hm : cut '\n' (m ++ '\n' :: unlines ms) = (m, some (unlines ms)) :=
        cut_eq_some_iff.2 ⟨hms m (by simp), rfl⟩
      have heq := hl.symm.trans ((congrArg (cut '\n') h).trans hm)
      simp only [Prod.mk.injEq, Option.some.injEq] at heq
      rw [heq.1, ih (fun k hk => hls k (by simp [hk])) (fun k hk => hms k (by simp [hk])) heq.2]

end Text

open Text

/-! ## Assignments -/

/-- What an `option` or a `list` line says. -/
@[ext]
structure Assignment where
  kind : Setting.Kind
  name : String
  value : String
deriving DecidableEq, Repr

namespace Assignment

/-- The statement that an assignment is on its line. -/
def statement (a : Assignment) : Statement :=
  .setting a.kind a.name a.value

/-- The line of an assignment, its value between single quotes. -/
def line (a : Assignment) : List Char :=
  '\t' :: (a.kind.keyword.toList ++ ' ' :: withQuoted a.name.toList a.value.toList)

/-- The assignment that the line of another one is read as. -/
def reread (a : Assignment) : Assignment :=
  match Statement.ofLine a.line with
  | .ok (some (.setting kind name value)) => { kind, name, value }
  | _ => a

end Assignment

/-- The assignment that writes a value of a setting. -/
def Setting.assignment (o : Setting) (value : String) : Assignment :=
  { kind := o.kind, name := o.name, value }

/-- The assignments that write a setting. -/
def Setting.assignments (o : Setting) : List Assignment :=
  let written := match o.kind with
    | .scalar => o.values.take 1
    | .list => o.values
  written.map o.assignment

theorem Setting.lines_eq (o : Setting) :
    o.lines.map String.toList = o.assignments.map Assignment.line := by
  rw [Setting.lines, Setting.assignments, List.map_map, List.map_map]
  apply List.map_congr_left
  intro value _
  simp [Setting.assignment, Assignment.line, withQuoted, toString]

/-! ## Blocks -/

/-- The line that opens a section and the assignments after it. The name is empty if there is none
on the line. -/
structure Block where
  type : String
  name : String := ""
  assignments : List Assignment := []
deriving DecidableEq, Repr

namespace Block

/-- The statements of a block. -/
def statements (b : Block) : List Statement :=
  .opening b.type b.name :: b.assignments.map Assignment.statement

/-- The line that opens a block. -/
def openingLine (b : Block) : List Char :=
  "config".toList ++ ' ' ::
    (if b.name = "" then b.type.toList else withQuoted b.type.toList b.name.toList)

/-- The lines of a block, with the empty one before it. -/
def lines (b : Block) : List (List Char) :=
  [] :: b.openingLine :: b.assignments.map Assignment.line

/-- The block that the lines of another one are read as. -/
def reread (b : Block) : Block :=
  match Statement.ofLine (dropReturn b.openingLine) with
  | .ok (some (.opening type name)) =>
    { type, name, assignments := b.assignments.map Assignment.reread }
  | _ => b

end Block

/-- The name that is written on the line of a section: none for a synthetic name. -/
def Section.writtenName (s : Section) : String :=
  if s.isUnnamed || SyntheticName.isFor s.name s.type then "" else s.name

/-- The block that a section is written as. -/
def Section.block (s : Section) : Block :=
  { type := s.type, name := s.writtenName, assignments := s.settings.flatMap Setting.assignments }

theorem Section.openingLine_eq (s : Section) :
    s.openingLine.toList = s.block.openingLine := by
  unfold Section.openingLine Block.openingLine Section.block Section.writtenName
  cases hwritten : s.isUnnamed || SyntheticName.isFor s.name s.type with
  | true => simp [toString]
  | false =>
    have hname : s.name ≠ "" := by
      simp only [Bool.or_eq_false_iff] at hwritten
      simpa [Section.isUnnamed] using hwritten.1
    simp [hname, withQuoted, toString]

theorem Section.lines_eq (s : Section) : s.lines.map String.toList = s.block.lines := by
  have hsettings : (s.settings.flatMap Setting.lines).map String.toList =
      (s.settings.flatMap Setting.assignments).map Assignment.line := by
    simp only [List.map_flatMap, Setting.lines_eq]
  rw [Section.lines, List.map_cons, List.map_cons, Section.openingLine_eq, hsettings]
  rfl

/-- The blocks that a configuration is written as. -/
def Config.blocks (c : Config) : List Block :=
  c.sections.map Section.block

/-- The lines of blocks, with the empty one at the end of a text. -/
def Block.textLines (bs : List Block) : List (List Char) :=
  bs.flatMap Block.lines ++ [[]]

/-- The text of a configuration is that of the blocks it is written as. -/
theorem Config.render_eq (c : Config) :
    c.render.toList = unlines (Block.textLines c.blocks) := by
  have hsections : (c.sections.flatMap Section.lines).map String.toList =
      c.blocks.flatMap Block.lines := by
    rw [Config.blocks, List.flatMap_map, List.map_flatMap]
    simp only [Section.lines_eq]
  rw [Config.render, String.toList_ofList, Config.lines, List.map_append, hsections]
  rfl

/-! ## Reading lines -/

theorem Statement.ofLine_eq {line word : List Char} {args : List (List Char)}
    (h : words line = .ok (word :: args)) :
    Statement.ofLine line =
      (Statement.ofKeyword (String.ofList word) (args.map String.ofList)).map some := by
  simp [Statement.ofLine, h]

/-- What a readable line that begins with a keyword is read as. -/
theorem Statement.ofLine_keyword {line rest : List Char} {keyword : String}
    (hline : words line = (words rest).map (keyword.toList :: ·)) {s : Option Statement}
    (h : Statement.ofLine line = .ok s) :
    ∃ args st, words rest = .ok args ∧ s = some st ∧
      Statement.ofKeyword keyword (args.map String.ofList) = .ok st := by
  cases hargs : words rest with
  | error fault => simp [Statement.ofLine, hline, hargs, Except.map] at h
  | ok args =>
    rw [hargs] at hline
    rw [Statement.ofLine_eq hline, String.ofList_toList] at h
    obtain ⟨st, hst, hs⟩ := map_eq_ok_iff.1 h
    exact ⟨args, st, rfl, hs.symm, hst⟩

namespace Assignment

theorem isPlain_keyword (kind : Setting.Kind) : IsPlain kind.keyword.toList := by
  cases kind <;> decide

theorem words_line (a : Assignment) :
    words a.line =
      (words (withQuoted a.name.toList a.value.toList)).map (a.kind.keyword.toList :: ·) := by
  have htab : Mode.move .between '\t' = .skip .between := by decide
  rw [line, words, wordsFrom_skip htab]
  exact words_plain (isPlain_keyword a.kind) _

theorem ofKeyword_kind (kind : Setting.Kind) (args : List String) :
    Statement.ofKeyword kind.keyword args =
      match args with
      | [name, value] => .ok (.setting kind name value)
      | _ => .error (.settingArity kind) := by
  have hpackage : kind.keyword ≠ "package" := by cases kind <;> decide
  have hconfig : kind.keyword ≠ "config" := by cases kind <;> decide
  unfold Statement.ofKeyword
  rw [if_neg hpackage, if_neg hconfig, Setting.Kind.ofKeyword?_keyword]
  rcases args with _ | ⟨name, _ | ⟨value, _ | ⟨more, rest⟩⟩⟩ <;> rfl

/-- A readable line of an assignment is read as one of the same kind. -/
theorem ofLine_line {a : Assignment} {s : Option Statement}
    (h : Statement.ofLine a.line = .ok s) :
    s = some a.reread.statement ∧ a.reread.kind = a.kind ∧
      words (withQuoted a.name.toList a.value.toList) =
        .ok [a.reread.name.toList, a.reread.value.toList] := by
  obtain ⟨args, st, hargs, rfl, hst⟩ := Statement.ofLine_keyword a.words_line h
  rw [ofKeyword_kind] at hst
  -- Any other number of words is in error.
  rcases args with _ | ⟨name, _ | ⟨value, _ | ⟨more, rest⟩⟩⟩ <;> simp at hst
  have hreread : a.reread =
      { kind := a.kind, name := String.ofList name, value := String.ofList value } := by
    rw [reread, h, ← hst]
  rw [hreread]
  exact ⟨by rw [← hst]; rfl, rfl, by simpa using hargs⟩

/-- An assignment to a plain name, of a value without single quotes, is read back. -/
theorem ofLine_of_plain {a : Assignment} (hname : IsPlain a.name.toList)
    (hvalue : '\'' ∉ a.value.toList) : Statement.ofLine a.line = .ok (some a.statement) := by
  have hwords := a.words_line
  rw [words_withQuoted hname hvalue] at hwords
  rw [Statement.ofLine_eq hwords, String.ofList_toList, ofKeyword_kind]
  simp [Except.map, statement]

/-- Only an assignment to a plain name, of a value without single quotes, is read back. -/
theorem isPlain_of_reread {a : Assignment} {s : Option Statement}
    (h : Statement.ofLine a.line = .ok s) (hne : a.name ≠ "") (hreread : a.reread = a) :
    IsPlain a.name.toList ∧ '\'' ∉ a.value.toList := by
  have hwords := (ofLine_line h).2.2
  rw [hreread] at hwords
  exact isPlain_of_words_withQuoted (by simpa using hne) hwords

/-- A plain name is read back, whatever the value is. -/
theorem reread_name_of_plain {a : Assignment} {s : Option Statement}
    (h : Statement.ofLine a.line = .ok s) (hname : IsPlain a.name.toList) :
    a.reread.name = a.name := by
  have hwords := (ofLine_line h).2.2
  rw [withQuoted, words_plain hname] at hwords
  obtain ⟨more, -, hmore⟩ := map_eq_ok_iff.1 hwords
  have hlist : a.name.toList = a.reread.name.toList := by simpa using (List.cons.inj hmore).1
  exact (String.toList_inj.1 hlist).symm

end Assignment

namespace Block

theorem isPlain_config : IsPlain "config".toList := by decide

theorem dropReturn_openingLine (b : Block) :
    dropReturn b.openingLine = "config".toList ++ ' ' ::
      (if b.name = "" then dropReturn b.type.toList
        else withQuoted b.type.toList b.name.toList) := by
  unfold openingLine
  rw [dropReturn_append_cons _ (by decide)]
  split
  · rfl
  · rw [dropReturn_withQuoted]

theorem words_openingLine (b : Block) :
    words (dropReturn b.openingLine) =
      (words (if b.name = "" then dropReturn b.type.toList
        else withQuoted b.type.toList b.name.toList)).map ("config".toList :: ·) := by
  rw [dropReturn_openingLine]
  exact words_plain isPlain_config _

theorem ofOpening_eq_ok {type name : String} {st : Statement}
    (h : Statement.ofOpening type name = .ok st) : type ≠ "" ∧ st = .opening type name := by
  unfold Statement.ofOpening at h
  split at h
  · cases h
  · next htype => exact ⟨htype, by simpa using h.symm⟩

theorem ofKeyword_config {args : List String} {st : Statement}
    (h : Statement.ofKeyword "config" args = .ok st) :
    ∃ type name, type ≠ "" ∧ st = .opening type name ∧
      (args = [type, name] ∨ (args = [type] ∧ name = "")) := by
  have hpackage : "config" ≠ "package" := by decide
  unfold Statement.ofKeyword at h
  rw [if_neg hpackage, if_pos rfl] at h
  rcases args with _ | ⟨type, _ | ⟨name, _ | ⟨more, rest⟩⟩⟩
  · cases h
  · have hopening := ofOpening_eq_ok h
    exact ⟨type, "", hopening.1, hopening.2, .inr ⟨rfl, rfl⟩⟩
  · have hopening := ofOpening_eq_ok h
    exact ⟨type, name, hopening.1, hopening.2, .inl rfl⟩
  · cases h

/-- A readable line that opens a block is read as one that opens a block and gives a type. -/
theorem ofLine_openingLine {b : Block} {s : Option Statement}
    (h : Statement.ofLine (dropReturn b.openingLine) = .ok s) :
    s = some (.opening b.reread.type b.reread.name) ∧ b.reread.type ≠ "" ∧
      b.reread.assignments = b.assignments.map Assignment.reread ∧
      ∃ ws, words (if b.name = "" then dropReturn b.type.toList
          else withQuoted b.type.toList b.name.toList) = .ok ws ∧
        (ws = [b.reread.type.toList, b.reread.name.toList] ∨
          (ws = [b.reread.type.toList] ∧ b.reread.name = "")) := by
  have hwords := b.words_openingLine
  obtain ⟨args, st, hargs, rfl, hst⟩ := Statement.ofLine_keyword hwords h
  obtain ⟨type, name, htype, rfl, hform⟩ := ofKeyword_config hst
  have hreread : b.reread =
      { type, name, assignments := b.assignments.map Assignment.reread } := by
    rw [reread, h]
  rw [hreread]
  refine ⟨rfl, htype, rfl, args, hargs, ?_⟩
  rcases hform with hform | ⟨hform, hname⟩
  · exact .inl (by simpa using congrArg (List.map String.toList) hform)
  · exact .inr ⟨by simpa using congrArg (List.map String.toList) hform, hname⟩

/-- A plain type, with or without a name that holds no single quote, is read back. -/
theorem ofLine_of_plain {b : Block} (htype : IsPlain b.type.toList)
    (hname : '\'' ∉ b.name.toList) :
    Statement.ofLine (dropReturn b.openingLine) = .ok (some (.opening b.type b.name)) := by
  have hne : b.type ≠ "" := by simpa using htype.1
  have hpackage : "config" ≠ "package" := by decide
  have hwords := b.words_openingLine
  by_cases hempty : b.name = ""
  · -- No plain type ends in a carriage return, which is a blank.
    have hreturn : dropReturn b.type.toList = b.type.toList := by
      unfold dropReturn
      split
      · next hlast =>
        have hbare := isBare_iff.1 (htype.2.1 _ (List.mem_of_getLast? hlast))
        exact absurd hbare.1 (by decide)
      · rfl
    rw [if_pos hempty, hreturn, words_plain_end htype] at hwords
    rw [Statement.ofLine_eq hwords, hempty]
    simp [Statement.ofKeyword, Statement.ofOpening, hne, Except.map]
  · rw [if_neg hempty, words_withQuoted htype hname] at hwords
    rw [Statement.ofLine_eq hwords]
    simp [Statement.ofKeyword, Statement.ofOpening, hne, Except.map]

/-- Only a plain type, with or without a name that holds no single quote, is read back. -/
theorem isPlain_of_reread {b : Block} {s : Option Statement}
    (h : Statement.ofLine (dropReturn b.openingLine) = .ok s)
    (htype : b.reread.type = b.type) (hname : b.name ≠ "" → b.reread.name = b.name) :
    IsPlain b.type.toList ∧ '\'' ∉ b.name.toList ∧ b.reread.name = b.name := by
  obtain ⟨-, hne, -, ws, hwords, hform⟩ := ofLine_openingLine h
  rw [htype] at hne hform
  by_cases hempty : b.name = ""
  · rw [if_pos hempty] at hwords
    -- The line is as long as the type alone, so nothing is dropped from it.
    have hlength := (flatten_sublist_of_wordsFrom hwords).length_le
    have hreturn := dropReturn_length_le b.type.toList
    have hflatten : ws.flatten = b.type.toList ++ b.reread.name.toList := by
      rcases hform with rfl | ⟨rfl, hnone⟩
      · simp
      · simp [hnone]
    rw [hflatten, List.length_append] at hlength
    have hself : dropReturn b.type.toList = b.type.toList := dropReturn_eq_self (by omega)
    have hnil : b.reread.name.toList = [] := List.eq_nil_of_length_eq_zero (by omega)
    rw [hself] at hwords
    have hplain := isPlain_of_flatten_eq (by simpa using hne) hwords (by simp [hflatten, hnil])
    refine ⟨hplain.1, by simp [hempty], ?_⟩
    rw [hempty]
    simpa using hnil
  · rw [if_neg hempty] at hwords
    rw [hname hempty] at hform ⊢
    -- A name that is written is read as one, since it is not empty.
    rcases hform with rfl | ⟨-, hnone⟩
    · have hplain := isPlain_of_words_withQuoted (by simpa using hne) hwords
      exact ⟨hplain.1, hplain.2, rfl⟩
    · exact absurd hnone hempty

end Block

end UnifiedConfig
