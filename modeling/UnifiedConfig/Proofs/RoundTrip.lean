import UnifiedConfig.Proofs.Reading

/-!
# Which configurations are read back from their text

The text of a configuration is read back as the same sections exactly if the configuration is
writable: types and names of settings are plain words, names of sections and values can stand
between single quotes on a line, no name is synthetic or has been gone by before, and settings have
distinct names and values of the shape of their kind.

* `parse_render`: a writable configuration is read back.
* `isWritable_of_parse_render`: a configuration that is read back is writable.

For the second, what is read is regular, so the configuration was, and its lines are those of its
text. Each section is written as one block, and a block adds one section at most. As there are as
many sections as blocks, each section is made by what its own lines are read as.
-/

namespace UnifiedConfig

open Text

/-! ## Writable configurations -/

/-- Whether a setting can be written: its name is a plain word, its values can stand between single
quotes, and they have the shape of its kind. -/
structure Setting.IsWritable (o : Setting) : Prop where
  name : IsPlain o.name.toList
  values : ∀ value ∈ o.values, IsQuotable value.toList
  shape : o.HasShape

/-- Whether a section can be written: its type is a plain word, its name can stand between single
quotes and is no synthetic name for its type, and its settings can be written and have distinct
names. -/
structure Section.IsWritable (s : Section) : Prop where
  type : IsPlain s.type.toList
  name : IsQuotable s.name.toList
  notSynthetic : s.name ≠ "" → SyntheticName.isFor s.name s.type = false
  distinct : (s.settings.map (·.name)).Nodup
  settings : ∀ o ∈ s.settings, o.IsWritable

/-- Whether a configuration can be written: its sections can, and none has the name that one before
it goes by. -/
structure Config.IsWritable (c : Config) : Prop where
  sections : ∀ s ∈ c.sections, s.IsWritable
  fresh : c.Fresh

instance (o : Setting) : Decidable o.IsWritable :=
  decidable_of_iff (IsPlain o.name.toList ∧ (∀ value ∈ o.values, IsQuotable value.toList) ∧
      o.HasShape)
    ⟨fun ⟨name, values, shape⟩ => { name, values, shape }, fun h => ⟨h.name, h.values, h.shape⟩⟩

instance (s : Section) : Decidable s.IsWritable :=
  decidable_of_iff (IsPlain s.type.toList ∧ IsQuotable s.name.toList ∧
      (s.name ≠ "" → SyntheticName.isFor s.name s.type = false) ∧
      (s.settings.map (·.name)).Nodup ∧ ∀ o ∈ s.settings, o.IsWritable)
    ⟨fun ⟨type, name, notSynthetic, distinct, settings⟩ =>
        { type, name, notSynthetic, distinct, settings },
      fun h => ⟨h.type, h.name, h.notSynthetic, h.distinct, h.settings⟩⟩

theorem Setting.IsWritable.isRegular {o : Setting} (h : o.IsWritable) : o.IsRegular where
  name_ne := by simpa using h.name.1
  lineFeed_name := h.name.notMem (by decide)
  lineFeed_values value hvalue := (h.values value hvalue).2
  shape := h.shape

theorem Section.IsWritable.isRegular {s : Section} (h : s.IsWritable) : s.IsRegular where
  type_ne := by simpa using h.type.1
  lineFeed_type := h.type.notMem (by decide)
  lineFeed_name := h.name.2
  distinct := h.distinct
  settings o ho := (h.settings o ho).isRegular

theorem Config.IsWritable.isRegular {c : Config} (h : c.IsWritable) : c.IsRegular where
  sections s hs := (h.sections s hs).isRegular
  fresh := h.fresh

/-! ## The lines of a text -/

theorem Assignment.dropReturn_line (a : Assignment) : dropReturn a.line = a.line := by
  have hsplit : a.line =
      '\t' :: (a.kind.keyword.toList ++ ' ' :: (a.name.toList ++ ' ' :: '\'' :: a.value.toList)) ++
        ['\''] := by
    simp [Assignment.line, withQuoted]
  rw [hsplit, dropReturn_append_cons _ (by decide), dropReturn_nil]

/-- The lines of a regular section hold no line feed. -/
theorem Section.IsRegular.lineFeed_lines {s : Section} (h : s.IsRegular) :
    ∀ l ∈ s.block.lines, '\n' ∉ l := by
  have hkeyword : ∀ kind : Setting.Kind, '\n' ∉ kind.keyword.toList := fun kind =>
    (Assignment.isPlain_keyword kind).notMem (by decide)
  have hname : '\n' ∉ s.writtenName.toList := by
    unfold Section.writtenName
    split
    · simp
    · exact h.lineFeed_name
  intro l hl
  rcases List.mem_cons.1 hl with rfl | hl
  · simp
  · rcases List.mem_cons.1 hl with rfl | hl
    · have htype := h.lineFeed_type
      unfold Block.openingLine Section.block withQuoted
      split <;> simp [htype, hname]
    · obtain ⟨a, ha, rfl⟩ := List.mem_map.1 hl
      obtain ⟨o, ho, value, hvalue, rfl⟩ :=
        (mem_flatMap_assignments fun o ho => (h.settings o ho).shape).1 ha
      have hregular := h.settings o ho
      have hfeed := hregular.lineFeed_values value hvalue
      simp [Assignment.line, Setting.assignment, withQuoted, hkeyword, hregular.lineFeed_name,
        hfeed]

theorem Config.IsRegular.lineFeed_textLines {c : Config} (h : c.IsRegular) :
    ∀ l ∈ Block.textLines c.blocks, '\n' ∉ l := by
  intro l hl
  rcases List.mem_append.1 hl with hl | hl
  · obtain ⟨b, hb, hlb⟩ := List.mem_flatMap.1 hl
    obtain ⟨s, hs, rfl⟩ := List.mem_map.1 hb
    exact (h.sections s hs).lineFeed_lines l hlb
  · simp [List.mem_singleton.1 hl]

/-- The text of a regular configuration has the lines that it is made of. -/
theorem Config.IsRegular.lines_render {c : Config} (h : c.IsRegular) :
    Text.lines c.render.toList = (Block.textLines c.blocks).map dropReturn := by
  rw [Config.render_eq]
  exact lines_unlines_dropReturn h.lineFeed_textLines

theorem Statement.ofLine_nil : Statement.ofLine [] = .ok none := rfl

theorem Statement.ofLines_append (ls ms : List (List Char)) :
    Statement.ofLines (ls ++ ms) = Statement.ofLines ls ++ Statement.ofLines ms :=
  List.filterMap_append

theorem Statement.readable_append {ls ms : List (List Char)} :
    Statement.Readable (ls ++ ms) ↔ Statement.Readable ls ∧ Statement.Readable ms := by
  simp only [Statement.Readable, List.mem_append, or_imp, forall_and]

namespace Block

/-- The lines of a block as they come out of a text. -/
theorem map_dropReturn_lines (b : Block) :
    b.lines.map dropReturn =
      [] :: dropReturn b.openingLine :: b.assignments.map Assignment.line := by
  have hlines : (b.assignments.map Assignment.line).map dropReturn =
      b.assignments.map Assignment.line := by
    rw [List.map_map]
    exact List.map_congr_left fun a _ => a.dropReturn_line
  simp only [lines, List.map_cons, dropReturn_nil, hlines]

theorem readable_lines {b : Block} :
    Statement.Readable (b.lines.map dropReturn) ↔
      (∃ s, Statement.ofLine (dropReturn b.openingLine) = .ok s) ∧
        Assignment.AllReadable b.assignments := by
  rw [map_dropReturn_lines]
  simp [Statement.Readable, Assignment.AllReadable, Statement.ofLine_nil]

/-- The statements on the lines of a block are those of the block that they are read as. -/
theorem ofLines_lines {b : Block} (h : Statement.Readable (b.lines.map dropReturn)) :
    Statement.ofLines (b.lines.map dropReturn) = b.reread.statements := by
  obtain ⟨⟨s, hs⟩, has⟩ := readable_lines.1 h
  obtain ⟨rfl, -, hassignments, -⟩ := ofLine_openingLine hs
  -- Each line of an assignment gives one statement, as the empty line gives none.
  have hrest : ∀ as : List Assignment, Assignment.AllReadable as →
      Statement.ofLines (as.map Assignment.line) =
        (as.map Assignment.reread).map Assignment.statement := by
    intro as has
    induction as with
    | nil => rfl
    | cons a as ih =>
      obtain ⟨t, ht⟩ := has a (by simp)
      rw [List.map_cons, Statement.ofLines_cons ht, ih fun a' ha' => has a' (by simp [ha']),
        (Assignment.ofLine_line ht).1]
      rfl
  rw [map_dropReturn_lines, Statement.ofLines_cons Statement.ofLine_nil, Statement.ofLines_cons hs,
    hrest _ has, statements, hassignments]
  rfl

/-- The statements on the lines of a text are those of the blocks that they are read as. -/
theorem ofLines_textLines {bs : List Block}
    (h : Statement.Readable ((textLines bs).map dropReturn)) :
    (∀ b ∈ bs, Statement.Readable (b.lines.map dropReturn)) ∧
      Statement.ofLines ((textLines bs).map dropReturn) =
        (bs.map reread).flatMap statements := by
  induction bs with
  | nil => exact ⟨by simp, rfl⟩
  | cons b bs ih =>
    have hsplit : (textLines (b :: bs)).map dropReturn =
        b.lines.map dropReturn ++ (textLines bs).map dropReturn := by
      simp [textLines]
    rw [hsplit, Statement.readable_append] at h
    obtain ⟨hmore, heq⟩ := ih h.2
    refine ⟨by simpa using ⟨h.1, hmore⟩, ?_⟩
    rw [hsplit, Statement.ofLines_append, ofLines_lines h.1, heq]
    simp

/-- What a readable text that blocks are written as says. -/
theorem readable_textLines {bs : List Block}
    (h : ∀ b ∈ bs, Statement.Readable (b.lines.map dropReturn)) :
    Statement.Readable ((textLines bs).map dropReturn) := by
  intro l hl
  rw [textLines, List.map_append, List.mem_append, List.map_flatMap, List.mem_flatMap] at hl
  rcases hl with ⟨b, hb, hlb⟩ | hl
  · exact h b hb l hlb
  · have hempty : l = [] := by simpa [dropReturn_nil] using hl
    exact ⟨none, by rw [hempty, Statement.ofLine_nil]⟩

end Block

/-! ## A writable configuration is read back -/

theorem Section.IsWritable.writtenName_eq {s : Section} (h : s.IsWritable) :
    s.writtenName = s.name := by
  unfold Section.writtenName
  by_cases hname : s.name = ""
  · simp [Section.isUnnamed, hname]
  · simp [Section.isUnnamed, hname, h.notSynthetic hname]

/-- The block that a writable section is written as makes it again. -/
theorem Section.IsWritable.section_block {s : Section} (h : s.IsWritable) :
    s.block.section = s := by
  have hsettings := @Assignment.putAll_assignments [] s.settings (by simpa using h.distinct)
    fun o ho => (h.settings o ho).shape
  simp only [Block.section, Section.block, hsettings, h.writtenName_eq, List.nil_append]

/-- The lines of a writable section are read as what was written. -/
theorem Section.IsWritable.reread_block {s : Section} (h : s.IsWritable) :
    Statement.Readable (s.block.lines.map dropReturn) ∧ s.block.reread = s.block := by
  have hopening : Statement.ofLine (dropReturn s.block.openingLine) =
      .ok (some (.opening s.block.type s.block.name)) :=
    Block.ofLine_of_plain h.type (by simpa [Section.block, h.writtenName_eq] using h.name.1)
  have hplain : ∀ a ∈ s.block.assignments, Statement.ofLine a.line = .ok (some a.statement) := by
    intro a ha
    obtain ⟨o, ho, value, hvalue, rfl⟩ :=
      (mem_flatMap_assignments fun o ho => (h.settings o ho).shape).1 ha
    have hwritable := h.settings o ho
    exact Assignment.ofLine_of_plain hwritable.name (hwritable.values value hvalue).1
  refine ⟨Block.readable_lines.2 ⟨⟨_, hopening⟩, fun a ha => ⟨_, hplain a ha⟩⟩, ?_⟩
  -- Every line says what was written, so nothing changes.
  have hreread : s.block.assignments.map Assignment.reread = s.block.assignments := by
    rw [List.map_congr_left (g := id)]
    · simp
    · intro a ha
      rw [Assignment.reread, hplain a ha]
      rfl
  rw [Block.reread, hopening]
  simp only [hreread]

namespace Config

/-- A writable configuration is read back from its text. -/
theorem parse_render {c : Config} (h : c.IsWritable) (name : String) :
    parse name c.render = .ok { name, sections := c.sections } := by
  have hreread : ∀ b ∈ c.blocks, Statement.Readable (b.lines.map dropReturn) ∧ b.reread = b := by
    intro b hb
    obtain ⟨s, hs, rfl⟩ := List.mem_map.1 hb
    exact (h.sections s hs).reread_block
  have hreadable := Block.readable_textLines fun b hb => (hreread b hb).1
  have hstatements : statements c.render = c.blocks.flatMap Block.statements := by
    rw [statements, h.isRegular.lines_render, (Block.ofLines_textLines hreadable).2,
      List.map_congr_left (g := id) fun b hb => (hreread b hb).2, List.map_id]
  have hsections : c.blocks.map Block.section = c.sections := by
    rw [blocks, List.map_map, List.map_congr_left (g := id), List.map_id]
    exact fun s hs => (h.sections s hs).section_block
  have hnames : ∀ b ∈ c.blocks, ∀ a ∈ b.assignments, a.name ≠ "" := by
    intro b hb a ha
    obtain ⟨s, hs, rfl⟩ := List.mem_map.1 hb
    obtain ⟨o, ho, value, -, rfl⟩ :=
      (mem_flatMap_assignments fun o ho => ((h.sections s hs).settings o ho).shape).1 ha
    exact ((h.sections s hs).settings o ho).isRegular.name_ne
  obtain ⟨r, hr, hname, hr'⟩ := Reader.applyAll_blocks_of_fresh (r := { config := { name } })
    (by simpa [hsections, Fresh, names, countBefore] using h.fresh) hnames
  rw [parse_eq_ok_iff, h.isRegular.lines_render]
  refine ⟨hreadable, r, by rwa [hstatements], ?_⟩
  rw [markClean, hname, hr', hsections]
  rfl

/-! ## Only a writable configuration is read back -/

end Config

/-- A section that is made by what its lines are read as is writable. -/
theorem Section.isWritable_of_reread {s : Section} (h : s.IsRegular)
    (hreadable : Statement.Readable (s.block.lines.map dropReturn))
    (hreread : s.block.reread.section = s) : s.IsWritable := by
  obtain ⟨⟨st, hopening⟩, has⟩ := Block.readable_lines.1 hreadable
  have hassignments := (Block.ofLine_openingLine hopening).2.2.1
  have htype : s.block.reread.type = s.block.type := congrArg Section.type hreread
  have hname : s.block.reread.name = s.name := congrArg Section.name hreread
  have hsettings : Assignment.putAll [] s.block.reread.assignments = s.settings :=
    congrArg Section.settings hreread
  rw [hassignments] at hsettings
  -- A name that is written is the name of the section.
  have hwritten : s.block.name ≠ "" → s.block.reread.name = s.block.name := by
    intro hne
    rw [hname]
    unfold Section.block Section.writtenName at hne ⊢
    split
    · next hsynthetic => simp [hsynthetic] at hne
    · rfl
  obtain ⟨hplain, hquote, heq⟩ := Block.isPlain_of_reread hopening htype hwritten
  have hkeep : s.writtenName = s.name := heq.symm.trans hname
  -- The settings are made by what their lines are read as, so each line is read back.
  have hback := @Assignment.reread_eq_of_putAll [] s.settings (by simpa using h.distinct)
    (by simpa using fun o ho => (h.settings o ho).shape)
    (fun o ho => (h.settings o ho).name_ne) has hsettings
  refine ⟨hplain, ⟨hkeep ▸ hquote, h.lineFeed_name⟩, ?_, h.distinct, ?_⟩
  · -- A synthetic name would not be written.
    intro hne
    cases hsynthetic : SyntheticName.isFor s.name s.type with
    | false => rfl
    | true => simp [Section.writtenName, hsynthetic, Ne.symm hne] at hkeep
  · intro o ho
    have hregular := h.settings o ho
    have hvalue : ∀ value ∈ o.values, IsPlain o.name.toList ∧ '\'' ∉ value.toList := by
      intro value hvalue
      have hmem : o.assignment value ∈ s.settings.flatMap Setting.assignments :=
        (mem_flatMap_assignments fun o ho => (h.settings o ho).shape).2 ⟨o, ho, value, hvalue, rfl⟩
      obtain ⟨t, ht⟩ := has _ hmem
      exact Assignment.isPlain_of_reread ht hregular.name_ne (hback _ hmem)
    -- A setting has a value, so its name is on some line.
    obtain ⟨value, hmem⟩ := List.exists_mem_of_ne_nil _ hregular.shape.values_ne_nil
    exact ⟨(hvalue value hmem).1,
      fun v hv => ⟨(hvalue v hv).2, hregular.lineFeed_values v hv⟩, hregular.shape⟩

namespace Config

/-- A configuration that is read back from its text is writable. -/
theorem isWritable_of_parse_render {c d : Config} {name : String}
    (h : parse name c.render = .ok d) (hsections : d.sections = c.sections) : c.IsWritable := by
  have hdregular := parse_isRegular h
  have hregular : c.IsRegular :=
    ⟨hsections ▸ hdregular.sections, fresh_congr (by rw [hsections]) hdregular.fresh⟩
  obtain ⟨hreadable, r, hr, rfl⟩ := parse_eq_ok_iff.1 h
  rw [hregular.lines_render] at hreadable
  obtain ⟨hblocks, hstatements⟩ := Block.ofLines_textLines hreadable
  rw [statements, hregular.lines_render, hstatements] at hr
  have hr' : r.config.sections = c.sections := hsections
  -- There are as many sections as blocks, so each block has made one of its own.
  have hall := (Reader.applyAll_blocks hr).2 (by simp [hr', blocks])
  rw [hr', blocks] at hall
  simp only [List.nil_append, List.map_map] at hall
  refine ⟨?_, hregular.fresh⟩
  intro s hs
  have hself : s.block.reread.section = s := by
    obtain ⟨i, hi⟩ := List.getElem?_of_mem hs
    have hget := congrArg (·[i]?) hall
    simp only [List.getElem?_map, hi, Option.map_some, Option.some.injEq] at hget
    exact hget.symm
  exact Section.isWritable_of_reread (hregular.sections s hs)
    (hblocks _ (List.mem_map_of_mem hs)) hself

/-- The text of a configuration is read back as its sections exactly if it is writable. -/
theorem parse_render_iff_isWritable (c : Config) (name : String) :
    (∃ d, parse name c.render = .ok d ∧ d.sections = c.sections) ↔ c.IsWritable := by
  constructor
  · rintro ⟨d, hd, hsections⟩
    exact isWritable_of_parse_render hd hsections
  · intro h
    exact ⟨_, parse_render h name, rfl⟩

end Config

end UnifiedConfig
