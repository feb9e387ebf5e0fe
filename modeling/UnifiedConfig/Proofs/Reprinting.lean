import UnifiedConfig.Proofs.RoundTrip

/-!
# Which texts are settled once they are written

Names and values are written as they are, without any escape. So what has been read from a text, and
is written, need not be readable, and if it is, it need not be written as the same text again. It is
exactly if the configuration is writable in the form that its text shows (`Config.asPrinted`).

* `reprint_iff`: what has been read and written is read again and written as the same text exactly
  if it is writable as printed.
* `not_reprint`: a value with a single quote in it is not read again.
-/

namespace UnifiedConfig

open Text

/-! ## Texts of blocks -/

theorem Assignment.line_inj {a b : Assignment} (hname : '\'' ∉ b.name.toList)
    (hvalue : '\'' ∉ b.value.toList) (h : a.line = b.line) : a = b := by
  have hkind : a.kind = b.kind := by
    unfold line at h
    cases ha : a.kind <;> cases hb : b.kind <;>
      first
      | rfl
      | simp [ha, hb, Setting.Kind.keyword] at h
  unfold line at h
  rw [hkind, List.cons.injEq, List.append_cancel_left_eq, List.cons.injEq] at h
  have hquoted := withQuoted_inj hname hvalue h.2.2
  exact Assignment.ext hkind (String.toList_inj.1 hquoted.1) (String.toList_inj.1 hquoted.2)

/-- Lines are cut at the first empty one. -/
theorem eq_of_append_nil_cons {ls ms rest more : List (List Char)} (hls : [] ∉ ls) (hms : [] ∉ ms)
    (h : ls ++ [] :: rest = ms ++ [] :: more) : ls = ms ∧ rest = more := by
  induction ls generalizing ms with
  | nil =>
    cases ms with
    | nil => exact ⟨rfl, by simpa using h⟩
    | cons m ms => simp_all
  | cons l ls ih =>
    cases ms with
    | nil => simp_all
    | cons m ms =>
      rw [List.cons_append, List.cons_append, List.cons.injEq] at h
      have ih := ih (fun hmem => hls (by simp [hmem])) (fun hmem => hms (by simp [hmem])) h.2
      exact ⟨by rw [h.1, ih.1], ih.2⟩

namespace Block

/-- The lines of a block after the empty one. -/
def body (b : Block) : List (List Char) :=
  b.openingLine :: b.assignments.map Assignment.line

theorem nil_notMem_body (b : Block) : [] ∉ b.body := by
  unfold body openingLine Assignment.line
  simp

theorem textLines_cons (b : Block) (bs : List Block) :
    textLines (b :: bs) = [] :: (b.body ++ textLines bs) := by
  simp [textLines, lines, body]

/-- An empty line begins every block and ends the text, so the lines of a text tell its blocks
apart. -/
theorem body_eq_of_textLines_eq {bs cs : List Block} (h : textLines bs = textLines cs) :
    bs.map body = cs.map body := by
  -- The text of no block at all begins with an empty line as well.
  have hcons : ∀ ds : List Block, ∃ rest, textLines ds = [] :: rest := by
    intro ds
    cases ds with
    | nil => exact ⟨[], rfl⟩
    | cons d ds => exact ⟨_, textLines_cons d ds⟩
  induction bs generalizing cs with
  | nil =>
    cases cs with
    | nil => rfl
    | cons c cs => simp [textLines, lines] at h
  | cons b bs ih =>
    cases cs with
    | nil => simp [textLines, lines] at h
    | cons c cs =>
      rw [textLines_cons, textLines_cons, List.cons.injEq] at h
      obtain ⟨rest, hrest⟩ := hcons bs
      obtain ⟨more, hmore⟩ := hcons cs
      rw [hrest, hmore] at h
      have hcut := eq_of_append_nil_cons b.nil_notMem_body c.nil_notMem_body h.2
      have ih := @ih cs (by rw [hrest, hmore, hcut.2])
      rw [List.map_cons, List.map_cons, hcut.1, ih]

end Block

/-- Regular configurations are written as the same text only if they are as blocks. -/
theorem Config.IsRegular.body_eq_of_render_eq {c d : Config} (hc : c.IsRegular) (hd : d.IsRegular)
    (h : c.render = d.render) : c.blocks.map Block.body = d.blocks.map Block.body := by
  have htext := congrArg String.toList h
  rw [render_eq, render_eq] at htext
  have hlines := unlines_inj hc.lineFeed_textLines hd.lineFeed_textLines htext
  exact Block.body_eq_of_textLines_eq hlines

theorem Config.render_eq_of_body_eq {c d : Config}
    (h : c.blocks.map Block.body = d.blocks.map Block.body) : c.render = d.render := by
  have hlines : ∀ e : Config, Block.textLines e.blocks =
      (e.blocks.map Block.body).flatMap ([] :: ·) ++ [[]] := by
    intro e
    rw [Block.textLines, List.flatMap_map]
    rfl
  apply String.toList_inj.1
  rw [render_eq, render_eq, hlines, hlines, h]

/-! ## Sections as they are printed -/

/-- The texts before and between the quotes, if a text is made of one without a blank, of one that
is not empty between single quotes, and of a blank in between. -/
def Text.splitQuoted? (l : List Char) : Option (List Char × List Char) :=
  match cut ' ' l with
  | (w, some ('\'' :: rest)) =>
    if rest.getLast? = some '\'' ∧ rest.dropLast ≠ [] then some (w, rest.dropLast) else none
  | _ => none

theorem Text.splitQuoted?_withQuoted {w v : List Char} (hw : ' ' ∉ w) (hv : v ≠ []) :
    splitQuoted? (withQuoted w v) = some (w, v) := by
  have hcut : cut ' ' (withQuoted w v) = (w, some ('\'' :: (v ++ ['\'']))) :=
    cut_eq_some_iff.2 ⟨hw, rfl⟩
  simp [splitQuoted?, hcut, hv]

theorem Text.splitQuoted?_eq_some {l w v : List Char} (h : splitQuoted? l = some (w, v)) :
    l = withQuoted w v ∧ v ≠ [] := by
  unfold splitQuoted? at h
  split at h
  · next rest hcut =>
    split at h
    · next hquote =>
      cases h
      obtain ⟨v, rfl⟩ := List.getLast?_eq_some_iff.1 hquote.1
      refine ⟨?_, hquote.2⟩
      rw [List.dropLast_concat]
      exact (cut_eq_some_iff.1 hcut).2
    · cases h
  · cases h

/-- The section that the printed form of another one shows: it has the name that is printed, and if
none is, the type may show one. -/
def Section.asPrinted (s : Section) : Section :=
  if s.writtenName = "" then
    match splitQuoted? s.type.toList with
    | some (type, name) => { s with type := String.ofList type, name := String.ofList name }
    | none => { s with name := "" }
  else s

/-- The configuration that the printed form of another one shows. -/
def Config.asPrinted (c : Config) : Config :=
  { c with sections := c.sections.map Section.asPrinted }

namespace Section

theorem writtenName_eq_or (s : Section) : s.writtenName = "" ∨ s.writtenName = s.name := by
  unfold writtenName
  split
  · exact .inl rfl
  · exact .inr rfl

theorem asPrinted_settings (s : Section) : s.asPrinted.settings = s.settings := by
  unfold asPrinted
  split
  · split <;> rfl
  · rfl

/-- The settings of a regular section follow from the lines that they are written as. -/
theorem IsRegular.settings_eq {s : Section} (h : s.IsRegular) :
    Assignment.putAll [] s.block.assignments = s.settings := by
  have hsettings := @Assignment.putAll_assignments [] s.settings (by simpa using h.distinct)
    fun o ho => (h.settings o ho).shape
  rwa [List.nil_append] at hsettings

/-- The lines of assignments to plain names, of values without single quotes, show them. -/
theorem assignments_eq_of_body_eq {s t : Section} (ht : t.IsWritable)
    (h : s.block.body = t.block.body) : s.block.assignments = t.block.assignments := by
  have hquotes : ∀ a ∈ t.block.assignments, '\'' ∉ a.name.toList ∧ '\'' ∉ a.value.toList := by
    intro a ha
    obtain ⟨o, ho, value, hvalue, rfl⟩ :=
      (mem_flatMap_assignments fun o ho => (ht.settings o ho).shape).1 ha
    have hwritable := ht.settings o ho
    exact ⟨hwritable.name.notMem (by decide), (hwritable.values value hvalue).1⟩
  have hlines := (List.cons.inj h).2
  -- The induction is on the lines, which the settings no longer matter for.
  generalize s.block.assignments = as, t.block.assignments = bs at hquotes hlines
  induction as generalizing bs with
  | nil =>
    cases bs with
    | nil => rfl
    | cons b bs => cases hlines
  | cons a as ih =>
    cases bs with
    | nil => cases hlines
    | cons b bs =>
      rw [List.map_cons, List.map_cons, List.cons.injEq] at hlines
      have hb := hquotes b (by simp)
      rw [Assignment.line_inj hb.1 hb.2 hlines.1,
        ih bs (fun a ha => hquotes a (by simp [ha])) hlines.2]

theorem openingLine_block (s : Section) : s.block.openingLine = "config".toList ++ ' ' ::
    (if s.writtenName = "" then s.type.toList
      else withQuoted s.type.toList s.writtenName.toList) := rfl

/-- The line of a writable section shows its type and its name. -/
theorem heading_asPrinted_of_body_eq {s t : Section} (ht : t.IsWritable)
    (h : s.block.body = t.block.body) : s.asPrinted.type = t.type ∧ s.asPrinted.name = t.name := by
  have hquote : '\'' ∉ t.type.toList := ht.type.notMem (by decide)
  have hspace : ' ' ∉ t.type.toList := ht.type.notMem (by decide)
  have hopening := (List.cons.inj h).1
  rw [openingLine_block, openingLine_block, ht.writtenName_eq, List.append_cancel_left_eq,
    List.cons.injEq] at hopening
  have hopening := hopening.2
  unfold asPrinted
  -- Each of the two may or may not have a name on its line.
  by_cases hwritten : s.writtenName = "" <;> by_cases hname : t.name = ""
  · rw [if_pos hwritten, if_pos hname] at hopening
    -- A plain type shows no name.
    have hnone : splitQuoted? s.type.toList = none := by
      cases hsplit : splitQuoted? s.type.toList with
      | none => rfl
      | some parts =>
        have hparts := (splitQuoted?_eq_some hsplit).1
        rw [hopening] at hparts
        exact absurd (by simp [hparts, withQuoted]) hspace
    rw [if_pos hwritten, hnone]
    exact ⟨String.toList_inj.1 hopening, hname.symm⟩
  · rw [if_pos hwritten, if_neg hname] at hopening
    rw [if_pos hwritten, hopening, splitQuoted?_withQuoted hspace (by simpa using hname)]
    simp
  · rw [if_neg hwritten, if_pos hname] at hopening
    -- A line with a name has a quote in it, and a plain type has none.
    exact absurd (by simp [← hopening, withQuoted]) hquote
  · rw [if_neg hwritten, if_neg hname] at hopening
    have hquoted := withQuoted_inj hquote ht.name.1 hopening
    rw [s.writtenName_eq_or.resolve_left hwritten] at hquoted
    rw [if_neg hwritten]
    exact ⟨String.toList_inj.1 hquoted.1, String.toList_inj.1 hquoted.2⟩

/-- A writable section is all that its lines can show. -/
theorem asPrinted_eq_of_body_eq {s t : Section} (hs : s.IsRegular) (ht : t.IsWritable)
    (h : s.block.body = t.block.body) : s.asPrinted = t := by
  have hheading := heading_asPrinted_of_body_eq ht h
  have hsettings : s.asPrinted.settings = t.settings := by
    rw [asPrinted_settings, ← hs.settings_eq, ← ht.isRegular.settings_eq,
      assignments_eq_of_body_eq ht h]
  rw [Section.mk.injEq]
  exact ⟨hheading.1, hheading.2, hsettings⟩

/-- A section that is writable as printed is written as what it is printed as. -/
theorem body_asPrinted {s : Section} (h : s.asPrinted.IsWritable) :
    s.asPrinted.block.body = s.block.body := by
  have hopening : s.asPrinted.block.openingLine = s.block.openingLine := by
    rw [openingLine_block, openingLine_block, h.writtenName_eq]
    unfold asPrinted
    by_cases hname : s.writtenName = ""
    · rw [if_pos hname, if_pos hname]
      split
      · next type name hsplit =>
        obtain ⟨htype, hne⟩ := splitQuoted?_eq_some hsplit
        simp [htype, hne]
      · rfl
    · rw [if_neg hname, s.writtenName_eq_or.resolve_left hname]
  rw [Block.body, Block.body, hopening]
  simp only [Section.block, asPrinted_settings]

end Section

/-! ## Reading and writing again -/

namespace Config

theorem isWritable_congr {c d : Config} (h : c.sections = d.sections) (hc : c.IsWritable) :
    d.IsWritable :=
  ⟨h ▸ hc.sections, fresh_congr (by rw [h]) hc.fresh⟩

/-- A configuration that is writable as printed is written as what it is printed as. -/
theorem render_asPrinted {c : Config} (h : c.asPrinted.IsWritable) :
    c.asPrinted.render = c.render := by
  apply render_eq_of_body_eq
  simp only [blocks, asPrinted, List.map_map]
  apply List.map_congr_left
  intro s hs
  exact Section.body_asPrinted (h.sections _ (List.mem_map_of_mem hs))

/-- A regular configuration with the text of a writable one shows it as printed. -/
theorem asPrinted_eq_of_render_eq {c d : Config} (hc : c.IsRegular) (hd : d.IsWritable)
    (h : c.render = d.render) : c.asPrinted.sections = d.sections := by
  have hbody := hc.body_eq_of_render_eq hd.isRegular h
  simp only [blocks, List.map_map] at hbody
  apply List.ext_getElem?
  intro i
  have hget := congrArg (·[i]?) hbody
  simp only [List.getElem?_map] at hget
  simp only [asPrinted, List.getElem?_map]
  cases hs : c.sections[i]? with
  | none =>
    rw [hs] at hget
    cases ht : d.sections[i]? with
    | none => rfl
    | some t =>
      rw [ht] at hget
      cases hget
  | some s =>
    obtain ⟨t, ht, hst⟩ := Option.map_eq_some_iff.1 (hget.symm.trans (by rw [hs]; rfl))
    have hprinted := Section.asPrinted_eq_of_body_eq (hc.sections s (List.mem_of_getElem? hs))
      (hd.sections t (List.mem_of_getElem? ht)) hst.symm
    rw [ht, Option.map_some, hprinted]

/-- What has been read from a text and written is read again, and written as the same text, exactly
if it is writable as printed. -/
theorem reprint_iff {name text : String} {c : Config} (h : parse name text = .ok c) :
    (∃ d, parse name c.render = .ok d ∧ d.render = c.render) ↔ c.asPrinted.IsWritable := by
  constructor
  · rintro ⟨d, hd, hrender⟩
    -- What is read is read from its own text, so it is writable, and its text shows it.
    have hwritable : d.IsWritable := isWritable_of_parse_render (by rw [hrender, hd]) rfl
    have hsections := asPrinted_eq_of_render_eq (parse_isRegular h) hwritable hrender.symm
    exact isWritable_congr hsections.symm hwritable
  · intro hwritable
    have hrender := render_asPrinted hwritable
    refine ⟨_, by rw [← hrender, parse_render hwritable], ?_⟩
    rw [← hrender]
    rfl

/-- A value in double quotes may hold a single quote, and is then written between single quotes as
it is. -/
theorem not_reprint : ¬ ∀ (name text : String) (c : Config), parse name text = .ok c →
    ∃ d, parse name c.render = .ok d ∧ d.render = c.render := by
  intro hall
  have hread : parse "system" "config system\n\toption motd \"it's\"\n" = .ok
      { name := "system", sections := [{ type := "system", settings :=
        [{ name := "motd", kind := .scalar, values := ["it's"] }] }] } := rfl
  have hrender : ({ name := "system", sections := [{ type := "system", settings :=
      [{ name := "motd", kind := .scalar, values := ["it's"] }] }] } : Config).render =
        "\nconfig system\n\toption motd 'it's'\n\n" := by decide
  have hfault : (parse "system" "\nconfig system\n\toption motd 'it's'\n\n").toOption = none := by
    decide
  obtain ⟨d, hd, -⟩ := hall _ _ _ hread
  rw [hrender] at hd
  rw [hd] at hfault
  cases hfault

/-- The text of a section whose type is made to look like a type and a name is settled. -/
theorem reprint_iff_typeWithName :
    parse "system" "config \"host 'main'\"\n" = .ok
        { name := "system", sections := [{ type := "host 'main'" }] } ∧
      ((∃ d, parse "system"
          ({ name := "system", sections := [{ type := "host 'main'" }] } : Config).render = .ok d ∧
          d.render =
            ({ name := "system", sections := [{ type := "host 'main'" }] } : Config).render) ↔
        ({ name := "system", sections := [{ type := "host 'main'" }] } :
          Config).asPrinted.IsWritable) := by
  have hread : parse "system" "config \"host 'main'\"\n" = .ok
      { name := "system", sections := [{ type := "host 'main'" }] } := rfl
  exact ⟨hread, reprint_iff hread⟩

end Config

end UnifiedConfig
