import UnifiedConfig.Proofs.Assignments
import UnifiedConfig.Proofs.Names

/-!
# What statements make of sections

Reading a text is a matter of its statements: every line has to be readable, and then the statements
take effect one after the other (`parse_eq_ok_iff`).

* `openSection_cases`: a `config` line appends a section, or opens one that is there again and
  changes nothing.
* `applyAll_blocks`: a block adds one section at most. If as many sections are added as there are
  blocks, then each of them is made by its block alone.
* `parse_isRegular`: what holds of everything that is read from a text. Names and values stand on
  one line, types and names of settings are not empty, settings have distinct names and values of
  the shape of their kind, and no section has the name of an earlier one.
-/

namespace UnifiedConfig

open Text

/-! ## Statements of a text -/

/-- The statements of lines, where a line without a statement counts for nothing. -/
def Statement.ofLines (ls : List (List Char)) : List Statement :=
  ls.filterMap fun l => (Statement.ofLine l).toOption.join

/-- Whether every line can be read. -/
def Statement.Readable (ls : List (List Char)) : Prop :=
  ∀ l ∈ ls, ∃ s, Statement.ofLine l = .ok s

theorem Statement.ofLines_cons {l : List Char} {s : Option Statement}
    (h : Statement.ofLine l = .ok s) (ls : List (List Char)) :
    Statement.ofLines (l :: ls) = s.toList ++ Statement.ofLines ls := by
  cases s <;> simp [Statement.ofLines, h, Except.toOption]

/-- The statements of a text. -/
def Config.statements (text : String) : List Statement :=
  Statement.ofLines (Text.lines text.toList)

namespace Config

namespace Reader

/-- The effect of statements, one after the other. -/
def applyAll (r : Reader) : List Statement → Except LineError Reader
  | [] => .ok r
  | st :: rest => (r.apply st).bind (applyAll · rest)

theorem applyAll_cons_eq_ok_iff {r r' : Reader} {st : Statement} {rest : List Statement} :
    r.applyAll (st :: rest) = .ok r' ↔
      ∃ mid, r.apply st = .ok mid ∧ mid.applyAll rest = .ok r' := by
  rw [applyAll]
  cases r.apply st <;> simp [Except.bind]

theorem applyAll_append_eq_ok_iff {r r' : Reader} {ss ts : List Statement} :
    r.applyAll (ss ++ ts) = .ok r' ↔
      ∃ mid, r.applyAll ss = .ok mid ∧ mid.applyAll ts = .ok r' := by
  induction ss generalizing r with
  | nil => simp [applyAll]
  | cons st ss ih =>
    simp only [List.cons_append, applyAll_cons_eq_ok_iff, ih]
    constructor
    · rintro ⟨first, hfirst, mid, hmid, hrest⟩
      exact ⟨mid, ⟨first, hfirst, hmid⟩, hrest⟩
    · rintro ⟨mid, ⟨first, hfirst, hmid⟩, hrest⟩
      exact ⟨first, hfirst, mid, hmid, hrest⟩

/-- Lines are read if every one of them can be, and if their statements have an effect. -/
theorem readLines_eq_ok_iff {r r' : Reader} {number : Nat} {ls : List (List Char)} :
    r.readLines number ls = .ok r' ↔
      Statement.Readable ls ∧ r.applyAll (Statement.ofLines ls) = .ok r' := by
  induction ls generalizing r number with
  | nil => simp [readLines, Statement.Readable, Statement.ofLines, applyAll]
  | cons l ls ih =>
    have hreadable : Statement.Readable (l :: ls) ↔
        (∃ s, Statement.ofLine l = .ok s) ∧ Statement.Readable ls := by
      simp [Statement.Readable]
    rw [hreadable, readLines, readLine]
    cases hl : Statement.ofLine l with
    | error fault => simp
    | ok s =>
      rw [Statement.ofLines_cons hl]
      cases s with
      | none => simp [ih]
      | some st =>
        rw [Option.toList_some, List.singleton_append, applyAll_cons_eq_ok_iff]
        cases happly : r.apply st with
        | error fault => simp [happly]
        | ok mid => simp [happly, ih]

end Reader

/-- A text is read if every line can be, and if its statements have an effect. -/
theorem parse_eq_ok_iff {name text : String} {c : Config} :
    parse name text = .ok c ↔ Statement.Readable (Text.lines text.toList) ∧
      ∃ r, Reader.applyAll { config := { name } } (statements text) = .ok r ∧
        r.config.markClean = c := by
  rw [parse, map_eq_ok_iff]
  simp only [Reader.readLines_eq_ok_iff, statements]
  constructor
  · rintro ⟨r, ⟨hreadable, hr⟩, hc⟩
    exact ⟨hreadable, r, hr, hc⟩
  · rintro ⟨hreadable, r, hr, hc⟩
    exact ⟨r, ⟨hreadable, hr⟩, hc⟩

/-! ## Opening a section -/

theorem mergeAt_of_notMem {c : Config} {s : Section} {ordinal : Nat}
    (h : s.nameAt ordinal ∉ c.names) : c.mergeAt s ordinal = (c.push s, c.sections.length) := by
  simp [mergeAt, findIdx?_names_eq_none_iff.2 h]

/-- A section without settings, merged into one that goes by its name, changes nothing. -/
theorem mergeAt_of_mem {c : Config} {s : Section} {ordinal i : Nat} (hs : s.settings = [])
    (h : c.names.findIdx? (· == s.nameAt ordinal) = some i) :
    c.mergeAt s ordinal = (c.taint, i) := by
  have hself : c.changeAt i (·.mergeAll s.settings) = c := by
    rw [hs]
    exact congrArg (fun sections => { c with sections }) (List.modify_id i c.sections)
  simp [mergeAt, h, hself]

theorem nameAt_of_named {type name : String} (h : name ≠ "") (ordinal : Nat) :
    ({ type, name } : Section).nameAt ordinal = name := by
  simp [Section.nameAt, Section.isUnnamed, h]

theorem findNamed?_mem {c : Config} {name : String} {s : Section}
    (h : c.findNamed? name = some s) : s ∈ c.sections ∧ s.name ≠ "" ∧ s.name = name := by
  have hname := List.find?_some h
  simp only [Section.hasName, Section.isUnnamed, Bool.and_eq_true, Bool.not_eq_true',
    beq_eq_false_iff_ne, beq_iff_eq] at hname
  exact ⟨List.mem_of_find?_eq_some h, hname.1, hname.2⟩

/-- A section with the name of one that is there is found. -/
theorem findNamed?_of_mem {c : Config} {s : Section} (hs : s ∈ c.sections) (hne : s.name ≠ "") :
    ∃ t, c.findNamed? s.name = some t := by
  cases hfound : c.findNamed? s.name with
  | some t => exact ⟨t, rfl⟩
  | none =>
    have hno := List.find?_eq_none.1 hfound s hs
    simp [Section.hasName, Section.isUnnamed, hne] at hno

/-- A `config` line without a name, or with one that no section goes by, appends a section. -/
theorem openSection_of_fresh {c : Config} (type : String) {name : String}
    (h : name = "" ∨ name ∉ c.names) :
    c.openSection type name = .ok (c.push { type, name }, c.sections.length) := by
  unfold openSection
  split
  · next hname => rw [hname]
  · next hname =>
    have hfresh := h.resolve_left hname
    -- A section that has the name would go by it.
    have hnone : c.findNamed? name = none := by
      cases hfound : c.findNamed? name with
      | none => rfl
      | some s =>
        have hs := findNamed?_mem hfound
        exact absurd (hs.2.2 ▸ mem_names_of_mem hs.1 hs.2.1) hfresh
    rw [hnone, mergeAt_of_notMem (by rwa [nameAt_of_named hname])]

/-- A `config` line appends a section, or opens the first section that goes by its name. -/
theorem openSection_cases {c d : Config} {type name : String} {i : Nat}
    (h : c.openSection type name = .ok (d, i)) :
    (d = c.push { type, name } ∧ i = c.sections.length ∧ (name = "" ∨ name ∉ c.names)) ∨
    (d = c.taint ∧ name ≠ "" ∧ c.names.findIdx? (· == name) = some i ∧
      ∀ previous, c.findNamed? name = some previous → previous.type = type) := by
  by_cases hfresh : name = "" ∨ name ∉ c.names
  · rw [openSection_of_fresh type hfresh] at h
    cases h
    exact .inl ⟨rfl, rfl, hfresh⟩
  · have hname : name ≠ "" := fun heq => hfresh (.inl heq)
    -- Some section goes by the name, so the section is merged into that one.
    obtain ⟨j, hj⟩ : ∃ j, c.names.findIdx? (· == name) = some j := by
      cases hfound : c.names.findIdx? (· == name) with
      | some j => exact ⟨j, rfl⟩
      | none => exact absurd (.inr (findIdx?_names_eq_none_iff.1 hfound)) hfresh
    have hmerge : c.mergeAt { type, name } 0 = (c.taint, j) :=
      mergeAt_of_mem rfl (by rwa [nameAt_of_named hname])
    unfold openSection at h
    rw [if_neg hname, hmerge] at h
    split at h
    · next previous hprevious =>
      split at h
      · next htype =>
        cases h
        refine .inr ⟨rfl, hname, hj, ?_⟩
        intro other hother
        rw [hprevious] at hother
        cases hother
        exact htype
      · cases h
    · next hnone =>
      cases h
      exact .inr ⟨rfl, hname, hj, fun previous hprevious => by simp [hnone] at hprevious⟩

/-! ## Blocks -/

theorem modify_append_cons {α : Type} (before after : List α) (a : α) (change : α → α) :
    (before ++ a :: after).modify before.length change = before ++ change a :: after := by
  induction before with
  | nil => rfl
  | cons b before ih => rw [List.cons_append, List.length_cons, List.modify_succ_cons, ih]; rfl

/-- The configuration with assignments made in the section at a place. -/
def assignAll (c : Config) (i : Nat) (as : List Assignment) : Config :=
  c.changeAt i fun s => { s with settings := Assignment.putAll s.settings as }

theorem assignAll_nil (c : Config) (i : Nat) : c.assignAll i [] = c :=
  congrArg (fun sections => { c with sections }) (List.modify_id i c.sections)

theorem assignAll_assignAll (c : Config) (i : Nat) (as bs : List Assignment) :
    (c.assignAll i as).assignAll i bs = c.assignAll i (as ++ bs) := by
  simp only [assignAll, changeAt, List.modify_modify_eq, Assignment.putAll_append]
  rfl

/-- Assignments change no heading. -/
theorem headings_assignAll (c : Config) (i : Nat) (as : List Assignment) :
    (c.assignAll i as).sections.map Section.heading = c.sections.map Section.heading :=
  headings_changeAt c i fun _ => rfl

end Config

/-- The section that a block makes by itself. -/
def Block.section (b : Block) : Section :=
  { type := b.type, name := b.name, settings := Assignment.putAll [] b.assignments }

namespace Config

/-- A section at the end takes the assignments of the block that has opened it. -/
theorem assignAll_push (c : Config) (b : Block) :
    (c.push { type := b.type, name := b.name }).assignAll c.sections.length b.assignments =
      c.push b.section := by
  simp only [assignAll, changeAt, push, modify_append_cons, Block.section]

namespace Reader

theorem apply_assignment (c : Config) (i : Nat) (a : Assignment) :
    Reader.apply { config := c, current := some i } a.statement =
      if a.name = "" then .error .emptySettingName
      else .ok { config := c.assignAll i [a], current := some i } := by
  simp only [apply, Assignment.statement, Assignment.assign_eq]
  rfl

/-- Assignments act on the section that is open, and all of them need a name. -/
theorem applyAll_assignments {c : Config} {i : Nat} {r : Reader} {as : List Assignment} :
    Reader.applyAll { config := c, current := some i } (as.map Assignment.statement) = .ok r ↔
      (∀ a ∈ as, a.name ≠ "") ∧ r = { config := c.assignAll i as, current := some i } := by
  induction as generalizing c with
  | nil =>
    rw [assignAll_nil]
    constructor
    · intro h
      cases h
      exact ⟨by simp, rfl⟩
    · rintro ⟨-, rfl⟩
      rfl
  | cons a as ih =>
    rw [List.map_cons, applyAll_cons_eq_ok_iff, apply_assignment]
    by_cases hname : a.name = ""
    · simp [hname]
    · simp [hname, ih, assignAll_assignAll]

/-- A block opens a section, and its assignments act on it. -/
theorem applyAll_block {r r' : Reader} {b : Block} :
    r.applyAll b.statements = .ok r' ↔
      (∀ a ∈ b.assignments, a.name ≠ "") ∧ ∃ d i, r.config.openSection b.type b.name = .ok (d, i) ∧
        r' = { config := d.assignAll i b.assignments, current := some i } := by
  rw [Block.statements, applyAll_cons_eq_ok_iff]
  simp only [apply, map_eq_ok_iff]
  constructor
  · rintro ⟨mid, ⟨⟨d, i⟩, hopen, rfl⟩, hrest⟩
    rw [applyAll_assignments] at hrest
    exact ⟨hrest.1, d, i, hopen, hrest.2⟩
  · rintro ⟨hnames, d, i, hopen, hr'⟩
    exact ⟨_, ⟨(d, i), hopen, rfl⟩, applyAll_assignments.2 ⟨hnames, hr'⟩⟩

/-- A block whose name no section goes by appends the section that it makes. -/
theorem applyAll_block_of_fresh {r : Reader} {b : Block}
    (hname : b.name = "" ∨ b.name ∉ r.config.names) (hnames : ∀ a ∈ b.assignments, a.name ≠ "") :
    r.applyAll b.statements =
      .ok { config := r.config.push b.section, current := some r.config.sections.length } := by
  refine applyAll_block.2 ⟨hnames, _, _, openSection_of_fresh b.type hname, ?_⟩
  rw [assignAll_push]

/-- A block adds one section at most, and if it does, the section is the one that it makes. -/
theorem length_sections_of_block {r r' : Reader} {b : Block}
    (h : r.applyAll b.statements = .ok r') :
    r'.config.sections.length ≤ r.config.sections.length + 1 ∧
      (r'.config.sections.length = r.config.sections.length + 1 →
        r'.config.sections = r.config.sections ++ [b.section]) := by
  obtain ⟨-, d, i, hopen, rfl⟩ := applyAll_block.1 h
  rcases openSection_cases hopen with ⟨rfl, rfl, -⟩ | ⟨rfl, -⟩
  · rw [assignAll_push]
    simp [push]
  · simp [assignAll, changeAt, taint]

/-- Blocks add one section each at most. If they all do, the sections are those that they make. -/
theorem applyAll_blocks {r r' : Reader} {bs : List Block}
    (h : r.applyAll (bs.flatMap Block.statements) = .ok r') :
    r'.config.sections.length ≤ r.config.sections.length + bs.length ∧
      (r'.config.sections.length = r.config.sections.length + bs.length →
        r'.config.sections = r.config.sections ++ bs.map Block.section) := by
  induction bs generalizing r with
  | nil =>
    cases h
    simp
  | cons b bs ih =>
    rw [List.flatMap_cons, applyAll_append_eq_ok_iff] at h
    obtain ⟨mid, hmid, hrest⟩ := h
    have hone := length_sections_of_block hmid
    have ih := ih hrest
    rw [List.length_cons]
    refine ⟨by omega, fun hlength => ?_⟩
    rw [ih.2 (by omega), hone.2 (by omega)]
    simp

/-- Blocks whose names are fresh append the sections that they make. -/
theorem applyAll_blocks_of_fresh {r : Reader} {bs : List Block}
    (hfresh : ({ r.config with sections := r.config.sections ++ bs.map Block.section } :
      Config).Fresh)
    (hnames : ∀ b ∈ bs, ∀ a ∈ b.assignments, a.name ≠ "") :
    ∃ r', r.applyAll (bs.flatMap Block.statements) = .ok r' ∧
      r'.config.name = r.config.name ∧
      r'.config.sections = r.config.sections ++ bs.map Block.section := by
  induction bs generalizing r with
  | nil => exact ⟨r, rfl, rfl, by simp⟩
  | cons b bs ih =>
    -- The section that the block makes comes after those that are there already.
    have hname : b.name = "" ∨ b.name ∉ r.config.names := by
      refine Classical.or_iff_not_imp_left.2 fun hne hmem => ?_
      refine hfresh r.config.sections.length b.section (by simp) hne ?_
      rw [@names_take_congr _ r.config r.config.sections.length (by simp)]
      rwa [List.take_of_length_le (by simp [length_names])]
    have hblock := applyAll_block_of_fresh hname (hnames b (by simp))
    obtain ⟨r', hr', hname', hsections⟩ := ih (r := ⟨r.config.push b.section, _⟩)
      (by simpa [push, Fresh, names, countBefore] using hfresh)
      fun b' hb' => hnames b' (by simp [hb'])
    refine ⟨r', ?_, hname', by simpa [push] using hsections⟩
    rw [List.flatMap_cons, applyAll_append_eq_ok_iff]
    exact ⟨_, hblock, hr'⟩

end Reader

end Config

/-! ## What holds of everything that is read -/

/-- What holds of a setting that has been read: it has a name, name and values stand on one line,
and the values have the shape of its kind. -/
structure Setting.IsRegular (o : Setting) : Prop where
  name_ne : o.name ≠ ""
  lineFeed_name : '\n' ∉ o.name.toList
  lineFeed_values : ∀ value ∈ o.values, '\n' ∉ value.toList
  shape : o.HasShape

/-- What holds of a section that has been read: it has a type, type and name stand on one line, and
its settings have distinct names. -/
structure Section.IsRegular (s : Section) : Prop where
  type_ne : s.type ≠ ""
  lineFeed_type : '\n' ∉ s.type.toList
  lineFeed_name : '\n' ∉ s.name.toList
  distinct : (s.settings.map (·.name)).Nodup
  settings : ∀ o ∈ s.settings, o.IsRegular

/-- What holds of a configuration that has been read: no section has the name of an earlier one. -/
structure Config.IsRegular (c : Config) : Prop where
  sections : ∀ s ∈ c.sections, s.IsRegular
  fresh : c.Fresh

/-- What holds of every statement that is on a line. -/
def Statement.IsOneLine : Statement → Prop
  | .package _ => True
  | .opening type name => type ≠ "" ∧ '\n' ∉ type.toList ∧ '\n' ∉ name.toList
  | .setting _ name value => '\n' ∉ name.toList ∧ '\n' ∉ value.toList

/-- The words of a statement are its arguments. -/
theorem Statement.isOneLine_of_ofKeyword {keyword : String} {args : List String} {st : Statement}
    (h : Statement.ofKeyword keyword args = .ok st) (hargs : ∀ a ∈ args, '\n' ∉ a.toList) :
    st.IsOneLine := by
  unfold Statement.ofKeyword at h
  split at h
  · split at h
    · cases h
      trivial
    · cases h
  · split at h
    · split at h
      · -- A name that is not given is empty.
        obtain ⟨htype, rfl⟩ := Block.ofOpening_eq_ok h
        exact ⟨htype, hargs _ (by simp), by simp⟩
      · obtain ⟨htype, rfl⟩ := Block.ofOpening_eq_ok h
        exact ⟨htype, hargs _ (by simp), hargs _ (by simp)⟩
      · cases h
    · split at h
      · cases h
      · cases h
        exact ⟨hargs _ (by simp), hargs _ (by simp)⟩
      · cases h

theorem Statement.isOneLine_of_ofLine {l : List Char} {st : Statement} (hl : '\n' ∉ l)
    (h : Statement.ofLine l = .ok (some st)) : st.IsOneLine := by
  unfold Statement.ofLine at h
  split at h
  · cases h
  · cases h
  · next keyword args hwords =>
    obtain ⟨st', hst, heq⟩ := map_eq_ok_iff.1 h
    cases heq
    refine isOneLine_of_ofKeyword hst ?_
    intro a ha
    obtain ⟨w, hw, rfl⟩ := List.mem_map.1 ha
    rw [String.toList_ofList]
    exact fun hmem => hl (mem_of_mem_words hwords (List.mem_cons_of_mem _ hw) hmem)

theorem Config.isOneLine_of_mem_statements {text : String} {st : Statement}
    (h : st ∈ Config.statements text) : st.IsOneLine := by
  obtain ⟨l, hl, hst⟩ := List.mem_filterMap.1 h
  refine Statement.isOneLine_of_ofLine (lineFeed_notMem_of_mem_lines hl) ?_
  cases hline : Statement.ofLine l with
  | error fault => simp [hline, Except.toOption] at hst
  | ok s => simpa [hline, Except.toOption] using hst

/-- An assignment keeps settings regular. -/
theorem Assignment.put_isRegular {settings : List Setting} (h : ∀ o ∈ settings, o.IsRegular)
    {a : Assignment} (hname : a.name ≠ "") (ha : a.statement.IsOneLine) :
    ∀ o ∈ put settings a, o.IsRegular := by
  refine forall_changeFirstOr h ?_ ?_
  · exact ⟨hname, ha.1, by simpa [setting] using ha.2, a.setting_hasShape⟩
  · intro o ho _
    refine ⟨by simpa using ho.name_ne, by simpa using ho.lineFeed_name, ?_,
      a.change_hasShape ho.shape⟩
    intro value hvalue
    unfold change at hvalue
    split at hvalue
    · rw [List.mem_singleton.1 hvalue]
      exact ha.2
    · rcases mem_mergeValues.1 hvalue with hvalue | hvalue
      · exact ho.lineFeed_values value hvalue
      · rw [List.mem_singleton.1 hvalue]
        exact ha.2

namespace Config

theorem isRegular_push {c : Config} (h : c.IsRegular) {s : Section} (hs : s.IsRegular)
    (hname : s.name = "" ∨ s.name ∉ c.names) : (c.push s).IsRegular :=
  ⟨forall_push h.sections hs, fresh_push h.fresh hname⟩

theorem isRegular_assign {c : Config} (h : c.IsRegular) (i : Nat) {a : Assignment}
    (hname : a.name ≠ "") (ha : a.statement.IsOneLine) : (c.assignAll i [a]).IsRegular := by
  refine ⟨forall_changeAt h.sections i fun s hs => ?_,
    fresh_congr (headings_assignAll c i [a]).symm h.fresh⟩
  exact { hs with
    distinct := nodup_changeFirstOr hs.distinct rfl (Assignment.change_name a)
    settings := Assignment.put_isRegular hs.settings hname ha }

/-- A statement keeps a configuration regular. -/
theorem Reader.apply_isRegular {r r' : Reader} (hr : r.config.IsRegular) {st : Statement}
    (hst : st.IsOneLine) (h : r.apply st = .ok r') : r'.config.IsRegular := by
  cases st with
  | package name =>
    cases h
    exact hr
  | opening type name =>
    obtain ⟨⟨d, i⟩, hopen, rfl⟩ := map_eq_ok_iff.1 h
    rcases openSection_cases hopen with ⟨rfl, -, hname⟩ | ⟨rfl, -⟩
    · exact isRegular_push hr ⟨hst.1, hst.2.1, hst.2.2, by simp, by simp⟩ hname
    · -- A section that is opened again keeps its heading and its settings.
      exact ⟨hr.sections, hr.fresh⟩
  | setting kind name value =>
    obtain ⟨c, _ | i⟩ := r
    · cases h
    · have happly := apply_assignment c i { kind, name, value }
      rw [Assignment.statement, h] at happly
      split at happly
      · cases happly
      · next hname =>
        cases happly
        exact isRegular_assign hr i hname hst

theorem Reader.applyAll_isRegular {r r' : Reader} (hr : r.config.IsRegular) {ss : List Statement}
    (hss : ∀ st ∈ ss, st.IsOneLine) (h : r.applyAll ss = .ok r') : r'.config.IsRegular := by
  induction ss generalizing r with
  | nil =>
    cases h
    exact hr
  | cons st ss ih =>
    obtain ⟨mid, hmid, hrest⟩ := applyAll_cons_eq_ok_iff.1 h
    exact ih (apply_isRegular hr (hss st (by simp)) hmid) (fun s hs => hss s (by simp [hs])) hrest

/-- Whatever is read from a text is regular. -/
theorem parse_isRegular {name text : String} {c : Config} (h : parse name text = .ok c) :
    c.IsRegular := by
  obtain ⟨-, r, hr, rfl⟩ := parse_eq_ok_iff.1 h
  have hempty : ({ name } : Config).IsRegular := ⟨by simp, fresh_nil rfl⟩
  have hregular := Reader.applyAll_isRegular hempty
    (fun st hst => isOneLine_of_mem_statements hst) hr
  exact ⟨hregular.sections, hregular.fresh⟩

end Config

end UnifiedConfig
