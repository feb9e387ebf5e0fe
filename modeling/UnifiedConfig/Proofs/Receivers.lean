import UnifiedConfig.Proofs.Meaning

/-!
# Which section takes a block

Each block of a text is taken by one section, which is appended for it or opened again. What the
later blocks do changes neither the heading of that section nor the name that it goes by. So the
section is still one of the type and the name of the block when the text is read to its end, where
a block may name an unnamed section by its synthetic name.

* `readBlocks`: reading block by block, with the places of the sections that take them.
* `takes_of_readBlocks`: which section takes a block.
* `settingsAt_of_readBlocks`: a section is made of the blocks that it takes.
* `takes_of_parse`: both for a text, and which text is in error.
-/

namespace UnifiedConfig

namespace Config

/-! ## Reading block by block -/

/-- Reads blocks one after the other, and gives for each of them the place of the section that takes
its assignments. -/
def readBlocks (c : Config) : List Block → Except LineError (Config × List Nat)
  | [] => .ok (c, [])
  | b :: bs =>
    match c.openSection b.type b.name with
    | .error fault => .error fault
    | .ok (d, i) =>
      (readBlocks (d.assignAll i b.assignments) bs).map fun (e, places) => (e, i :: places)

theorem readBlocks_cons_eq_ok_iff {c e : Config} {b : Block} {bs : List Block}
    {places : List Nat} : c.readBlocks (b :: bs) = .ok (e, places) ↔
      ∃ d i rest, c.openSection b.type b.name = .ok (d, i) ∧
        (d.assignAll i b.assignments).readBlocks bs = .ok (e, rest) ∧ places = i :: rest := by
  rw [readBlocks]
  cases hopen : c.openSection b.type b.name with
  | error fault => simp
  | ok p =>
    rcases p with ⟨d, i⟩
    simp only [map_eq_ok_iff, Except.ok.injEq, Prod.mk.injEq]
    constructor
    · rintro ⟨⟨e', rest⟩, hrest, rfl, rfl⟩
      exact ⟨d, i, rest, ⟨rfl, rfl⟩, hrest, rfl⟩
    · rintro ⟨_, _, rest, ⟨rfl, rfl⟩, hrest, rfl⟩
      exact ⟨(e, rest), hrest, rfl, rfl⟩

/-- The blocks before a block are read by themselves. -/
theorem readBlocks_append {c e : Config} {before after : List Block} {places : List Nat}
    (h : c.readBlocks (before ++ after) = .ok (e, places)) :
    ∃ d first rest, c.readBlocks before = .ok (d, first) ∧ d.readBlocks after = .ok (e, rest) := by
  induction before generalizing c places with
  | nil => exact ⟨c, [], places, rfl, h⟩
  | cons b before ih =>
    rcases readBlocks_cons_eq_ok_iff.1 h with ⟨d, i, rest, hopen, hrest, -⟩
    rcases ih hrest with ⟨d', first, rest', hfirst, hafter⟩
    exact ⟨d', i :: first, rest', readBlocks_cons_eq_ok_iff.2 ⟨d, i, first, hopen, hfirst, rfl⟩,
      hafter⟩

/-- Blocks are read as their statements are, and the section that takes the last one is open. -/
theorem readBlocks_of_applyAll {r r' : Reader} {bs : List Block}
    (h : r.applyAll (bs.flatMap Block.statements) = .ok r') :
    ∃ places, r.config.readBlocks bs = .ok (r'.config, places) ∧
      r'.current = places.getLast?.or r.current := by
  induction bs generalizing r with
  | nil =>
    cases h
    exact ⟨[], rfl, rfl⟩
  | cons b bs ih =>
    rw [List.flatMap_cons, Reader.applyAll_append_eq_ok_iff] at h
    rcases h with ⟨mid, hmid, hrest⟩
    rcases Reader.applyAll_block.1 hmid with ⟨-, d, i, hopen, rfl⟩
    rcases ih hrest with ⟨places, hplaces, hcurrent⟩
    refine ⟨i :: places, readBlocks_cons_eq_ok_iff.2 ⟨d, i, places, hopen, hplaces, rfl⟩, ?_⟩
    rw [hcurrent]
    cases hlast : places.getLast? <;> simp [List.getLast?_cons, hlast]

/-! ## What later blocks keep -/

/-- Whether a configuration has the headings of another one, and perhaps more after them. -/
def Grows (c d : Config) : Prop :=
  c.sections.map Section.heading <+: d.sections.map Section.heading

theorem Grows.trans {c d e : Config} (h : c.Grows d) (h' : d.Grows e) : c.Grows e :=
  List.IsPrefix.trans h h'

theorem Grows.names {c d : Config} (h : c.Grows d) : c.names <+: d.names := by
  have heq := List.prefix_iff_eq_take.1 h
  rw [List.length_map, ← List.map_take] at heq
  have htake := @names_take_congr c d c.sections.length (by
    rw [List.take_of_length_le (Nat.le_refl _), heq])
  rw [List.take_of_length_le (by simp [length_names])] at htake
  rw [List.prefix_iff_eq_take, length_names]
  exact htake

/-- A section keeps its heading. -/
theorem Grows.heading {c d : Config} (h : c.Grows d) {i : Nat} {s : Section}
    (hs : c.sections[i]? = some s) :
    ∃ t, d.sections[i]? = some t ∧ t.type = s.type ∧ t.name = s.name := by
  rcases List.getElem?_eq_some_iff.1 hs with ⟨hi, rfl⟩
  have hget := List.prefix_iff_getElem?.1 h i (by simpa using hi)
  rw [List.getElem?_map, List.getElem_map] at hget
  rcases Option.map_eq_some_iff.1 hget with ⟨t, ht, hheading⟩
  exact ⟨t, ht, congrArg Prod.fst hheading, congrArg Prod.snd hheading⟩

theorem grows_assignAll (c : Config) (i : Nat) (as : List Assignment) :
    c.Grows (c.assignAll i as) :=
  ⟨[], by rw [List.append_nil, headings_assignAll]⟩

theorem grows_of_openSection {c d : Config} {type name : String} {i : Nat}
    (h : c.openSection type name = .ok (d, i)) : c.Grows d := by
  rcases openSection_cases h with ⟨rfl, -⟩ | ⟨rfl, -⟩
  · exact ⟨[(type, name)], by simp [push, Section.heading]⟩
  · exact ⟨[], by simp [taint]⟩

theorem grows_of_readBlocks {c d : Config} {bs : List Block} {places : List Nat}
    (h : c.readBlocks bs = .ok (d, places)) : c.Grows d := by
  induction bs generalizing c places with
  | nil =>
    cases h
    exact List.prefix_rfl
  | cons b bs ih =>
    rcases readBlocks_cons_eq_ok_iff.1 h with ⟨e, i, rest, hopen, hrest, -⟩
    have hopened := (grows_of_openSection hopen).trans (grows_assignAll e i b.assignments)
    exact hopened.trans (ih hrest)

/-! ## The section that takes a block -/

/-- Whether the section at a place is one that takes a block: for a block without a name, an unnamed
one of its type, and for a block with a name the first one that goes by it, which is of the type of
the block if it has a name of its own. -/
def Takes (c : Config) (i : Nat) (b : Block) : Prop :=
  ∃ s, c.sections[i]? = some s ∧ (b.name = "" → s.type = b.type ∧ s.name = "") ∧
    (b.name ≠ "" → c.names.findIdx? (· == b.name) = some i ∧ (s.name ≠ "" → s.type = b.type))

theorem Takes.grows {c d : Config} {i : Nat} {b : Block} (h : c.Takes i b) (hgrows : c.Grows d) :
    d.Takes i b := by
  rcases h with ⟨s, hs, hunnamed, hnamed⟩
  rcases hgrows.heading hs with ⟨t, ht, htype, hname⟩
  refine ⟨t, ht, ?_, ?_⟩
  · rw [htype, hname]
    exact hunnamed
  · intro hne
    rw [htype, hname]
    exact ⟨hgrows.names.findIdx?_eq_some (hnamed hne).1, (hnamed hne).2⟩

/-- The first section that goes by a name is the first one that has it, if it has a name at all. -/
theorem findNamed?_of_findIdx?_names {c : Config} {name : String} {i : Nat} {s : Section}
    (hi : c.names.findIdx? (· == name) = some i) (hs : c.sections[i]? = some s)
    (hne : s.name ≠ "") : s.name = name ∧ c.findNamed? name = some s := by
  rcases List.findIdx?_eq_some_iff_getElem.1 hi with ⟨hlt, hhere, hbefore⟩
  have hname : s.name = name := by
    have hget := c.names_getElem? i
    rw [hs, List.getElem?_eq_getElem hlt, Option.map_some, Option.some.injEq] at hget
    rw [hget, beq_iff_eq] at hhere
    simpa [Section.nameAt, Section.isUnnamed, hne] using hhere
  refine ⟨hname, List.find?_eq_some_iff_getElem.2 ⟨?_, i, ?_⟩⟩
  · simp [Section.hasName, Section.isUnnamed, hname, hname ▸ hne]
  · rcases List.getElem?_eq_some_iff.1 hs with ⟨hlen, heq⟩
    refine ⟨hlen, heq, fun j hj => ?_⟩
    -- A section before it that has the name would go by it.
    have hnot := hbefore j hj
    have hget := c.names_getElem? j
    have hjlen : j < c.sections.length := by omega
    have hjname : j < c.names.length := by omega
    rw [List.getElem?_eq_getElem hjlen, List.getElem?_eq_getElem hjname, Option.map_some,
      Option.some.injEq] at hget
    rw [hget] at hnot
    simp only [Bool.not_eq_true', Section.hasName, Bool.and_eq_false_iff, Bool.not_eq_false']
    by_cases hunnamed : c.sections[j].isUnnamed = true
    · exact .inl hunnamed
    · right
      simpa [Section.nameAt, hunnamed] using hnot

/-- A block is taken by the section that its `config` line opens. -/
theorem takes_of_openSection {c d : Config} {b : Block} {i : Nat}
    (h : c.openSection b.type b.name = .ok (d, i)) : d.Takes i b := by
  rcases openSection_cases h with ⟨rfl, rfl, hfresh⟩ | ⟨rfl, hne, hi, htype⟩
  · refine ⟨{ type := b.type, name := b.name }, by simp [push], fun hname => ⟨rfl, hname⟩, ?_⟩
    intro hne
    refine ⟨?_, fun _ => rfl⟩
    have hnone := findIdx?_names_eq_none_iff.2 (hfresh.resolve_left hne)
    simp [names_push, List.findIdx?_append, hnone, nameAt_of_named hne, length_names]
  · rcases exists_of_findIdx?_names hi with ⟨s, hs, -⟩
    refine ⟨s, hs, fun hname => absurd hname hne, fun _ => ⟨hi, fun hnamed => ?_⟩⟩
    exact htype _ (findNamed?_of_findIdx?_names hi hs hnamed).2

theorem takes_of_readBlocks {c e : Config} {bs : List Block} {places : List Nat}
    (h : c.readBlocks bs = .ok (e, places)) :
    places.length = bs.length ∧ ∀ b i, (b, i) ∈ bs.zip places → e.Takes i b := by
  induction bs generalizing c places with
  | nil =>
    cases h
    exact ⟨rfl, by simp⟩
  | cons b bs ih =>
    rcases readBlocks_cons_eq_ok_iff.1 h with ⟨d, i, rest, hopen, hrest, rfl⟩
    rcases ih hrest with ⟨hlength, htakes⟩
    refine ⟨by simp [hlength], fun b' i' hmem => ?_⟩
    rcases List.mem_cons.1 hmem with heq | hmem
    · cases heq
      have hgrows := (grows_assignAll d i b.assignments).trans (grows_of_readBlocks hrest)
      exact (takes_of_openSection hopen).grows hgrows
    · exact htakes b' i' hmem

/-- Whether the first section that goes by the name of a block is an unnamed one of another type. -/
def IsNamesake (c : Config) (b : Block) : Prop :=
  ∃ i s, c.names.findIdx? (· == b.name) = some i ∧ c.sections[i]? = some s ∧ s.name = "" ∧
    s.type ≠ b.type

/-- A section that takes a block has the type of the block, and its name or none. -/
theorem Takes.heading {c : Config} {i : Nat} {b : Block} (h : c.Takes i b)
    (hnot : ¬ c.IsNamesake b) :
    ∃ s, c.sections[i]? = some s ∧ s.type = b.type ∧
      (s.name = b.name ∨ (s.name = "" ∧ c.names[i]? = some b.name)) := by
  rcases h with ⟨s, hs, hunnamed, hnamed⟩
  refine ⟨s, hs, ?_⟩
  by_cases hne : b.name = ""
  · exact ⟨(hunnamed hne).1, .inl (by rw [(hunnamed hne).2, hne])⟩
  · rcases hnamed hne with ⟨hi, htype⟩
    by_cases hown : s.name = ""
    · -- The section goes by its synthetic name.
      have hsame : s.type = b.type := by
        apply Classical.byContradiction
        intro hother
        exact hnot ⟨i, s, hi, hs, hown, hother⟩
      rcases exists_of_findIdx?_names hi with ⟨t, ht, hname⟩
      have hgoes : c.names[i]? = some b.name := by
        rw [names_getElem?, ht, Option.map_some, hname]
      exact ⟨hsame, .inr ⟨hown, hgoes⟩⟩
    · exact ⟨htype hown, .inl (findNamed?_of_findIdx?_names hi hs hown).1⟩

/-- No section is opened for a block if one has its name, but another type. -/
theorem openSection_ne_ok {c d : Config} {b : Block} {previous : Section}
    (hprevious : c.findNamed? b.name = some previous) (hother : previous.type ≠ b.type)
    {i : Nat} : c.openSection b.type b.name ≠ .ok (d, i) := by
  intro hopen
  rcases findNamed?_mem hprevious with ⟨hthere, hnamed, hname⟩
  rcases openSection_cases hopen with ⟨-, -, hfresh⟩ | ⟨-, -, -, htype⟩
  · have hmem := mem_names_of_mem hthere hnamed
    exact absurd (hname ▸ hmem) (hfresh.resolve_left (hname ▸ hnamed))
  · exact absurd (htype previous hprevious) hother

/-! ## What the section takes -/

/-- The assignments of the blocks that are taken at a place. -/
def takenAt (i : Nat) (taken : List (Block × Nat)) : List Assignment :=
  (taken.filter (·.2 == i)).flatMap (·.1.assignments)

/-- The settings of the section at a place, or none where there is no section. -/
def settingsAt (c : Config) (i : Nat) : List Setting :=
  (c.sections[i]?.map (·.settings)).getD []

theorem settingsAt_push (c : Config) (i : Nat) {s : Section} (hs : s.settings = []) :
    (c.push s).settingsAt i = c.settingsAt i := by
  simp only [settingsAt, push, List.getElem?_append]
  split
  · rfl
  · next hi =>
    rw [List.getElem?_eq_none (Nat.not_lt.1 hi), List.getElem?_singleton]
    split <;> simp [hs]

theorem settingsAt_assignAll {c : Config} {j : Nat} (hj : j < c.sections.length) (i : Nat)
    (as : List Assignment) : (c.assignAll j as).settingsAt i =
      if j = i then Assignment.putAll (c.settingsAt i) as else c.settingsAt i := by
  simp only [settingsAt, assignAll, changeAt, List.getElem?_modify]
  split
  · next heq =>
    subst heq
    simp [List.getElem?_eq_getElem hj]
  · simp

/-- A `config` line gives no settings to the section that it opens. -/
theorem settingsAt_of_openSection {c d : Config} {type name : String} {j : Nat}
    (h : c.openSection type name = .ok (d, j)) (i : Nat) :
    d.settingsAt i = c.settingsAt i ∧ j < d.sections.length := by
  rcases openSection_cases h with ⟨rfl, rfl, -⟩ | ⟨rfl, -, hj, -⟩
  · exact ⟨settingsAt_push c i rfl, by simp [push]⟩
  · rcases exists_of_findIdx?_names hj with ⟨s, hs, -⟩
    exact ⟨rfl, (List.getElem?_eq_some_iff.1 hs).1⟩

/-- A section has the settings that it had, with the assignments made that it takes. -/
theorem settingsAt_of_readBlocks {c e : Config} {bs : List Block} {places : List Nat}
    (h : c.readBlocks bs = .ok (e, places)) (i : Nat) :
    e.settingsAt i = Assignment.putAll (c.settingsAt i) (takenAt i (bs.zip places)) := by
  induction bs generalizing c places with
  | nil =>
    cases h
    rfl
  | cons b bs ih =>
    rcases readBlocks_cons_eq_ok_iff.1 h with ⟨d, j, rest, hopen, hrest, rfl⟩
    rcases settingsAt_of_openSection hopen i with ⟨hopened, hj⟩
    rw [ih hrest, settingsAt_assignAll hj, hopened, takenAt, takenAt, List.zip_cons_cons,
      List.filter_cons]
    by_cases heq : j = i
    · simp [heq, Assignment.putAll_append]
    · simp [heq]

/-! ## Texts -/

/-- The blocks of a text are read one after the other, and the last one is left open. -/
theorem readBlocks_of_statements {name text : String} {r : Reader}
    (h : Reader.applyAll { config := { name } } (statements text) = .ok r) :
    ∃ places, readBlocks { name } (Block.ofText text) = .ok (r.config, places) ∧
      r.current = places.getLast? := by
  rw [Reader.applyAll_split, Reader.applyAll_append_eq_ok_iff] at h
  rcases h with ⟨mid, hmid, hrest⟩
  -- An assignment before the first section is in error.
  have hmid : mid = { config := { name } } := by
    cases has : (Block.split (statements text)).1 with
    | nil =>
      rw [has] at hmid
      cases hmid
      rfl
    | cons a as =>
      rw [has] at hmid
      cases hmid
  subst hmid
  rcases readBlocks_of_applyAll hrest with ⟨places, hplaces, hcurrent⟩
  exact ⟨places, hplaces, by simpa using hcurrent⟩

theorem readBlocks_of_parse {name text : String} {c : Config} (h : parse name text = .ok c) :
    ∃ d places, readBlocks { name } (Block.ofText text) = .ok (d, places) ∧ d.markClean = c := by
  rcases parse_eq_ok_iff.1 h with ⟨-, r, hr, rfl⟩
  rcases readBlocks_of_statements hr with ⟨places, hplaces, -⟩
  exact ⟨r.config, places, hplaces, rfl⟩

namespace Reader

theorem name_of_readLine {r r' : Reader} {line : List Char} (h : r.readLine line = .ok r') :
    r'.config.name = r.config.name := by
  unfold readLine at h
  split at h
  · cases h
  · cases h
    rfl
  · next st _ =>
    cases st with
    | package name =>
      cases h
      rfl
    | opening type name =>
      rcases map_eq_ok_iff.1 h with ⟨⟨d, i⟩, hopen, rfl⟩
      rcases openSection_cases hopen with ⟨rfl, -⟩ | ⟨rfl, -⟩ <;> rfl
    | setting kind name value =>
      simp only [apply] at h
      split at h
      · cases h
      · split at h
        · cases h
        · cases h
          rfl

theorem readLines_eq_error {r : Reader} {number : Nat} {lines : List (List Char)} {e : Error}
    (h : r.readLines number lines = .error e) :
    ∃ number fault, e = .line r.config.name number fault := by
  induction lines generalizing r number with
  | nil => cases h
  | cons line rest ih =>
    unfold readLines at h
    split at h
    · cases h
      exact ⟨_, _, rfl⟩
    · next r' hline =>
      rw [← name_of_readLine hline]
      exact ih h

end Reader

/-- Whatever is wrong with a text is wrong with one of its lines. -/
theorem parse_eq_error {name text : String} {e : Error} (h : parse name text = .error e) :
    ∃ number fault, e = .line name number fault := by
  unfold parse at h
  cases hread : Reader.readLines { config := { name } } 1 (Text.lines text.toList) with
  | ok r =>
    rw [hread] at h
    cases h
  | error e' =>
    rw [hread] at h
    cases h
    exact Reader.readLines_eq_error hread

/-- Each block of a text that is read is taken by a section of its type. The section has the name
of the block, or else is an unnamed one that goes by it; but nothing is said of a block whose name
is the synthetic name of a section of another type. A section is made of the blocks that it takes.

A text is in error if it names a section that has the name, but another type. -/
theorem takes_of_parse {name text : String} :
    (∀ c, parse name text = .ok c → ∃ d places,
      readBlocks { name } (Block.ofText text) = .ok (d, places) ∧ d.markClean = c ∧
        places.length = (Block.ofText text).length ∧
        (∀ i s, c.sections[i]? = some s →
          s.settings = Assignment.settingsOf (takenAt i ((Block.ofText text).zip places))) ∧
        ∀ b i, (b, i) ∈ (Block.ofText text).zip places → ¬ c.IsNamesake b →
          ∃ s, c.sections[i]? = some s ∧ s.type = b.type ∧
            (s.name = b.name ∨ (s.name = "" ∧ c.names[i]? = some b.name))) ∧
      ∀ before b after d places previous, Block.ofText text = before ++ b :: after →
        readBlocks { name } before = .ok (d, places) → d.findNamed? b.name = some previous →
          previous.type ≠ b.type →
            ∃ number fault, parse name text = .error (.line name number fault) := by
  constructor
  · intro c h
    rcases readBlocks_of_parse h with ⟨d, places, hread, rfl⟩
    rcases takes_of_readBlocks hread with ⟨hlength, htakes⟩
    refine ⟨d, places, hread, rfl, hlength, ?_, ?_⟩
    · intro i s hs
      have hsettings := settingsAt_of_readBlocks hread i
      rw [settingsAt, show d.sections[i]? = some s from hs] at hsettings
      rw [← Assignment.putAll_nil_eq]
      exact hsettings
    · intro b i hmem hnot
      exact (htakes b i hmem).heading hnot
  · intro before b after d places previous htext hread hprevious hother
    cases hparse : parse name text with
    | error e =>
      rcases parse_eq_error hparse with ⟨number, fault, rfl⟩
      exact ⟨number, fault, rfl⟩
    | ok c =>
      -- The section is there when the line of the block is read.
      rcases readBlocks_of_parse hparse with ⟨e, all, hall, -⟩
      rw [htext] at hall
      rcases readBlocks_append hall with ⟨d', first, rest, hbefore, hafter⟩
      rw [hread] at hbefore
      cases hbefore
      rcases readBlocks_cons_eq_ok_iff.1 hafter with ⟨_, i, _, hopen, -, -⟩
      exact absurd hopen (openSection_ne_ok hprevious hother)

/-- A block is taken by the unnamed section before it, and a name cannot come with two types. -/
theorem takes_of_parse_rule :
    (∃ s, ({ name := "cfg", sections := [{ type := "rule" }] } : Config).sections[0]? = some s ∧
      s.type = "rule" ∧ (s.name = "@rule[0]" ∨ (s.name = "" ∧
        ({ name := "cfg", sections := [{ type := "rule" }] } : Config).names[0]? =
          some "@rule[0]"))) ∧
    ∃ number fault, parse "cfg" "config zone lan\nconfig rule lan\n" =
      .error (.line "cfg" number fault) := by
  constructor
  · have hparse : parse "cfg" "config rule\nconfig rule '@rule[0]'\n" =
        .ok { name := "cfg", sections := [{ type := "rule" }] } := rfl
    rcases takes_of_parse.1 _ hparse with ⟨d, places, hread, -, -, -, htakes⟩
    have hplaces : places = [0, 0] := by
      have hall : (readBlocks { name := "cfg" }
          (Block.ofText "config rule\nconfig rule '@rule[0]'\n")).toOption.map (·.2) =
            some [0, 0] := rfl
      rw [hread] at hall
      exact Option.some.inj hall
    subst hplaces
    refine htakes ⟨"rule", "@rule[0]", []⟩ 0 (List.mem_cons_of_mem _ List.mem_cons_self) ?_
    rintro ⟨i, s, -, hs, -, hother⟩
    have hmem := List.mem_of_getElem? hs
    simp only [List.mem_singleton] at hmem
    exact hother (hmem ▸ rfl)
  · exact takes_of_parse.2 [⟨"zone", "lan", []⟩] ⟨"rule", "lan", []⟩ [] _ _ _ rfl rfl rfl
      (by decide)

/-- A block may name the unnamed section that was opened before it, which then takes it. -/
theorem not_takes_of_parse : ¬ ∀ (name text : String) (c d : Config) (places : List Nat),
    parse name text = .ok c → readBlocks { name } (Block.ofText text) = .ok (d, places) →
      ∀ b i, (b, i) ∈ (Block.ofText text).zip places →
        ∃ s, c.sections[i]? = some s ∧ s.type = b.type ∧ s.name = b.name := by
  intro hall
  let text := "config rule\nconfig rule '@rule[0]'\n\toption a b\n"
  let setting : Setting := { name := "a", kind := .scalar, values := ["b"] }
  let c : Config := { name := "cfg", sections := [{ type := "rule", settings := [setting] }] }
  have hparse : parse "cfg" text = .ok c := by decide +kernel
  have hread : readBlocks { name := "cfg" } (Block.ofText text) =
      .ok ({ c with tainted := true }, [0, 0]) := by decide +kernel
  have hblocks : Block.ofText text =
      [⟨"rule", "", []⟩, ⟨"rule", "@rule[0]", [⟨.scalar, "a", "b"⟩]⟩] := by decide +kernel
  have hblock : (⟨"rule", "@rule[0]", [⟨.scalar, "a", "b"⟩]⟩, 0) ∈
      (Block.ofText text).zip [0, 0] := by
    rw [hblocks]
    exact List.mem_cons_of_mem _ List.mem_cons_self
  obtain ⟨s, hs, -, hname⟩ := hall "cfg" text c _ [0, 0] hparse hread _ 0 hblock
  rw [← Option.some.inj hs] at hname
  exact absurd hname (by decide)

end Config

end UnifiedConfig
