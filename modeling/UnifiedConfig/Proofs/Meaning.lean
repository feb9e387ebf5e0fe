import Mathlib.Data.List.DropRight
import UnifiedConfig.Proofs.Reading

/-!
# What a text means

What a text says can be told without reading it line by line, if no name in it begins with `@` as
the synthetic names do. A text is a list of blocks. A block without a name is a section of its own,
and the blocks of a name are one section together, which stands where the first of them does. A
setting of a section has the value of its last `option` line and those of the `list` lines after it.

* `putAll_nil_eq`: what the assignments of a section make of no settings.
* `sections_of_parse`: what a text means is what is read from it.
-/

namespace UnifiedConfig

/-! ## What assignments mean -/

theorem eraseDups_concat (values : List String) (value : String) :
    (values ++ [value]).eraseDups =
      if value ∈ values then values.eraseDups else values.eraseDups ++ [value] := by
  rw [List.eraseDups_append]
  split
  · next hmem => simp [List.cons_removeAll, hmem]
  · next hmem => simp [List.cons_removeAll, hmem, List.eraseDups_cons]

namespace Assignment

/-- The assignments to a name. -/
def ofName (as : List Assignment) (name : String) : List Assignment :=
  as.filter (·.name == name)

/-- The value of the last `option` line of a name. -/
def lastOption? (as : List Assignment) (name : String) : Option String :=
  ((ofName as name).filter (·.kind == .scalar)).getLast?.map (·.value)

/-- The values of the `list` lines of a name after its last `option` line, or all of them if there
is no `option` line. -/
def listed (as : List Assignment) (name : String) : List String :=
  ((ofName as name).rtakeWhile (·.kind == .list)).map (·.value)

/-- The setting that the assignments to a name mean. -/
def settingOf (as : List Assignment) (name : String) : Setting where
  name := name
  kind := if listed as name = [] then .scalar else .list
  values := ((lastOption? as name).toList ++ listed as name).eraseDups

/-- The settings that assignments mean, in the order in which their names first come. -/
def settingsOf (as : List Assignment) : List Setting :=
  (as.map (·.name)).eraseDups.map (settingOf as)

theorem settingOf_concat_of_ne {as : List Assignment} {a : Assignment} {name : String}
    (h : a.name ≠ name) : settingOf (as ++ [a]) name = settingOf as name := by
  have hof : ofName (as ++ [a]) name = ofName as name := by simp [ofName, h]
  rw [settingOf, settingOf, listed, listed, lastOption?, lastOption?, hof]

theorem settingOf_concat_of_notMem {as : List Assignment} {a : Assignment}
    (h : a.name ∉ as.map (·.name)) : settingOf (as ++ [a]) a.name = a.setting := by
  have hof : ofName (as ++ [a]) a.name = [a] := by
    have hnone : ofName as a.name = [] := by
      rw [ofName, List.filter_eq_nil_iff]
      intro b hb
      simpa using fun heq => h (List.mem_map.2 ⟨b, hb, heq⟩)
    rw [ofName, List.filter_append, ← ofName, hnone]
    simp
  obtain ⟨kind, name, value⟩ := a
  simp only [settingOf, listed, lastOption?, hof, setting]
  cases kind <;> simp [List.rtakeWhile, List.eraseDups_cons]

/-- One more assignment to a name changes its setting as a line does. -/
theorem settingOf_concat (as : List Assignment) (a : Assignment) :
    settingOf (as ++ [a]) a.name = a.change (settingOf as a.name) := by
  have hof : ofName (as ++ [a]) a.name = ofName as a.name ++ [a] := by simp [ofName]
  unfold change
  cases hkind : a.kind with
  | scalar =>
    have hlisted : listed (as ++ [a]) a.name = [] := by
      rw [listed, hof, List.rtakeWhile_concat, if_neg (by simp [hkind])]
      rfl
    have hlast : lastOption? (as ++ [a]) a.name = some a.value := by
      simp [lastOption?, hof, hkind]
    simp [settingOf, hlisted, hlast, List.eraseDups_cons]
  | list =>
    have hlisted : listed (as ++ [a]) a.name = listed as a.name ++ [a.value] := by
      rw [listed, hof, List.rtakeWhile_concat, if_pos (by simp [hkind]), List.map_append, ← listed]
      rfl
    have hlast : lastOption? (as ++ [a]) a.name = lastOption? as a.name := by
      simp [lastOption?, hof, hkind]
    simp only [settingOf, hlisted, hlast, Setting.merge, mergeValues_singleton, List.mem_eraseDups]
    rw [← List.append_assoc, eraseDups_concat]
    simp

/-- Among distinct names, an assignment changes the one setting of its name. -/
theorem put_of_mem {settings : List Setting} {a : Assignment}
    (hnodup : (settings.map (·.name)).Nodup) (hmem : a.name ∈ settings.map (·.name)) :
    put settings a = settings.map fun o => if o.name = a.name then a.change o else o := by
  unfold put
  rcases changeFirstOr_cases a.name a.change a.setting settings with ⟨hnot, -⟩ |
    ⟨before, o, after, rfl, ho, hbefore, heq⟩
  · exact absurd hmem hnot
  · rw [heq, List.map_append, List.map_cons, if_pos ho]
    rw [List.map_append, List.map_cons, ho, List.nodup_append, List.nodup_cons] at hnodup
    have hkeep : ∀ settings : List Setting, a.name ∉ settings.map (·.name) →
        settings.map (fun o => if o.name = a.name then a.change o else o) = settings := by
      intro settings hnot
      rw [List.map_congr_left (g := id), List.map_id]
      intro p hp
      exact if_neg fun hname => hnot (List.mem_map.2 ⟨p, hp, hname⟩)
    rw [hkeep before hbefore, hkeep after hnodup.2.1.1]

/-- What assignments make of no settings is what they mean. -/
theorem putAll_nil_eq (as : List Assignment) : putAll [] as = settingsOf as := by
  induction as using List.reverseRecOn with
  | nil => rfl
  | append_singleton as a ih =>
    have hnames : (settingsOf as).map (·.name) = (as.map (·.name)).eraseDups := by
      simp [settingsOf, Function.comp_def, settingOf]
    have hmem : a.name ∈ (settingsOf as).map (·.name) ↔ a.name ∈ as.map (·.name) := by
      rw [hnames, List.mem_eraseDups]
    -- The last line either adds a setting or changes the one of its name.
    rw [putAll_append, ih, putAll_cons, putAll_nil]
    unfold settingsOf
    rw [List.map_append, List.map_singleton, eraseDups_concat]
    by_cases ha : a.name ∈ as.map (·.name)
    · have hnodup : ((settingsOf as).map (·.name)).Nodup := by
        rw [← ih]
        exact nodup_putAll (by simp) as
      rw [if_pos ha, ← settingsOf, put_of_mem hnodup (hmem.2 ha), settingsOf, List.map_map]
      apply List.map_congr_left
      intro name _
      have hself : (settingOf as name).name = name := rfl
      rw [Function.comp, hself]
      by_cases hname : name = a.name
      · rw [if_pos hname, hname, settingOf_concat]
      · rw [if_neg hname, settingOf_concat_of_ne (Ne.symm hname)]
    · rw [if_neg ha, ← settingsOf, put_of_notMem (fun h => ha (hmem.1 h)), List.map_append,
        List.map_singleton, settingOf_concat_of_notMem ha, settingsOf]
      congr 1
      apply List.map_congr_left
      intro name hname
      refine (settingOf_concat_of_ne fun heq => ha ?_).symm
      rw [heq]
      exact List.mem_eraseDups.1 hname

end Assignment

/-! ## What blocks mean -/

namespace Block

/-- The blocks that open a section of their own, after blocks of these names: those without a name,
and the first ones of their names. -/
def openersAfter (names : List String) : List Block → List Block
  | [] => []
  | b :: bs =>
    if b.name ≠ "" ∧ b.name ∈ names then openersAfter names bs
    else b :: openersAfter (b.name :: names) bs

/-- The assignments of the section that a block opens: its own if it has no name, and else those of
all blocks of its name. -/
def gathered (bs : List Block) (b : Block) : List Assignment :=
  if b.name = "" then b.assignments
  else (bs.filter (·.name == b.name)).flatMap (·.assignments)

/-- The section that a block opens. -/
def opened (bs : List Block) (b : Block) : Section :=
  { type := b.type, name := b.name, settings := Assignment.settingsOf (gathered bs b) }

/-- The sections that blocks mean, in the order of the blocks that open them. -/
def meaning (bs : List Block) : List Section :=
  (openersAfter [] bs).map (opened bs)

/-- The assignments up to the next line that opens a section, and the blocks from there on. -/
def split : List Statement → List Assignment × List Block
  | [] => ([], [])
  | .package _ :: rest => split rest
  | .opening type name :: rest =>
    let (assignments, bs) := split rest
    ([], { type, name, assignments } :: bs)
  | .setting kind name value :: rest =>
    let (assignments, bs) := split rest
    ({ kind, name, value } :: assignments, bs)

/-- The blocks of a text. -/
def ofText (text : String) : List Block :=
  (split (Config.statements text)).2

theorem openersAfter_concat (names : List String) (bs : List Block) (b : Block) :
    openersAfter names (bs ++ [b]) = openersAfter names bs ++
      if b.name ≠ "" ∧ (b.name ∈ names ∨ b.name ∈ bs.map (·.name)) then [] else [b] := by
  induction bs generalizing names with
  | nil => simp [openersAfter]
  | cons c bs ih =>
    simp only [List.cons_append, openersAfter]
    split
    · next hc =>
      rw [ih]
      congr 2
      simp only [List.map_cons, List.mem_cons, eq_iff_iff]
      grind
    · rw [ih]
      simp only [List.cons_append, List.map_cons, List.mem_cons, or_left_comm, or_assoc]

/-- The blocks of a name have a first one among them. -/
theorem mem_names_openersAfter {names : List String} {bs : List Block} {name : String} :
    name ∈ (openersAfter names bs).map (·.name) ↔
      name ∈ bs.map (·.name) ∧ (name = "" ∨ name ∉ names) := by
  induction bs generalizing names with
  | nil => simp [openersAfter]
  | cons c bs ih =>
    unfold openersAfter
    split <;> simp only [List.map_cons, List.mem_cons, ih] <;> grind

/-- A block after the others, if it opens a section, has its own assignments only. -/
theorem meaning_concat_of_fresh {bs : List Block} {b : Block}
    (h : b.name = "" ∨ b.name ∉ bs.map (·.name)) :
    meaning (bs ++ [b]) = meaning bs ++ [b.section] := by
  have hopeners : openersAfter [] (bs ++ [b]) = openersAfter [] bs ++ [b] := by
    rw [openersAfter_concat, if_neg]
    rintro ⟨hne, hmem⟩
    exact (h.resolve_left hne) (by simpa using hmem)
  have hgathered : gathered (bs ++ [b]) b = b.assignments := by
    unfold gathered
    split
    · rfl
    · next hne =>
      have hnone : bs.filter (·.name == b.name) = [] := by
        rw [List.filter_eq_nil_iff]
        intro c hc
        simpa using fun heq => h.resolve_left hne (List.mem_map.2 ⟨c, hc, heq⟩)
      simp [hnone]
  -- The block has no name, or none that a block before it has, so no section gathers it.
  have hold : ∀ o ∈ openersAfter [] bs, opened (bs ++ [b]) o = opened bs o := by
    intro o ho
    have hmem := (mem_names_openersAfter.1 (List.mem_map_of_mem ho)).1
    unfold opened gathered
    split
    · rfl
    · next hne =>
      have hother : b.name ≠ o.name := by
        intro heq
        rcases h with h | h
        · exact hne (by rw [← heq, h])
        · exact h (heq ▸ hmem)
      simp [hother]
  rw [meaning, hopeners, List.map_append, List.map_congr_left hold, ← meaning, List.map_singleton,
    opened, hgathered, ← Assignment.putAll_nil_eq]
  rfl

/-- A block after the others, if it opens a section again, adds its assignments to it. -/
theorem meaning_concat_of_mem {bs : List Block} {b : Block} (hne : b.name ≠ "")
    (h : b.name ∈ bs.map (·.name)) :
    meaning (bs ++ [b]) = (meaning bs).map fun s =>
      if s.name = b.name then { s with settings := Assignment.putAll s.settings b.assignments }
      else s := by
  have hopeners : openersAfter [] (bs ++ [b]) = openersAfter [] bs := by
    rw [openersAfter_concat, if_pos ⟨hne, .inr h⟩, List.append_nil]
  rw [meaning, hopeners, meaning, List.map_map]
  apply List.map_congr_left
  intro o _
  have hname : (opened bs o).name = o.name := rfl
  rw [Function.comp, hname]
  split
  · next hob =>
    have hgathered : gathered (bs ++ [b]) o = gathered bs o ++ b.assignments := by
      simp [gathered, hob, hne]
    simp only [opened, hgathered, ← Assignment.putAll_nil_eq, Assignment.putAll_append]
  · next hob =>
    have hgathered : gathered (bs ++ [b]) o = gathered bs o := by
      simp [gathered, Ne.symm hob]
    rw [opened, hgathered]
    rfl

theorem mem_names_meaning {bs : List Block} {name : String} :
    name ∈ (meaning bs).map (·.name) ↔ name ∈ bs.map (·.name) := by
  have hnames : (meaning bs).map (·.name) = (openersAfter [] bs).map (·.name) := by
    rw [meaning, List.map_map]
    rfl
  rw [hnames, mem_names_openersAfter]
  simp

end Block

/-! ## Reading what blocks mean -/

theorem SyntheticName.head?_text (type : String) (ordinal : Nat) :
    (SyntheticName.text type ordinal).toList.head? = some '@' := by
  simp [SyntheticName.text, toString]

namespace Config

/-- Among fresh names, the section that goes by a name without `@` is the one that has it. -/
theorem getElem?_of_findIdx?_names {c : Config} (hfresh : c.Fresh) {name : String} {i : Nat}
    (hne : name ≠ "") (hat : name.toList.head? ≠ some '@')
    (hi : c.names.findIdx? (· == name) = some i) {j : Nat} {s : Section}
    (hs : c.sections[j]? = some s) : i = j ↔ s.name = name := by
  obtain ⟨hlt, hhere, hbefore⟩ := List.findIdx?_eq_some_iff_getElem.1 hi
  have hnames : c.names[j]? = some (s.nameAt (c.countBefore s.type j)) := by
    rw [names_getElem?, hs]
    rfl
  constructor
  · rintro rfl
    rw [List.getElem?_eq_getElem hlt, Option.some.injEq] at hnames
    rw [hnames, beq_iff_eq, Section.nameAt] at hhere
    split at hhere
    · exact absurd (hhere ▸ SyntheticName.head?_text _ _) hat
    · exact hhere
  · intro hname
    have hgo : c.names[j]? = some name := by
      rw [hnames, ← hname]
      simp [Section.nameAt, Section.isUnnamed, hname, hne]
    -- The place is the first one of the name, and no section before `j` goes by it.
    rcases Nat.lt_trichotomy i j with hij | hij | hij
    · refine absurd ?_ (hfresh j s hs (hname ▸ hne))
      rw [hname, List.mem_take_iff_getElem]
      exact ⟨i, by omega, by simpa using hhere⟩
    · exact hij
    · obtain ⟨hj, hgo⟩ := List.getElem?_eq_some_iff.1 hgo
      exact absurd (by simpa using hgo) (hbefore j hij)

namespace Reader

/-- Statements take effect as the blocks that they fall into. -/
theorem applyAll_split (r : Reader) (ss : List Statement) :
    r.applyAll ss = r.applyAll ((Block.split ss).1.map Assignment.statement ++
      (Block.split ss).2.flatMap Block.statements) := by
  induction ss generalizing r with
  | nil => rfl
  | cons st ss ih =>
    cases st with
    | package name => exact ih r
    | opening type name =>
      simp only [Block.split, List.map_nil, List.nil_append, List.flatMap_cons, Block.statements,
        List.cons_append, applyAll]
      congr 1
      funext r'
      exact ih r'
    | setting kind name value =>
      simp only [Block.split, List.map_cons, List.cons_append, applyAll]
      congr 1
      funext r'
      exact ih r'

/-- One more block makes of what blocks mean what they mean with it. -/
theorem sections_of_block {r r' : Reader} {bs : List Block} {b : Block}
    (hsections : r.config.sections = Block.meaning bs) (hfresh : r.config.Fresh)
    (hat : b.name.toList.head? ≠ some '@') (h : r.applyAll b.statements = .ok r') :
    r'.config.sections = Block.meaning (bs ++ [b]) ∧ r'.config.Fresh := by
  obtain ⟨-, d, i, hopen, rfl⟩ := applyAll_block.1 h
  -- The block opens a section of its own, or the section of an earlier block again.
  rcases openSection_cases hopen with ⟨rfl, rfl, hname⟩ | ⟨rfl, hne, hi, -⟩
  · rw [assignAll_push]
    have hnew : b.name = "" ∨ b.name ∉ bs.map (·.name) := by
      by_cases hne : b.name = ""
      · exact .inl hne
      · refine .inr fun hmem => hname.resolve_left hne ?_
        obtain ⟨s, hs, heq⟩ := List.mem_map.1 (Block.mem_names_meaning.2 hmem)
        rw [← heq]
        exact mem_names_of_mem (hsections ▸ hs) (heq ▸ hne)
    refine ⟨?_, fresh_push hfresh hname⟩
    rw [Block.meaning_concat_of_fresh hnew, ← hsections]
    rfl
  · have hplace := @getElem?_of_findIdx?_names _ hfresh _ _ hne hat hi
    have hmem : b.name ∈ bs.map (·.name) := by
      obtain ⟨s, hs, -⟩ := exists_of_findIdx?_names hi
      rw [← Block.mem_names_meaning, ← hsections, ← (hplace hs).1 rfl]
      exact List.mem_map_of_mem (List.mem_of_getElem? hs)
    refine ⟨?_, fresh_congr ?_ hfresh⟩
    · rw [Block.meaning_concat_of_mem hne hmem, ← hsections]
      apply List.ext_getElem?
      intro j
      simp only [assignAll, changeAt, taint, List.getElem?_modify, List.getElem?_map]
      cases hs : r.config.sections[j]? with
      | none => rfl
      | some s => simp [hplace hs]
    · exact (headings_assignAll r.config.taint i b.assignments).symm

/-- Blocks make of what blocks mean what all of them mean. -/
theorem sections_of_blocks {r r' : Reader} {before bs : List Block}
    (hsections : r.config.sections = Block.meaning before) (hfresh : r.config.Fresh)
    (hat : ∀ b ∈ bs, b.name.toList.head? ≠ some '@')
    (h : r.applyAll (bs.flatMap Block.statements) = .ok r') :
    r'.config.sections = Block.meaning (before ++ bs) := by
  induction bs generalizing r before with
  | nil =>
    cases h
    simpa using hsections
  | cons b bs ih =>
    rw [List.flatMap_cons, applyAll_append_eq_ok_iff] at h
    obtain ⟨mid, hmid, hrest⟩ := h
    have hblock := sections_of_block hsections hfresh (hat b (by simp)) hmid
    have ih := ih hblock.1 hblock.2 (fun c hc => hat c (by simp [hc])) hrest
    simpa using ih

end Reader

/-- What is read from a text in which no name begins with `@` is what the text means. -/
theorem sections_of_parse {name text : String} {c : Config} (h : parse name text = .ok c)
    (hat : ∀ b ∈ Block.ofText text, b.name.toList.head? ≠ some '@') :
    c.sections = Block.meaning (Block.ofText text) ∧ c.tainted = false := by
  obtain ⟨-, r, hr, rfl⟩ := parse_eq_ok_iff.1 h
  refine ⟨?_, rfl⟩
  rw [Reader.applyAll_split, Reader.applyAll_append_eq_ok_iff] at hr
  obtain ⟨mid, hmid, hrest⟩ := hr
  -- An assignment before the first section is in error.
  have hmid : mid = { config := { name } } := by
    cases has : (Block.split (statements text)).1 with
    | nil =>
      rw [has] at hmid
      cases hmid
      rfl
    | cons a as =>
      rw [has] at hmid
      cases hmid
  subst hmid
  exact @Reader.sections_of_blocks _ r [] _ rfl (fresh_nil rfl) hat hrest

/-- A section that is opened again after an unnamed one, with a list that goes on from an option. -/
theorem sections_of_parse_opened_twice :
    parse "dhcp" "config pool lan\n\toption dns a\nconfig pool\nconfig pool lan\n\tlist dns b\n" =
        .ok { name := "dhcp", sections :=
          [{ type := "pool", name := "lan",
              settings := [{ name := "dns", kind := .list, values := ["a", "b"] }] },
            { type := "pool" }] } ∧
      [({ type := "pool", name := "lan",
          settings := [{ name := "dns", kind := .list, values := ["a", "b"] }] } : Section),
        { type := "pool" }] =
          Block.meaning (Block.ofText
            "config pool lan\n\toption dns a\nconfig pool\nconfig pool lan\n\tlist dns b\n") := by
  have hread : parse "dhcp"
      "config pool lan\n\toption dns a\nconfig pool\nconfig pool lan\n\tlist dns b\n" =
        .ok { name := "dhcp", sections :=
          [{ type := "pool", name := "lan",
              settings := [{ name := "dns", kind := .list, values := ["a", "b"] }] },
            { type := "pool" }] } := rfl
  exact ⟨hread, (sections_of_parse hread (by decide)).1⟩

end Config

end UnifiedConfig
