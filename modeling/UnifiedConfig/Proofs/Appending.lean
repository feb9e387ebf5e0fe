import UnifiedConfig.Proofs.Edits
import UnifiedConfig.Proofs.Receivers
import UnifiedConfig.Proofs.Requests

/-!
# Editing the text

A line that is written at the end of a text does what a store does to the configuration that is read
from it. An `option` or a `list` line changes the section that is open at the end of the text, as a
request does whose selector picks this section, and a `config` line adds a section.

The reader opens a section by the names that sections go by, and the store finds one by the names
that they have. Both come to the same as long as the name does not begin with `@`.

* `parse_append`: what is appended is read on from where the text ends.
* `parse_append_opening`: what is read if a `config` line is appended.
* `openSection_addSection`: a `config` line with a name is in error if and only if such a section
  cannot be added.
* `makes_of_appended`: what each line does, and the request that does the same.
-/

namespace UnifiedConfig

open Text

/-! ## Lines that are appended -/

namespace Text

theorem lines_ne_nil {s : List Char} (h : s ≠ []) : lines s ≠ [] := by
  induction s with
  | nil => exact absurd rfl h
  | cons c s ih =>
    unfold lines
    split
    · exact List.cons_ne_nil _ _
    · split
      · next hreturn => exact ih fun hnil => by simp [hnil] at hreturn
      · cases lines s <;> simp [extendFirst]

/-- Whether a text ends with a line, if there is anything in it. -/
def EndsLine (s : List Char) : Prop :=
  s = [] ∨ s.getLast? = some '\n'

/-- A text that ends with a line has its own lines, whatever comes after it. -/
theorem lines_append {s : List Char} (h : EndsLine s) (t : List Char) :
    lines (s ++ t) = lines s ++ lines t := by
  rcases h with rfl | h
  · rfl
  induction s with
  | nil => cases h
  | cons c s ih =>
    by_cases hnil : s = []
    · subst hnil
      obtain rfl : c = '\n' := by simpa using h
      simp
    · have hhead : (s ++ t).head? = s.head? := List.head?_append_of_ne_nil s hnil
      have ih := ih (by rwa [List.getLast?_cons_of_ne_nil hnil] at h)
      rw [List.cons_append, lines, lines, hhead, ih]
      split
      · rfl
      · split
        · rfl
        · obtain ⟨l, ls, hls⟩ := List.exists_cons_of_ne_nil (lines_ne_nil hnil)
          rw [hls]
          rfl

end Text

namespace Config

theorem Reader.readLines_append (r : Reader) (number : Nat) (ls ms : List (List Char)) :
    r.readLines number (ls ++ ms) =
      (r.readLines number ls).bind fun r' => r'.readLines (number + ls.length) ms := by
  induction ls generalizing r number with
  | nil => rfl
  | cons l ls ih =>
    rw [List.cons_append, readLines, readLines]
    cases r.readLine l with
    | error fault => rfl
    | ok next =>
      simp only [ih, List.length_cons]
      rw [Nat.add_assoc, Nat.add_comm 1]

theorem Reader.name_of_readLines {r r' : Reader} {number : Nat} {ls : List (List Char)}
    (h : r.readLines number ls = .ok r') : r'.config.name = r.config.name := by
  induction ls generalizing r number with
  | nil =>
    cases h
    rfl
  | cons l ls ih =>
    rw [readLines] at h
    cases hline : r.readLine l with
    | error fault => simp [hline] at h
    | ok next =>
      rw [hline] at h
      exact (ih h).trans (name_of_readLine hline)

/-- What is appended to a text is read on from where the text ends, and the section that takes the
last block of the text is open there. -/
theorem parse_append {name text : String} {c : Config} (hend : EndsLine text.toList)
    (h : parse name text = .ok c) :
    ∃ (r : Reader) (places : List Nat), r.config.markClean = c ∧ r.config.name = name ∧
      readBlocks { name } (Block.ofText text) = .ok (r.config, places) ∧
      r.current = places.getLast? ∧
      ∀ more : String, parse name (text ++ more) =
        (r.readLines ((Text.lines text.toList).length + 1) (Text.lines more.toList)).map
          fun r' => r'.config.markClean := by
  obtain ⟨r, hr, rfl⟩ := map_eq_ok_iff.1 h
  obtain ⟨places, hplaces, hcurrent⟩ :=
    readBlocks_of_statements (Reader.readLines_eq_ok_iff.1 hr).2
  refine ⟨r, places, rfl, Reader.name_of_readLines hr, hplaces, hcurrent, fun more => ?_⟩
  rw [parse, String.toList_append, lines_append hend, Reader.readLines_append, hr, Nat.add_comm 1]
  rfl

end Config

/-! ## What is read -/

namespace Assignment

variable {a : Assignment}

theorem lineFeed_line (hname : IsPlain a.name.toList) (hvalue : IsQuotable a.value.toList) :
    '\n' ∉ a.line := by
  have hfeed : '\n' ∉ a.name.toList := hname.notMem (by decide)
  have hkeyword : '\n' ∉ a.kind.keyword.toList := by cases a.kind <;> decide
  simp [line, withQuoted, hfeed, hkeyword, hvalue.2]

theorem lines_line (hname : IsPlain a.name.toList) (hvalue : IsQuotable a.value.toList) :
    lines (a.line ++ ['\n']) = [a.line] := by
  rw [lines_append_lineFeed_dropReturn (lineFeed_line hname hvalue), dropReturn_line, lines_nil]

end Assignment

theorem Block.openingLine_eq (b : Block) : b.openingLine = "config".toList ++ ' ' ::
    (if b.name = "" then b.type.toList else withQuoted b.type.toList b.name.toList) := rfl

namespace Config.Reader

/-- A line of an assignment changes the section that is open. -/
theorem readLines_assignment {r : Reader} {i : Nat} (hcurrent : r.current = some i)
    {a : Assignment} (hname : IsPlain a.name.toList) (hvalue : IsQuotable a.value.toList)
    (number : Nat) : r.readLines number (Text.lines (a.line ++ ['\n'])) =
      .ok { r with config := r.config.changeAt i (·.assign a.kind a.name a.value) } := by
  have hne : a.name ≠ "" := by simpa using hname.1
  rw [Assignment.lines_line hname hvalue]
  simp [readLines, readLine, Assignment.ofLine_of_plain hname hvalue.1, Assignment.statement, apply,
    hcurrent, hne]

/-- An empty line has no effect, and a `config` line opens a section. -/
theorem readLines_opening (r : Reader) {b : Block} (htype : IsPlain b.type.toList)
    (hname : IsQuotable b.name.toList) (number : Nat) :
    r.readLines number (Text.lines ('\n' :: (b.openingLine ++ ['\n']))) =
      match r.config.openSection b.type b.name with
      | .error fault => .error (.line r.config.name (number + 1) fault)
      | .ok (d, i) => .ok { config := d, current := some i } := by
  have hfeed : '\n' ∉ b.openingLine := by
    have htype : '\n' ∉ b.type.toList := htype.notMem (by decide)
    rw [Block.openingLine_eq]
    split <;> simp [withQuoted, htype, hname.2]
  rw [lines_lineFeed, lines_append_lineFeed_dropReturn hfeed, lines_nil]
  simp only [readLines, readLine, Statement.ofLine_nil, Block.ofLine_of_plain htype hname.1, apply]
  cases r.config.openSection b.type b.name <;> rfl

end Config.Reader

namespace Config

/-- What is read of a text to which a `config` line is appended, after an empty line. -/
theorem parse_append_opening {name text : String} {c : Config} (hend : EndsLine text.toList)
    (hparse : parse name text = .ok c.markClean) {b : Block} (htype : IsPlain b.type.toList)
    (hname : IsQuotable b.name.toList) {line : String}
    (hline : line.toList = '\n' :: (b.openingLine ++ ['\n'])) :
    ∃ d : Config, d.markClean = c.markClean ∧ d.name = name ∧
      parse name (text ++ line) = match d.openSection b.type b.name with
        | .error fault => .error (.line name ((Text.lines text.toList).length + 2) fault)
        | .ok (d', _) => .ok d'.markClean := by
  obtain ⟨r, -, hr, hrname, -, -, hmore⟩ := parse_append hend hparse
  refine ⟨r.config, hr, hrname, ?_⟩
  rw [hmore line, hline, Reader.readLines_opening r htype hname, hrname]
  cases r.config.openSection b.type b.name <;> rfl

/-! ## What a store does -/

/-- The section that takes a block is there. -/
theorem exists_section_of_mem_places {c e : Config} {bs : List Block} {places : List Nat}
    (h : c.readBlocks bs = .ok (e, places)) {i : Nat} (hi : i ∈ places) :
    ∃ s, e.sections[i]? = some s := by
  obtain ⟨hlength, htakes⟩ := takes_of_readBlocks h
  rw [← List.map_snd_zip (Nat.le_of_eq hlength)] at hi
  obtain ⟨⟨b, j⟩, hmem, rfl⟩ := List.mem_map.1 hi
  obtain ⟨s, hs, -⟩ := htakes b j hmem
  exact ⟨s, hs⟩

theorem editSection_of_place {c : Config} {selector : String} {i : Nat} {s : Section}
    (hplace : c.place selector = .ok (some i)) (hs : c.sections[i]? = some s)
    (change : Section → Section) :
    c.editSection selector change = .ok ((), (c.changeAt i change).taint) := by
  rw [← changeAt_const hs change]
  simp [editSection, edit, hplace, hs, bind, Except.bind, pure, Except.pure]

/-- Whether there are changes to remember does not matter for what is appended. -/
theorem markClean_push {c d : Config} (h : d.markClean = c.markClean) (s : Section) :
    (d.push s).markClean = (c.push s).markClean :=
  congrArg (fun e => (e.push s).markClean) h

/-- A section is opened as it is added, if its name does not begin with `@`: both make the same
configuration, or both are in error, as there is a section of the name and of another type. -/
theorem openSection_addSection {c d : Config} (h : d.markClean = c.markClean) {type name : String}
    (hne : name ≠ "") (hat : name.toList.head? ≠ some '@') :
    (∃ d' i c', d.openSection type name = .ok (d', i) ∧
      c.addSection type (some name) = .ok (name, c') ∧ d'.markClean = c'.markClean) ∨
    ∃ previous ∈ c.sections, previous.name = name ∧ previous.type ≠ type ∧
      d.openSection type name = .error (.typeChanged name type previous.type) ∧
      c.addSection type (some name) =
        .error (.refused (.sectionExists c.name name previous.type)) := by
  have hsections : d.sections = c.sections := congrArg (·.sections) h
  have hsame : d.findNamed? name = c.findNamed? name := by rw [findNamed?, findNamed?, hsections]
  have hallowed : ¬ (name = "" ∨ name.toList.head? = some '@') := not_or.2 ⟨hne, hat⟩
  cases hfound : c.findNamed? name with
  | none =>
    -- No section has the name, so none goes by it.
    have hfresh : name ∉ d.names := by
      intro hmem
      obtain ⟨s, hs⟩ := findNamed?_of_mem_names hne hat hmem
      rw [hsame, hfound] at hs
      cases hs
    refine .inl ⟨_, _, c.push { type, name }, openSection_of_fresh type (.inr hfresh), ?_, ?_⟩
    · simp [addSection, hallowed, hfound]
    · exact markClean_push h _
  | some previous =>
    obtain ⟨hthere, hnamed, rfl⟩ := findNamed?_mem hfound
    by_cases htype : previous.type = type
    · left
      -- The section is merged into the one that has its name, and changes nothing.
      have hopen : d.openSection type previous.name =
          .ok (d.mergeAt { type, name := previous.name } 0) := by
        simp [openSection, hne, hsame, hfound, htype]
      refine ⟨_, _, c, hopen, by simp [addSection, hallowed, hfound, htype], ?_⟩
      rcases openSection_cases hopen with ⟨-, -, hfresh⟩ | ⟨hmerged, -⟩
      · rw [← hsections] at hthere
        exact absurd (mem_names_of_mem hthere hnamed) (hfresh.resolve_left hne)
      · rw [hmerged]
        exact h
    · refine .inr ⟨previous, hthere, rfl, htype, ?_, ?_⟩
      · simp [openSection, hne, hsame, hfound, htype]
      · simp [addSection, hallowed, hfound, htype]

end Config

/-- What is loaded or begun is loaded from a file, or else it has no section. -/
theorem Store.load_of_ensure {s s' : Store} {d : Disk} {name : String} {c : Config}
    (h : s.ensure d name = .ok (c, s')) : s.load d name = .ok (c, s') ∨ c.sections = [] := by
  rcases openWith_eq_ok h with ⟨hname, ⟨hfound, rfl⟩ | ⟨hnew, hread, rfl⟩⟩
  · left
    simp [load, openWith, configPath, hname, hfound]
  · split at hread
    · cases hread
      exact .inr rfl
    · left
      simp [load, openWith, configPath, hname, hnew, hread]

namespace Session

/-- Whether a request makes of a configuration what is read from a text. -/
def Makes (w : Session) (r : Request) (name text : String) : Prop :=
  ∃ a c, (w.step r).1 = .ok a ∧ (w.step r).2.store.loaded.find? name = some c ∧
    Config.parse name text = .ok c.markClean

variable {w : Session} {name text : String} {c : Config} {s : Store}

theorem makes_of_act {r : Request} {opened : Store.Opened} {c' : Config} {a : Answer}
    (hstep : w.step r = w.actOn r name opened) (hopened : opened = .ok (c, s))
    (hact : r.act c = .ok (a, c')) (hparse : Config.parse name text = .ok c'.markClean) :
    w.Makes r name text := by
  rw [Makes, hstep, hopened, actOn, hact]
  exact ⟨a, c', rfl, Loaded.find?_put_self _ _ _, hparse⟩

/-- The request that makes an assignment in the section that a selector picks. -/
def assigning (name selector : String) (a : Assignment) : Request :=
  match a.kind with
  | .scalar => .set name selector a.name .scalar [a.value]
  | .list => .addToList name selector a.name a.value

theorem makes_of_assignment {i : Nat} {t : Section} {selector : String} {a : Assignment}
    (hload : w.store.load w.disk name = .ok (c, s)) (hplace : c.place selector = .ok (some i))
    (ht : c.sections[i]? = some t)
    (hparse : Config.parse name text =
      .ok (c.changeAt i (·.assign a.kind a.name a.value)).markClean) :
    w.Makes (assigning name selector a) name text := by
  have hact : (assigning name selector a).act c =
      .ok (.done, (c.changeAt i (·.assign a.kind a.name a.value)).taint) := by
    have hedit := Config.editSection_of_place hplace ht (·.assign a.kind a.name a.value)
    have hdone := congrArg (Except.map fun p => (Answer.done, p.2)) hedit
    obtain ⟨kind, setting, value⟩ := a
    cases kind <;> exact hdone
  have hstep : w.step (assigning name selector a) =
      w.actOn (assigning name selector a) name (w.store.load w.disk name) := by
    obtain ⟨kind, setting, value⟩ := a
    cases kind <;> exact keepDisk_edit fun _ => rfl
  exact makes_of_act hstep hload hact hparse

theorem step_addSection {type : String} (htype : type ≠ "") (given : Option String) :
    w.step (.addSection name type given) =
      w.actOn (.addSection name type given) name (w.store.ensure w.disk name) := by
  simp only [step, Store.addSection, if_neg htype]
  exact keepDisk_edit fun _ => rfl

/-! ## Both -/

/-- A line of an assignment is for the section that takes the last block. -/
theorem makes_of_appended_assignment (hensure : w.store.ensure w.disk name = .ok (c, s))
    (hend : EndsLine text.toList) (hparse : Config.parse name text = .ok c.markClean) :
    ∃ d places, Config.readBlocks { name } (Block.ofText text) = .ok (d, places) ∧
      places.length = (Block.ofText text).length ∧
      ∀ i selector a (line : String), places.getLast? = some i → c.place selector = .ok (some i) →
        IsPlain a.name.toList → IsQuotable a.value.toList → line.toList = a.line ++ ['\n'] →
          w.Makes (assigning name selector a) name (text ++ line) := by
  obtain ⟨r, places, hr, -, hread, hcurrent, hmore⟩ := Config.parse_append hend hparse
  refine ⟨r.config, places, hread, (Config.takes_of_readBlocks hread).1, ?_⟩
  intro i selector a line hlast hplace hname hvalue hline
  have hsections : r.config.sections = c.sections := congrArg (·.sections) hr
  -- The section that is open takes the last block, so it is there.
  obtain ⟨t, ht⟩ := Config.exists_section_of_mem_places hread (List.mem_of_getLast? hlast)
  rw [hsections] at ht
  have hload : w.store.load w.disk name = .ok (c, s) := by
    rcases Store.load_of_ensure hensure with hload | hnil
    · exact hload
    · simp [hnil] at ht
  refine makes_of_assignment hload hplace ht ?_
  rw [hmore, hline, Config.Reader.readLines_assignment (hcurrent.trans hlast) hname hvalue]
  exact congrArg (fun e : Config => Except.ok (e.changeAt i (·.assign a.kind a.name a.value))) hr

/-- Editing a text at its end and editing the configuration that is read from it come to the same.
The text ends with a line, and the configuration is one that the store has open. -/
theorem makes_of_appended (hensure : w.store.ensure w.disk name = .ok (c, s))
    (hparse : Config.parse name text = .ok c.markClean) (hend : EndsLine text.toList) :
    (∃ d places, Config.readBlocks { name } (Block.ofText text) = .ok (d, places) ∧
      places.length = (Block.ofText text).length ∧
      ∀ i selector setting value, places.getLast? = some i → c.place selector = .ok (some i) →
        IsPlain setting.toList → IsQuotable value.toList →
          w.Makes (.set name selector setting .scalar [value]) name
            (text ++ s!"\toption {setting} '{value}'\n") ∧
          w.Makes (.addToList name selector setting value) name
            (text ++ s!"\tlist {setting} '{value}'\n")) ∧
    (∀ type, IsPlain type.toList →
      w.Makes (.addSection name type none) name (text ++ s!"\nconfig {type}\n")) ∧
    ∀ type given, IsPlain type.toList → IsQuotable given.toList → given ≠ "" →
      given.toList.head? ≠ some '@' →
        w.Makes (.addSection name type (some given)) name
          (text ++ s!"\nconfig {type} '{given}'\n") ∨
        ∃ previous ∈ c.sections, previous.name = given ∧ previous.type ≠ type ∧
          (w.step (.addSection name type (some given))).1 =
            .error (.refused (.sectionExists name given previous.type)) ∧
          Config.parse name (text ++ s!"\nconfig {type} '{given}'\n") =
            .error (.line name ((Text.lines text.toList).length + 2)
              (.typeChanged given type previous.type)) := by
  refine ⟨?_, ?_, ?_⟩
  · obtain ⟨d, places, hread, hlength, hmakes⟩ := makes_of_appended_assignment hensure hend hparse
    refine ⟨d, places, hread, hlength, fun i selector setting value hlast hplace hname hvalue => ?_⟩
    have hmakes := fun kind line =>
      hmakes i selector ⟨kind, setting, value⟩ line hlast hplace hname hvalue
    refine ⟨hmakes .scalar _ ?_, hmakes .list _ ?_⟩ <;>
      simp [Assignment.line, Setting.Kind.keyword, withQuoted, toString]
  · intro type htype
    have hline : s!"\nconfig {type}\n".toList =
        '\n' :: (({ type } : Block).openingLine ++ ['\n']) := by
      simp [Block.openingLine_eq, toString]
    obtain ⟨d, hd, -, hread⟩ :=
      Config.parse_append_opening hend hparse htype (by simp [IsQuotable]) hline
    rw [Config.openSection_of_fresh type (.inl rfl)] at hread
    refine makes_of_act (step_addSection (by simpa using htype.1) none) hensure rfl ?_
    exact hread.trans (congrArg Except.ok (Config.markClean_push hd _))
  · intro type given htype hgiven hne hat
    have hline : s!"\nconfig {type} '{given}'\n".toList =
        '\n' :: (({ type, name := given } : Block).openingLine ++ ['\n']) := by
      simp [Block.openingLine_eq, hne, withQuoted, toString]
    obtain ⟨d, hd, hdname, hread⟩ := Config.parse_append_opening hend hparse htype hgiven hline
    have hstep := @step_addSection w name type (by simpa using htype.1) (some given)
    have hcname : c.name = name := (congrArg (·.name) hd).symm.trans hdname
    rcases Config.openSection_addSection hd hne hat with ⟨d', i, c', hopen, hadd, hsame⟩ |
      ⟨previous, hprevious, hnamed, hother, hopen, hadd⟩
    · left
      rw [hopen] at hread
      have hact : (Request.addSection name type (some given)).act c = .ok (.text given, c') := by
        simp [Request.act, hadd, Except.map]
      exact makes_of_act hstep hensure hact (hread.trans (congrArg Except.ok hsame))
    · right
      rw [hopen] at hread
      refine ⟨previous, hprevious, hnamed, hother, ?_, hread⟩
      rw [hstep, hensure]
      simp [actOn, Request.act, hadd, Except.map, hcname]

/-- A `list` line makes a list of a scalar, and a name cannot come with another type. -/
theorem makes_of_appended_network :
    let text := "config zone 'lan'\n\toption proto 'static'\n"
    let w := ofFile "network" text
    w.Makes (.addToList "network" "@zone[-1]" "proto" "dhcp") "network"
        (text ++ "\tlist proto 'dhcp'\n") ∧
      Config.parse "network" (text ++ "\nconfig rule 'lan'\n") =
        .error (.line "network" 4 (.typeChanged "lan" "rule" "zone")) := by
  intro text w
  let c : Config :=
    { name := "network",
      sections := [{ type := "zone", name := "lan",
                     settings := [{ name := "proto", kind := .scalar, values := ["static"] }] }] }
  obtain ⟨s, hensure⟩ : ∃ s, w.store.ensure w.disk "network" = .ok (c, s) := by
    have hopened : (w.store.ensure w.disk "network").toOption.map (·.1) = some c := by
      decide +kernel
    cases hresult : w.store.ensure w.disk "network" with
    | error e =>
      rw [hresult] at hopened
      cases hopened
    | ok p =>
      rw [hresult] at hopened
      exact ⟨p.2, by rw [← Option.some.inj hopened]⟩
  have hparse : Config.parse "network" text = .ok c.markClean := by decide +kernel
  obtain ⟨⟨d, places, hread, -, hassigned⟩, -, hadded⟩ :=
    makes_of_appended hensure hparse (.inr (by decide))
  have hplaces : places.getLast? = some 0 := by
    have hall : (Config.readBlocks { name := "network" } (Block.ofText text)).toOption.map
        (·.2.getLast?) = some (some 0) := by decide +kernel
    rw [hread] at hall
    exact Option.some.inj hall
  refine ⟨?_, ?_⟩
  · exact (hassigned 0 "@zone[-1]" "proto" "dhcp" hplaces rfl (by decide) (by decide)).2
  · rcases hadded "rule" "lan" (by decide) (by decide) (by decide) (by decide) with
      ⟨a, e, hok, -⟩ | ⟨previous, hprevious, -, -, -, herror⟩
    · have hnone : (w.step (.addSection "network" "rule" (some "lan"))).1.toOption = none := by
        decide +kernel
      rw [hok] at hnone
      cases hnone
    · have hcount : (Text.lines text.toList).length = 2 := by decide +kernel
      rw [List.mem_singleton.1 hprevious, hcount] at herror
      exact herror

end Session

end UnifiedConfig
