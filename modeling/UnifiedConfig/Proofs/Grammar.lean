import UnifiedConfig.Proofs.Edits
import UnifiedConfig.Proofs.Receivers

/-!
# Which texts are read

A text is read if its lines follow a grammar: each line has one of four forms, an `option` or a
`list` line has a `config` line before it, and no name comes with two types. If they do not, the
first line is at fault that does not fit those before it, and the lines after it do not matter.

The grammar is about the words of lines and says nothing of how they are read. It is right where no
name begins with `@`, as a `config` line may open an unnamed section by its synthetic name.

* `isGrammatical_concat`: lines are grammatical if each of them fits those before it.
* `fits_iff`: a line fits if it states something that is in place.
* `exists_readLine_iff`: a line is read if and only if it fits.
* `parse_iff_isGrammatical`: which texts are read, and which line is at fault in the others.
-/

namespace UnifiedConfig

/-! ## The grammar -/

namespace Grammar

/-- Whether a line is read as these words. -/
def HasWords (line : List Char) (ws : List String) : Prop :=
  Text.words line = .ok (ws.map String.toList)

/-- Whether a line is a `config` line with a type and a name, which is empty if none is given. -/
def Opens (line : List Char) (type name : String) : Prop :=
  HasWords line ["config", type, name] ∨ (HasWords line ["config", type] ∧ name = "")

/-- Whether a line is an `option` or a `list` line with a name. -/
def Gives (line : List Char) (name : String) : Prop :=
  ∃ (kind : Setting.Kind) (value : String), HasWords line [kind.keyword, name, value]

/-- Whether some line is a `config` line. -/
def HasOpening (lines : List (List Char)) : Prop :=
  ∃ l ∈ lines, ∃ type name, Opens l type name

/-- The forms that a line can have. -/
inductive HasForm (line : List Char) : Prop where
  | blank (h : HasWords line [])
  | package (name : String) (h : HasWords line ["package", name])
  | opening (type name : String) (h : Opens line type name) (htype : type ≠ "")
  | giving (name : String) (h : Gives line name) (hname : name ≠ "")

/-- Whether lines follow the grammar. -/
structure IsGrammatical (lines : List (List Char)) : Prop where
  form : ∀ l ∈ lines, HasForm l
  /-- No `option` or `list` line is outside of a section. -/
  opened : ∀ before l after name, lines = before ++ l :: after → Gives l name → HasOpening before
  /-- No name comes with two types. -/
  types : ∀ l ∈ lines, ∀ m ∈ lines, ∀ type other name, Opens l type name → Opens m other name →
    name ≠ "" → type = other

/-- Whether a line fits the lines before it. -/
structure Fits (before : List (List Char)) (line : List Char) : Prop where
  form : HasForm line
  opened : ∀ name, Gives line name → HasOpening before
  types : ∀ m ∈ before, ∀ type other name, Opens line type name → Opens m other name →
    name ≠ "" → type = other

variable {line : List Char} {before : List (List Char)}

theorem HasWords.unique {ws ws' : List String} (h : HasWords line ws) (h' : HasWords line ws') :
    ws = ws' := by
  have heq := Except.ok.inj (h.symm.trans h')
  exact List.map_injective_iff.2 (fun _ _ => String.toList_inj.1) heq

theorem Opens.unique {type name type' name' : String} (h : Opens line type name)
    (h' : Opens line type' name') : type = type' ∧ name = name' := by
  rcases h with h | ⟨h, rfl⟩ <;> rcases h' with h' | ⟨h', rfl⟩ <;> have heq := h.unique h' <;>
    simp at heq
  · exact heq
  · exact ⟨heq, rfl⟩

theorem hasOpening_concat :
    HasOpening (before ++ [line]) ↔ HasOpening before ∨ ∃ type name, Opens line type name := by
  simp only [HasOpening, List.mem_append, List.mem_singleton, or_and_right, exists_or,
    exists_eq_left]

theorem isGrammatical_nil : IsGrammatical [] :=
  ⟨by simp, by simp, by simp⟩

/-- Lines are grammatical if those before the last one are, and the last one fits them. -/
theorem isGrammatical_concat :
    IsGrammatical (before ++ [line]) ↔ IsGrammatical before ∧ Fits before line := by
  constructor
  · intro h
    refine ⟨⟨fun l hl => h.form l (by simp [hl]), ?_, ?_⟩, h.form line (by simp), ?_, ?_⟩
    · rintro first l rest name rfl hl
      exact h.opened first l (rest ++ [line]) name (by simp) hl
    · intro l hl m hm
      exact h.types l (by simp [hl]) m (by simp [hm])
    · intro name hline
      exact h.opened before line [] name rfl hline
    · intro m hm
      exact h.types line (by simp) m (by simp [hm])
  · rintro ⟨h, hline⟩
    refine ⟨?_, ?_, ?_⟩
    · intro l hl
      rcases List.mem_append.1 hl with hl | hl
      · exact h.form l hl
      · rw [List.mem_singleton.1 hl]
        exact hline.form
    · intro first l rest name heq hl
      -- The line is the last one, or one of those before.
      rcases List.eq_nil_or_concat rest with rfl | ⟨rest, last, rfl⟩
      · obtain ⟨rfl, hlast⟩ := List.append_inj' heq rfl
        cases hlast
        exact hline.opened name hl
      · rw [List.concat_eq_append, ← List.cons_append, ← List.append_assoc] at heq
        exact h.opened first l rest name (List.append_inj' heq rfl).1 hl
    · intro l hl m hm type other name hopens hother hname
      rw [List.mem_append, List.mem_singleton] at hl hm
      rcases hl with hl | rfl <;> rcases hm with hm | rfl
      · exact h.types l hl m hm type other name hopens hother hname
      · exact (hline.types l hl other type name hother hopens hname).symm
      · exact hline.types m hm type other name hopens hother hname
      · exact (hopens.unique hother).1

theorem IsGrammatical.of_append {after : List (List Char)} (h : IsGrammatical (before ++ after)) :
    IsGrammatical before := by
  induction after using List.reverseRecOn with
  | nil => simpa using h
  | append_singleton after l ih =>
    rw [← List.append_assoc, isGrammatical_concat] at h
    exact ih h.1

/-! ## Statements of lines -/

/-- Whether a line states this, or nothing at all. -/
def States (line : List Char) : Option Statement → Prop
  | none => HasWords line []
  | some (.package name) => HasWords line ["package", name]
  | some (.opening type name) => Opens line type name ∧ type ≠ ""
  | some (.setting kind name value) => HasWords line [kind.keyword, name, value]

theorem ofLine_of_hasWords {keyword : String} {args : List String}
    (h : HasWords line (keyword :: args)) :
    Statement.ofLine line = (Statement.ofKeyword keyword args).map some := by
  have hargs : (args.map String.toList).map String.ofList = args := by simp
  rw [Statement.ofLine_eq h, hargs, String.ofList_toList]

theorem ofLine_of_opens {type name : String} (h : Opens line type name) :
    Statement.ofLine line = (Statement.ofOpening type name).map some := by
  rcases h with h | ⟨h, rfl⟩ <;> exact ofLine_of_hasWords h

theorem ofLine_of_states {s : Option Statement} (h : States line s) :
    Statement.ofLine line = .ok s := by
  rcases s with _ | (name | ⟨type, name⟩ | ⟨kind, name, value⟩)
  · have hwords : Text.words line = .ok [] := h
    simp [Statement.ofLine, hwords]
  · rw [ofLine_of_hasWords h]
    rfl
  · rw [ofLine_of_opens h.1, Statement.ofOpening, if_neg h.2]
    rfl
  · rw [ofLine_of_hasWords h, Assignment.ofKeyword_kind]
    rfl

theorem states_of_ofKeyword {keyword : String} {args : List String} {st : Statement}
    (hwords : HasWords line (keyword :: args)) (h : Statement.ofKeyword keyword args = .ok st) :
    States line (some st) := by
  by_cases hconfig : keyword = "config"
  · subst hconfig
    obtain ⟨type, name, htype, rfl, rfl | ⟨rfl, rfl⟩⟩ := Block.ofKeyword_config h
    · exact ⟨.inl hwords, htype⟩
    · exact ⟨.inr ⟨hwords, rfl⟩, htype⟩
  · unfold Statement.ofKeyword at h
    split at h
    · next hpackage =>
      subst hpackage
      split at h
      · cases h
        exact hwords
      · cases h
    · split at h
      · cases h
      · next hkind =>
        cases h
        obtain rfl := Setting.Kind.ofKeyword?_eq_some_iff.1 hkind
        exact hwords
      · cases h

theorem states_of_ofLine {s : Option Statement} (h : Statement.ofLine line = .ok s) :
    States line s := by
  cases hline : Text.words line with
  | error fault => simp [Statement.ofLine, hline] at h
  | ok ws =>
    have hwords : HasWords line (ws.map String.ofList) := by
      have hback : (ws.map String.ofList).map String.toList = ws := by simp
      rw [HasWords, hback, hline]
    cases ws with
    | nil =>
      have hs : s = none := by simpa [Statement.ofLine, hline] using h.symm
      rw [hs]
      exact hwords
    | cons word args =>
      rw [List.map_cons] at hwords
      rw [ofLine_of_hasWords hwords] at h
      obtain ⟨st, hst, rfl⟩ := map_eq_ok_iff.1 h
      exact states_of_ofKeyword hwords hst

/-- A line is read as what it states. -/
theorem ofLine_eq_ok_iff {s : Option Statement} : Statement.ofLine line = .ok s ↔ States line s :=
  ⟨states_of_ofLine, ofLine_of_states⟩

variable {s : Option Statement}

theorem opens_iff_of_states (h : States line s) {type name : String} :
    Opens line type name ↔ s = some (.opening type name) := by
  constructor
  · intro hopens
    have hline := ofLine_of_opens hopens
    rw [ofLine_of_states h] at hline
    obtain ⟨st, hst, rfl⟩ := map_eq_ok_iff.1 hline.symm
    rw [(Block.ofOpening_eq_ok hst).2]
  · rintro rfl
    exact h.1

theorem gives_iff_of_states (h : States line s) {name : String} :
    Gives line name ↔ ∃ kind value, s = some (.setting kind name value) := by
  constructor
  · rintro ⟨kind, value, hwords⟩
    have hline := ofLine_of_states (s := some (.setting kind name value)) hwords
    rw [ofLine_of_states h] at hline
    exact ⟨kind, value, Except.ok.inj hline⟩
  · rintro ⟨kind, value, rfl⟩
    exact ⟨kind, value, h⟩

/-- Whether a statement is in place after some lines. -/
def Allows (before : List (List Char)) : Option Statement → Prop
  | none | some (.package _) => True
  | some (.opening type name) =>
    ∀ m ∈ before, ∀ other, Opens m other name → name ≠ "" → type = other
  | some (.setting _ name _) => name ≠ "" ∧ HasOpening before

/-- A line fits the lines before it if it states something that is in place after them. -/
theorem fits_iff : Fits before line ↔ ∃ s, States line s ∧ Allows before s := by
  constructor
  · rintro ⟨hform, hopened, htypes⟩
    rcases hform with h | ⟨name, h⟩ | ⟨type, name, h, htype⟩ | ⟨name, ⟨kind, value, h⟩, hname⟩
    · exact ⟨none, h, trivial⟩
    · exact ⟨some (.package name), h, trivial⟩
    · exact ⟨some (.opening type name), ⟨h, htype⟩,
        fun m hm other hother => htypes m hm type other name h hother⟩
    · exact ⟨some (.setting kind name value), h, hname, hopened name ⟨kind, value, h⟩⟩
  · rintro ⟨s, hstates, hallows⟩
    refine ⟨?_, ?_, ?_⟩
    · rcases s with _ | (name | ⟨type, name⟩ | ⟨kind, name, value⟩)
      · exact .blank hstates
      · exact .package name hstates
      · exact .opening type name hstates.1 hstates.2
      · exact .giving name ⟨kind, value, hstates⟩ hallows.1
    · intro name hgives
      obtain ⟨kind, value, rfl⟩ := (gives_iff_of_states hstates).1 hgives
      exact hallows.2
    · intro m hm type other name hopens hother
      obtain rfl := (opens_iff_of_states hstates).1 hopens
      exact hallows m hm other hother

end Grammar

/-! ## Reading -/

namespace Config

/-- A `config` line is in error only if it has the name of a section of another type. -/
theorem openSection_isOk_iff {c : Config} {type name : String} :
    (∃ p, c.openSection type name = .ok p) ↔
      ∀ previous, c.findNamed? name = some previous → previous.type = type := by
  unfold openSection
  split
  · next hname =>
    refine ⟨fun _ previous hprevious => ?_, fun _ => ⟨_, rfl⟩⟩
    obtain ⟨-, hne, heq⟩ := findNamed?_mem hprevious
    exact absurd (heq.trans hname) hne
  · cases hfound : c.findNamed? name with
    | none => simp
    | some previous => by_cases htype : previous.type = type <;> simp [htype]

theorem mem_headings_of_findNamed? {c : Config} {name : String} {s : Section}
    (h : c.findNamed? name = some s) :
    name ≠ "" ∧ (s.type, name) ∈ c.sections.map Section.heading := by
  obtain ⟨hs, hne, rfl⟩ := findNamed?_mem h
  exact ⟨hne, List.mem_map.2 ⟨s, hs, rfl⟩⟩

theorem exists_findNamed?_of_mem_headings {c : Config} {type name : String} (hne : name ≠ "")
    (h : (type, name) ∈ c.sections.map Section.heading) : ∃ s, c.findNamed? name = some s := by
  obtain ⟨s, hs, heq⟩ := List.mem_map.1 h
  obtain ⟨rfl, rfl⟩ := Prod.mk.inj heq
  exact findNamed?_of_mem hs hne

namespace Reader

open Grammar

variable {r r' : Reader} {before : List (List Char)} {line : List Char}

theorem readLine_eq_ok_iff : r.readLine line = .ok r' ↔
    (States line none ∧ r = r') ∨ ∃ st, States line (some st) ∧ r.apply st = .ok r' := by
  simp only [readLine, ← ofLine_eq_ok_iff]
  cases Statement.ofLine line with
  | error fault => simp
  | ok s => cases s <;> simp

/-- What a reader knows of the lines that it has read. -/
structure HasRead (r : Reader) (before : List (List Char)) : Prop where
  isOpen : r.current.isSome ↔ HasOpening before
  heading : ∀ type name, name ≠ "" →
    ((type, name) ∈ r.config.sections.map Section.heading ↔ ∃ l ∈ before, Opens l type name)

theorem hasRead_nil (name : String) : HasRead { config := { name } } [] :=
  ⟨by simp [HasOpening], by simp⟩

/-- A statement has an effect if it is in place after the lines that have been read. -/
theorem allows_iff (hr : r.HasRead before) (hbefore : IsGrammatical before) {st : Statement} :
    (∃ r', r.apply st = .ok r') ↔ Allows before (some st) := by
  cases st with
  | package name => exact ⟨fun _ => trivial, fun _ => ⟨r, rfl⟩⟩
  | opening type name =>
    have hopens : (∃ r', r.apply (.opening type name) = .ok r') ↔
        ∃ p, r.config.openSection type name = .ok p := by
      simp only [apply, map_eq_ok_iff]
      constructor
      · rintro ⟨_, p, hp, -⟩
        exact ⟨p, hp⟩
      · rintro ⟨p, hp⟩
        exact ⟨_, p, hp, rfl⟩
    rw [hopens, openSection_isOk_iff]
    constructor
    · intro hall m hm other hother hne
      -- The section that the lookup finds is of the type that the line before gives.
      have hmem := (hr.heading other name hne).2 ⟨m, hm, hother⟩
      obtain ⟨previous, hprevious⟩ := exists_findNamed?_of_mem_headings hne hmem
      obtain ⟨l, hl, hl'⟩ := (hr.heading _ name hne).1 (mem_headings_of_findNamed? hprevious).2
      rw [← hall previous hprevious]
      exact hbefore.types l hl m hm previous.type other name hl' hother hne
    · intro hallows previous hprevious
      obtain ⟨hne, hmem⟩ := mem_headings_of_findNamed? hprevious
      obtain ⟨l, hl, hopens⟩ := (hr.heading _ name hne).1 hmem
      exact (hallows l hl previous.type hopens hne).symm
  | setting kind name value =>
    rw [Allows, ← hr.isOpen]
    cases hcurrent : r.current with
    | none => simp [apply, hcurrent]
    | some i => by_cases hname : name = "" <;> simp [apply, hcurrent, hname]

theorem exists_readLine_iff (hr : r.HasRead before) (hbefore : IsGrammatical before) :
    (∃ r', r.readLine line = .ok r') ↔ Fits before line := by
  rw [fits_iff]
  constructor
  · rintro ⟨r', h⟩
    rcases readLine_eq_ok_iff.1 h with ⟨hstates, -⟩ | ⟨st, hstates, h⟩
    · exact ⟨none, hstates, trivial⟩
    · exact ⟨some st, hstates, (allows_iff hr hbefore).1 ⟨r', h⟩⟩
  · rintro ⟨_ | st, hstates, hallows⟩
    · exact ⟨r, readLine_eq_ok_iff.2 (.inl ⟨hstates, rfl⟩)⟩
    · obtain ⟨r', h⟩ := (allows_iff hr hbefore).2 hallows
      exact ⟨r', readLine_eq_ok_iff.2 (.inr ⟨st, hstates, h⟩)⟩

/-- A line that opens no section tells nothing of sections. -/
theorem HasRead.concat (hr : r.HasRead before) (hline : ∀ type name, ¬ Opens line type name)
    (hcurrent : r'.current.isSome ↔ r.current.isSome)
    (hheadings : r'.config.sections.map Section.heading = r.config.sections.map Section.heading) :
    r'.HasRead (before ++ [line]) := by
  refine ⟨?_, fun type name hne => ?_⟩
  · rw [hcurrent, hr.isOpen, hasOpening_concat]
    simp [hline]
  · rw [hheadings, hr.heading type name hne]
    simp [or_and_right, exists_or, hline]

/-- A `config` line adds its heading to those that are there. -/
theorem mem_headings_openSection {c d : Config} {type name : String} {i : Nat}
    (hat : name.toList.head? ≠ some '@') (h : c.openSection type name = .ok (d, i))
    {heading : String × String} (hne : heading.2 ≠ "") :
    heading ∈ d.sections.map Section.heading ↔
      heading ∈ c.sections.map Section.heading ∨ heading = (type, name) := by
  rcases openSection_cases h with ⟨rfl, -⟩ | ⟨rfl, hname, hi, htype⟩
  · simp [push, Section.heading]
  · refine ⟨.inl, fun hmem => hmem.elim id ?_⟩
    rintro rfl
    -- The section that goes by the name has it, and is of the type.
    obtain ⟨hlt, hhere, -⟩ := List.findIdx?_eq_some_iff_getElem.1 hi
    have hgoes : name ∈ c.names := beq_iff_eq.1 hhere ▸ List.getElem_mem hlt
    obtain ⟨previous, hprevious⟩ := findNamed?_of_mem_names hname hat hgoes
    rw [← htype previous hprevious]
    exact (mem_headings_of_findNamed? hprevious).2

theorem HasRead.readLine (hr : r.HasRead before)
    (hat : ∀ type name, Opens line type name → name.toList.head? ≠ some '@')
    (h : r.readLine line = .ok r') : r'.HasRead (before ++ [line]) := by
  rcases readLine_eq_ok_iff.1 h with ⟨hstates, rfl⟩ | ⟨st, hstates, h⟩
  · exact hr.concat (by simp [opens_iff_of_states hstates]) .rfl rfl
  cases st with
  | package name =>
    cases h
    exact hr.concat (by simp [opens_iff_of_states hstates]) .rfl rfl
  | opening type name =>
    obtain ⟨⟨d, i⟩, hopen, rfl⟩ := map_eq_ok_iff.1 h
    have hopens : ∀ type' name', Opens line type' name' ↔ type = type' ∧ name = name' := by
      simp [opens_iff_of_states hstates]
    refine ⟨?_, fun type' name' hne => ?_⟩
    · simp [hasOpening_concat, hopens]
    · rw [mem_headings_openSection (hat type name hstates.1) hopen hne, hr.heading type' name' hne]
      simp [or_and_right, exists_or, hopens, eq_comm]
  | setting kind name value =>
    simp only [apply] at h
    split at h
    · cases h
    · next i hcurrent =>
      split at h
      · cases h
      · cases h
        refine hr.concat (by simp [opens_iff_of_states hstates]) .rfl ?_
        exact headings_changeAt _ i fun s => by cases kind <;> rfl

/-- Lines are read if each one fits those before it, and otherwise the first one is at fault that
does not, whatever lines come after it. -/
theorem readLines_of_hasRead {ls : List (List Char)} (hr : r.HasRead before)
    (hbefore : IsGrammatical before) (number : Nat)
    (hat : ∀ l ∈ ls, ∀ type name, Opens l type name → name.toList.head? ≠ some '@') :
    (IsGrammatical (before ++ ls) ∧ ∃ r', r.readLines number ls = .ok r') ∨
      ∃ mid l rest fault, ls = mid ++ l :: rest ∧ IsGrammatical (before ++ mid) ∧
        ¬ Fits (before ++ mid) l ∧ ∀ more, r.readLines number (mid ++ l :: more) =
          .error (.line r.config.name (number + mid.length) fault) := by
  induction ls generalizing r before number with
  | nil => exact .inl ⟨by simpa using hbefore, r, rfl⟩
  | cons line ls ih =>
    cases hline : r.readLine line with
    | error fault =>
      refine .inr ⟨[], line, ls, fault, rfl, by simpa using hbefore, ?_, fun more => ?_⟩
      · rw [List.append_nil, ← exists_readLine_iff hr hbefore]
        simp [hline]
      · simp [readLines, hline]
    | ok next =>
      have hfits := (exists_readLine_iff hr hbefore).1 ⟨next, hline⟩
      have hnext := hr.readLine (hat line (by simp)) hline
      rcases ih hnext (isGrammatical_concat.2 ⟨hbefore, hfits⟩) (number + 1)
        (fun l hl => hat l (by simp [hl])) with
        ⟨hgrammatical, r', hr'⟩ | ⟨mid, l, rest, fault, rfl, hmid, hl, hread⟩
      · rw [List.append_assoc, List.singleton_append] at hgrammatical
        exact .inl ⟨hgrammatical, r', by simpa only [readLines, hline] using hr'⟩
      · rw [List.append_assoc, List.singleton_append] at hmid hl
        refine .inr ⟨line :: mid, l, rest, fault, rfl, hmid, hl, fun more => ?_⟩
        rw [List.cons_append, readLines, hline]
        simp only [hread, name_of_readLine hline, List.length_cons]
        congr 2
        omega

end Reader

/-- A text is read if and only if its lines follow the grammar. Otherwise the first line is at fault
that does not fit those before it: so is it in every text that begins with the same lines. -/
theorem parse_iff_isGrammatical {name text : String}
    (hat : ∀ l ∈ Text.lines text.toList, ∀ type n, Grammar.Opens l type n →
      n.toList.head? ≠ some '@') :
    ((∃ c, parse name text = .ok c) ↔ Grammar.IsGrammatical (Text.lines text.toList)) ∧
      (¬ Grammar.IsGrammatical (Text.lines text.toList) →
        ∃ before line after fault, Text.lines text.toList = before ++ line :: after ∧
          Grammar.IsGrammatical before ∧ ¬ Grammar.Fits before line ∧
            ∀ other : String, before ++ [line] <+: Text.lines other.toList →
              parse name other = .error (.line name (before.length + 1) fault)) := by
  rcases Reader.readLines_of_hasRead (Reader.hasRead_nil name) Grammar.isGrammatical_nil 1 hat with
    ⟨hgrammatical, r, hr⟩ | ⟨before, line, after, fault, hlines, hbefore, hline, hread⟩
  · rw [List.nil_append] at hgrammatical
    exact ⟨⟨fun _ => hgrammatical, fun _ => ⟨_, map_eq_ok_iff.2 ⟨r, hr, rfl⟩⟩⟩, absurd hgrammatical⟩
  · rw [List.nil_append] at hbefore hline
    have herror : ∀ other : String, before ++ [line] <+: Text.lines other.toList →
        parse name other = .error (.line name (before.length + 1) fault) := by
      rintro other ⟨more, hmore⟩
      rw [parse, ← hmore, List.append_assoc, List.singleton_append, hread more, Nat.add_comm 1]
      rfl
    have hnot : ¬ Grammar.IsGrammatical (Text.lines text.toList) := by
      rw [hlines, ← List.singleton_append, ← List.append_assoc]
      exact fun h => hline (Grammar.isGrammatical_concat.1 h.of_append).2
    refine ⟨⟨?_, fun h => absurd h hnot⟩,
      fun _ => ⟨before, line, after, fault, hlines, hbefore, hline, herror⟩⟩
    rintro ⟨c, hc⟩
    rw [herror text (hlines ▸ by simp)] at hc
    cases hc

/-- A name that comes with two types is at fault on the line of the second one. -/
theorem parse_iff_isGrammatical_two_types :
    let text := "config zone lan\n\toption a b\nconfig rule lan\n"
    (∀ l ∈ Text.lines text.toList, ∀ type n, Grammar.Opens l type n →
        n.toList.head? ≠ some '@') ∧
      ¬ Grammar.IsGrammatical (Text.lines text.toList) ∧
        ∀ other : String, Text.lines text.toList <+: Text.lines other.toList →
          parse "cfg" other = .error (.line "cfg" 3 (.typeChanged "lan" "rule" "zone")) := by
  intro text
  have hparse : parse "cfg" text = .error (.line "cfg" 3 (.typeChanged "lan" "rule" "zone")) := by
    decide +kernel
  have hat : ∀ l ∈ Text.lines text.toList, ∀ type n, Grammar.Opens l type n →
      n.toList.head? ≠ some '@' := by
    have hno : ∀ l ∈ Text.lines text.toList, '@' ∉ l := by decide +kernel
    rintro l hl type n (h | ⟨h, rfl⟩) hhead
    · exact hno l hl (Text.mem_of_mem_words h (by simp) (List.mem_of_head? hhead))
    · cases hhead
  have hnot : ¬ Grammar.IsGrammatical (Text.lines text.toList) := by
    rw [← (parse_iff_isGrammatical hat).1, hparse]
    simp
  obtain ⟨before, line, after, fault, hlines, -, -, herror⟩ :=
    (@parse_iff_isGrammatical "cfg" text hat).2 hnot
  refine ⟨hat, hnot, fun other hother => ?_⟩
  have hbegins : before ++ [line] <+: Text.lines text.toList := ⟨after, by simp [hlines]⟩
  -- The line is the third one, as the text itself is in error there.
  obtain ⟨hlength, rfl⟩ : before.length = 2 ∧ fault = .typeChanged "lan" "rule" "zone" := by
    simpa using (herror text hbegins).symm.trans hparse
  rw [herror other (hbegins.trans hother), hlength]

end Config

end UnifiedConfig
