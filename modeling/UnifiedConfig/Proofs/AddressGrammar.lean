import UnifiedConfig.Address

/-!
# The grammar of addresses

An address is a configuration, then a section, a setting in it, and a value, and only a setting
needs a section before it. The grammar is told by the parts: which texts can stand for each of them.
An address is cut at signs that a later part may hold as well, and still there is one way to cut it.

* `readSelector_eq_some_iff`: the section and the setting in what follows the configuration.
* `parse?_eq_some_iff`: an address is read if and only if it is written by parts.
* `parse_iff_isWellFormed`: all of this, and what an address is without its value.
-/

namespace UnifiedConfig.Address

open Text

/-! ## The parts -/

/-- Whether a text can stand for a configuration or for a setting in an address. -/
structure IsPart (part : List Char) : Prop where
  nonempty : part ≠ []
  noDot : '.' ∉ part
  noEquals : '=' ∉ part

/-- Whether a text can stand for a section in an address: a positional selector, which ends at its
first closing bracket, or a name. -/
inductive IsSectionPart : List Char → Prop where
  | positional {inner : List Char} (hclose : ']' ∉ inner) (hequals : '=' ∉ inner) :
      IsSectionPart ('@' :: (inner ++ [']']))
  | named {name : List Char} (hat : name.head? ≠ some '@') (h : IsPart name) : IsSectionPart name

/-- Whether each part of an address can stand for what it does, with no setting without a
section. -/
structure IsWellFormed (a : Address) : Prop where
  config : IsPart a.config.toList
  selector : ∀ s, a.selector = some s → IsSectionPart s.toList
  setting : ∀ o, a.setting = some o → IsPart o.toList
  nested : a.selector = none → a.setting = none

/-- The text of an address with its value. -/
def written (a : Address) : String :=
  a.text ++ (a.value.map ("=" ++ ·)).getD ""

/-- A part with the sign before it, if it is there. -/
def after (sign : Char) (part : Option (List Char)) : List Char :=
  (part.map (sign :: ·)).getD []

theorem cut_eq_iff {sign : Char} {s before : List Char} {part : Option (List Char)} :
    cut sign s = (before, part) ↔ sign ∉ before ∧ s = before ++ after sign part := by
  cases part with
  | none =>
    rw [cut_eq_none_iff]
    constructor
    · rintro ⟨hmem, rfl⟩
      exact ⟨hmem, by simp [after]⟩
    · rintro ⟨hmem, rfl⟩
      exact ⟨by simpa [after] using hmem, by simp [after]⟩
  | some part => exact cut_eq_some_iff

theorem IsSectionPart.ne_nil {s : List Char} (h : IsSectionPart s) : s ≠ [] := by
  cases h with
  | positional => simp
  | named _ h => exact h.nonempty

theorem IsSectionPart.noEquals {s : List Char} (h : IsSectionPart s) : '=' ∉ s := by
  cases h with
  | positional _ hequals => simpa using hequals
  | named _ h => exact h.noEquals

/-! ## The section and the setting -/

/-- What is cut from a text without a `=` stands for a section, unless it is empty. -/
theorem cutSelector_eq_some_iff {tail selector : List Char} {setting : Option (List Char)}
    (hequals : '=' ∉ tail) (hne : selector ≠ []) :
    cutSelector tail = some (selector, setting) ↔
      IsSectionPart selector ∧ tail = selector ++ after '.' setting := by
  have hhead : (selector ++ after '.' setting).head? = selector.head? := by
    cases selector with
    | nil => exact absurd rfl hne
    | cons c s => rfl
  constructor
  · intro h
    unfold cutSelector at h
    split at h
    · next hat =>
      -- The bracket that is cut at is not the first character, as that is the `@`.
      have hpositional {before rest : List Char} (hcut : cut ']' tail = (before, some rest)) :
          IsSectionPart (before ++ [']']) ∧ tail = before ++ [']'] ++ rest := by
        obtain ⟨hclose, rfl⟩ := cut_eq_some_iff.1 hcut
        cases before with
        | nil => simp at hat
        | cons c inner =>
          obtain rfl : c = '@' := by simpa using hat
          simp only [List.cons_append, List.mem_cons, not_or, List.mem_append] at hclose hequals
          exact ⟨.positional hclose.2 hequals.2.1, by simp⟩
      split at h
      · cases h
      · next hcut =>
        cases h
        simpa [after] using hpositional hcut
      · next hcut =>
        cases h
        simpa [after] using hpositional hcut
      · cases h
    · next hat =>
      obtain ⟨hdot, rfl⟩ := cut_eq_iff.1 (Option.some.inj h)
      simp only [List.mem_append, not_or] at hequals
      refine ⟨.named ?_ ⟨hne, hdot, hequals.1⟩, rfl⟩
      rwa [hhead] at hat
  · rintro ⟨hselector, rfl⟩
    cases hselector with
    | @positional inner hclose _ =>
      have hcut : cut ']' ('@' :: (inner ++ [']']) ++ after '.' setting) =
          ('@' :: inner, some (after '.' setting)) :=
        cut_eq_some_iff.2 ⟨by simp [hclose], by simp⟩
      rw [cutSelector, if_pos (by rw [hhead]; rfl), hcut]
      cases setting <;> rfl
    | named hat h =>
      rw [cutSelector, if_neg (by rwa [hhead]),
        cut_eq_iff.2 ⟨h.noDot, rfl⟩]

/-- The section and the setting are read if each can stand for what it does. -/
theorem readSelector_eq_some_iff {tail selector : List Char} {setting : Option (List Char)}
    (hequals : '=' ∉ tail) :
    readSelector tail = some (selector, setting) ↔
      IsSectionPart selector ∧ (∀ o, setting = some o → IsPart o) ∧
        tail = selector ++ after '.' setting := by
  constructor
  · intro h
    unfold readSelector at h
    split at h
    · cases h
    · cases h
    · next hempty hcut =>
      cases h
      obtain ⟨hselector, htail⟩ := (cutSelector_eq_some_iff hequals hempty).1 hcut
      exact ⟨hselector, by simp, htail⟩
    · next first o hempty hcut =>
      split at h
      · cases h
      · next ho =>
        cases h
        obtain ⟨hselector, rfl⟩ := (cutSelector_eq_some_iff hequals hempty).1 hcut
        rw [not_or] at ho
        have hnoEquals : '=' ∉ o := fun hmem => hequals (by simp [after, hmem])
        refine ⟨hselector, ?_, rfl⟩
        rintro _ ⟨⟩
        exact ⟨ho.1, ho.2, hnoEquals⟩
  · rintro ⟨hselector, hsetting, htail⟩
    have hcut := (cutSelector_eq_some_iff hequals hselector.ne_nil).2 ⟨hselector, htail⟩
    have hne := hselector.ne_nil
    unfold readSelector
    rw [hcut]
    cases setting with
    | none => simp
    | some o =>
      have ho := hsetting o rfl
      simp [ho.nonempty, ho.noDot]

/-! ## The whole address -/

/-- What follows the configuration in an address. -/
def tail (a : Address) : Option (List Char) :=
  a.selector.map fun s => s.toList ++ after '.' (a.setting.map String.toList)

theorem IsWellFormed.toList_text {a : Address} (h : a.IsWellFormed) :
    a.text.toList = a.config.toList ++ after '.' a.tail := by
  cases hselector : a.selector with
  | none => simp [text, tail, after, hselector, h.nested hselector]
  | some s => cases hsetting : a.setting <;> simp [text, tail, after, hselector, hsetting]

theorem toList_written (a : Address) :
    a.written.toList = a.text.toList ++ after '=' (a.value.map String.toList) := by
  cases hvalue : a.value <;> simp [written, after, hvalue]

theorem IsWellFormed.toList_written {a : Address} (h : a.IsWellFormed) : a.written.toList =
    a.config.toList ++ after '.' a.tail ++ after '=' (a.value.map String.toList) := by
  rw [Address.toList_written, h.toList_text]

theorem IsWellFormed.noEquals {a : Address} (h : a.IsWellFormed) : '=' ∉ a.text.toList := by
  rw [h.toList_text]
  cases hselector : a.selector with
  | none => simp [tail, after, hselector, h.config.noEquals]
  | some s =>
    have hs := (h.selector s hselector).noEquals
    cases hsetting : a.setting with
    | none => simp [tail, after, hselector, hsetting, h.config.noEquals, hs]
    | some o =>
      simp [tail, after, hselector, hsetting, h.config.noEquals, hs,
        (h.setting o hsetting).noEquals]

/-- An address is read if and only if it is written by parts that can stand for what they do. -/
theorem parse?_eq_some_iff {s : String} {a : Address} :
    parse? s = some a ↔ a.IsWellFormed ∧ s = a.written := by
  constructor
  · intro h
    unfold parse? at h
    rcases hpath : cut '=' s.toList with ⟨path, value⟩
    rcases hconfig : cut '.' path with ⟨config, rest⟩
    obtain ⟨hequals, hs⟩ := cut_eq_iff.1 hpath
    obtain ⟨hdot, rfl⟩ := cut_eq_iff.1 hconfig
    simp only [hpath, hconfig] at h
    rw [List.mem_append, not_or] at hequals
    split at h
    · cases h
    · next hne heq =>
      cases heq
      cases h
      have hparts : IsWellFormed
          { config := String.ofList config, value := value.map String.ofList } :=
        ⟨⟨by simpa using hne, by simpa using hdot, by simpa using hequals.1⟩, by simp, by simp,
          fun _ => rfl⟩
      refine ⟨hparts, String.toList_inj.1 ?_⟩
      rw [hs, hparts.toList_written]
      simp [tail, Function.comp_def]
    · next rest hne heq =>
      cases heq
      obtain ⟨⟨selector, setting⟩, hread, rfl⟩ := Option.map_eq_some_iff.1 h
      have hrest : '=' ∉ rest := by simpa [after] using hequals.2
      obtain ⟨hselector, hsetting, rfl⟩ := (readSelector_eq_some_iff hrest).1 hread
      have hparts : IsWellFormed
          { config := String.ofList config, selector := some (String.ofList selector),
            setting := setting.map String.ofList, value := value.map String.ofList } :=
        ⟨⟨by simpa using hne, by simpa using hdot, by simpa using hequals.1⟩,
          by simpa using hselector, by simpa using hsetting, by simp⟩
      refine ⟨hparts, String.toList_inj.1 ?_⟩
      rw [hs, hparts.toList_written]
      simp [tail, Function.comp_def]
  · rintro ⟨h, rfl⟩
    have hpath : cut '=' a.written.toList = (a.text.toList, a.value.map String.toList) :=
      cut_eq_iff.2 ⟨h.noEquals, toList_written a⟩
    have hconfig : cut '.' a.text.toList = (a.config.toList, a.tail) :=
      cut_eq_iff.2 ⟨h.config.noDot, h.toList_text⟩
    have hne := h.config.nonempty
    unfold parse?
    simp only [hpath, hconfig]
    rcases a with ⟨config, selector, setting, value⟩
    cases selector with
    | none =>
      obtain rfl : setting = none := h.nested rfl
      simp [tail, Function.comp_def]
    | some s =>
      have hread : readSelector (s.toList ++ after '.' (setting.map String.toList)) =
          some (s.toList, setting.map String.toList) := by
        refine (readSelector_eq_some_iff ?_).2 ⟨h.selector s rfl, ?_, rfl⟩
        · have hnoEquals := h.noEquals
          rw [h.toList_text] at hnoEquals
          exact fun hmem => hnoEquals (List.mem_append_right _ (List.mem_cons_of_mem _ hmem))
        · simpa using h.setting
      simp [tail, hread, Function.comp_def]

theorem parse_eq_ok_iff {s : String} {a : Address} :
    parse s = .ok a ↔ a.IsWellFormed ∧ s = a.written := by
  rw [← parse?_eq_some_iff, parse]
  cases parse? s <;> simp

theorem parse_eq_error_iff {s : String} {e : Error} :
    parse s = .error e ↔ (∀ a : Address, a.IsWellFormed → s ≠ a.written) ∧
      e = .refused (.invalidAddress s) := by
  have hnone : parse? s = none ↔ ∀ a : Address, a.IsWellFormed → s ≠ a.written := by
    rw [Option.eq_none_iff_forall_ne_some]
    simp only [Ne, parse?_eq_some_iff, not_and]
  rw [← hnone, parse]
  cases parse? s <;> simp [eq_comm]

/-- Without its value an address is what stands before the first `=`. -/
theorem toList_text_of_parse {s : String} {a : Address} (hparse : parse s = .ok a) :
    a.text.toList = s.toList.takeWhile (· != '=') := by
  obtain ⟨h, rfl⟩ := parse_eq_ok_iff.1 hparse
  have hall : ∀ c ∈ a.text.toList, (c != '=') = true := by
    intro c hc
    rw [bne_iff_ne]
    rintro rfl
    exact h.noEquals hc
  rw [toList_written, List.takeWhile_append_of_pos hall]
  cases a.value <;> simp [after]

theorem parse_text {s : String} {a : Address} (h : parse s = .ok a) :
    parse a.text = .ok { a with value := none } := by
  obtain ⟨h, -⟩ := parse_eq_ok_iff.1 h
  refine parse_eq_ok_iff.2 ⟨⟨h.config, h.selector, h.setting, h.nested⟩, ?_⟩
  simp [written, text]

/-- A text is read as an address if and only if it is written by parts that can stand for what they
do; any other text is refused. There is one way to write an address. Without its value it is what
stands before the first `=`, and is read as the same parts. -/
theorem parse_iff_isWellFormed (s : String) :
    (∀ a, parse s = .ok a ↔ a.IsWellFormed ∧ s = a.written) ∧
    (∀ e, parse s = .error e ↔ (∀ a : Address, a.IsWellFormed → s ≠ a.written) ∧
      e = .refused (.invalidAddress s)) ∧
    (∀ a b : Address, a.IsWellFormed → b.IsWellFormed → s = a.written → s = b.written → a = b) ∧
    ∀ a, parse s = .ok a → a.text.toList = s.toList.takeWhile (· != '=') ∧
      parse a.text = .ok { a with value := none } := by
  refine ⟨fun _ => parse_eq_ok_iff, fun _ => parse_eq_error_iff, ?_, ?_⟩
  · intro a b ha hb hsa hsb
    have hread := parse_eq_ok_iff.2 ⟨ha, hsa⟩
    rw [parse_eq_ok_iff.2 ⟨hb, hsb⟩] at hread
    exact (Except.ok.inj hread).symm
  · intro a h
    exact ⟨toList_text_of_parse h, parse_text h⟩

/-- The type has a dot, and a second `=` belongs to the value. -/
theorem parse_iff_isWellFormed_dotted_type :
    let s := "x.@a.b[-1].opt=a=b.c"
    let a : Address :=
      { config := "x", selector := some "@a.b[-1]", setting := some "opt", value := some "a=b.c" }
    parse s = .ok a ∧ a.IsWellFormed ∧ s = a.written ∧
      (∀ b : Address, b.IsWellFormed → s = b.written → b = a) ∧
      a.text.toList = s.toList.takeWhile (· != '=') ∧
      parse "x.@a.b[-1].opt" = .ok { a with value := none } := by
  intro s a
  have hread : parse? s = some a := by decide +kernel
  have hparse : parse s = .ok a := by rw [parse, hread]
  obtain ⟨hok, -, hunique, htext⟩ := parse_iff_isWellFormed s
  obtain ⟨hparts, hwritten⟩ := (hok a).1 hparse
  exact ⟨hparse, hparts, hwritten, fun b hb hs => hunique b a hb hparts hs hwritten,
    htext a hparse⟩

end UnifiedConfig.Address
