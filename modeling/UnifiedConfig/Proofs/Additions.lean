import UnifiedConfig.Proofs.Lookups
import UnifiedConfig.Proofs.Requests

/-!
# The name of an added section

Whoever adds a section gets a name back. A name that was given is returned as it is, and it finds
the section that has it, be it an old one or the one just appended. A section that is added without
a name is the last one of its type, so its ordinal is the number of sections of the type before, and
it goes by the synthetic name with that ordinal.

A synthetic name is a positional selector only if the type can stand in one. Types are not looked at
when a section is added: one with an `@` or a bracket in it is taken, and the name that is returned
finds nothing.

* `readPositional_text_iff`: when a synthetic name is a selector, and what it selects.
* `place_of_addSection_named`: a name that is given finds a section of the type.
* `addSection_finds_iff`: when the section that was added is found by the name that is returned.
-/

namespace UnifiedConfig

open Text

/-! ## Synthetic names -/

namespace Text

theorem numeral_toDigits_iff {n : Nat} {k : Int} : Numeral (Nat.toDigits 10 n) k ↔ k = n := by
  constructor
  · intro h
    have hplus : '+' ∉ Nat.toDigits 10 n := notMem_toDigits (by decide) n
    have hminus : '-' ∉ Nat.toDigits 10 n := notMem_toDigits (by decide) n
    generalize hdigits : Nat.toDigits 10 n = digits at h hplus hminus
    cases h with
    | plain => rw [← hdigits, Nat.ofDigitChars_ten_toDigits]
    | plus => simp at hplus
    | minus => simp at hminus
  · rintro rfl
    exact numeral_toDigits n

end Text

namespace Selector

/-- A synthetic name can be read as a selector in one way at most. -/
theorem isPositional_text_iff {type other : String} {ordinal : Nat} {index : Int} :
    IsPositional (SyntheticName.text type ordinal) other index ↔
      other = type ∧ index = ordinal ∧ Admits type ∧ (ordinal : Int) ≤ int64Max := by
  constructor
  · rintro ⟨hadmits, ⟨numeral, htext, hnumeral⟩, -, hfits⟩
    -- Both ways of writing the text have their last `[` in front of the digits.
    have hopen : '[' ∉ numeral := notMem_of_numeral hnumeral (by decide) (by decide) (by decide)
    have hcut : cutLast '[' (SyntheticName.text type ordinal).toList =
        some ('@' :: other.toList, numeral ++ [']']) :=
      cutLast_eq_some_iff.2 ⟨by simp [hopen], by simp [htext]⟩
    rw [SyntheticName.cutLast_text] at hcut
    simp only [Option.some.injEq, Prod.mk.injEq, List.cons.injEq, true_and,
      List.append_cancel_right_eq, String.toList_inj] at hcut
    rcases hcut with ⟨rfl, rfl⟩
    obtain rfl := numeral_toDigits_iff.1 hnumeral
    exact ⟨rfl, rfl, hadmits, hfits⟩
  · rintro ⟨rfl, rfl, hadmits, hfits⟩
    have hleast : int64Min ≤ 0 := by decide
    exact ⟨hadmits, ⟨_, SyntheticName.toList_text other ordinal, numeral_toDigits ordinal⟩,
      by omega, hfits⟩

/-- A synthetic name is a selector if its type can stand in one and its ordinal fits. -/
theorem readPositional_text_iff {type other : String} {ordinal : Nat} {index : Int} :
    readPositional (SyntheticName.text type ordinal) = .ok (other, index) ↔
      other = type ∧ index = ordinal ∧ Admits type ∧ (ordinal : Int) ≤ int64Max :=
  readPositional_eq_ok_iff.trans isPositional_text_iff

end Selector

namespace Config

variable {c c' : Config} {type name : String}

/-! ## Sections without a name -/

/-- The last section of a type is found at the ordinal that it was appended with. -/
theorem place_text_push (hadmits : Selector.Admits type) (hfits : (c.count type : Int) ≤ int64Max) :
    (c.push { type }).place (SyntheticName.text type (c.count type)) =
      .ok (some c.sections.length) := by
  have hsections : (c.push { type }).sections = c.sections ++ [({ type } : Section)] := rfl
  have hread := Selector.readPositional_text_iff.2 ⟨rfl, rfl, hadmits, hfits⟩
  have hcount : (c.push { type }).count type = c.count type + 1 := by
    simp [count, hsections, List.countP_append]
  rw [place_of_readPositional hread, placeAt_eq_ok_iff]
  refine ⟨c.count type, Selector.resolve_eq_ok_iff.2 ⟨by omega, by omega, ?_⟩, ?_⟩
  · rw [if_neg (by omega)]
  · exact placeOf?_eq_some_iff.2 ⟨{ type }, by simp [hsections], rfl, by simp [hsections, count]⟩

/-- A synthetic name that is no selector finds nothing. -/
theorem find_text_eq_error {ordinal : Nat}
    (h : ¬ (Selector.Admits type ∧ (ordinal : Int) ≤ int64Max)) :
    ∃ e, c.find (SyntheticName.text type ordinal) = .error e := by
  have hat : (SyntheticName.text type ordinal).toList.head? = some '@' := by
    rw [SyntheticName.toList_text]
    rfl
  cases hread : Selector.readPositional (SyntheticName.text type ordinal) with
  | error e => exact ⟨e, (find_resolves c _).2.1 hat e hread⟩
  | ok read =>
    have hiff := Selector.readPositional_text_iff.1 hread
    exact absurd ⟨hiff.2.2.1, hiff.2.2.2⟩ h

/-! ## Sections with a name -/

/-- The first section of a name is the one at the place that the name stands for. -/
theorem findNamed?_eq_bind (c : Config) (name : String) :
    c.findNamed? name = (c.placeNamed? name).bind (c.sections[·]?) :=
  List.find?_eq_bind_findIdx?_getElem?

/-- A section that is appended under a new name is the first one that has it. -/
theorem placeNamed?_push (hne : name ≠ "") (hnew : c.findNamed? name = none) :
    (c.push { type, name }).placeNamed? name = some c.sections.length := by
  have hnone : c.sections.findIdx? (·.hasName name) = none := by
    rw [List.findIdx?_eq_none_iff]
    intro s hs
    simpa using List.find?_eq_none.1 hnew s hs
  have hself : Section.hasName { type, name } name = true := hasName_iff.2 ⟨hne, rfl⟩
  simp [placeNamed?, push, List.findIdx?_append, hnone, hself]

/-- After a section is added by a name, the name finds a section of the type. -/
theorem place_of_addSection_named {n : String}
    (h : c.addSection type (some name) = .ok (n, c')) :
    ∃ i t, c'.place name = .ok (some i) ∧ c'.sections[i]? = some t ∧ t.type = type ∧
      t.name = name := by
  rcases addSection_named_cases h with ⟨rfl, hne, hat, ⟨s, hs, htype, rfl⟩ | ⟨hnew, rfl⟩⟩
  · rw [findNamed?_eq_bind, Option.bind_eq_some_iff] at hs
    rcases hs with ⟨i, hi, hs⟩
    rcases placeNamed?_cases c' n with ⟨j, t, hj, ht, -, hname, -⟩ | ⟨hnone, -⟩
    · obtain rfl := Option.some.inj (hj.symm.trans hi)
      obtain rfl := Option.some.inj (ht.symm.trans hs)
      exact ⟨j, t, by rw [place_of_name hat, hj], ht, htype, hname⟩
    · rw [hnone] at hi
      cases hi
  · refine ⟨c.sections.length, { type, name := n }, ?_, ?_, rfl, rfl⟩
    · rw [place_of_name hat, placeNamed?_push hne hnew]
    · simp [push]

/-! ## Whatever is added -/

/-- Whether a name finds a section that was added to a configuration `c`, which `c'` is after it:
the section is of the type that was asked for; it has the name that was given, which is the one that
finds it; and where none was given, it is unnamed, and was appended at the end. -/
structure FindsAdded (c c' : Config) (type : String) (given : Option String) (n : String) (i : Nat)
    (t : Section) : Prop where
  place : c'.place n = .ok (some i)
  find : c'.find n = .ok (some t)
  type : t.type = type
  appended : given = none → t.name = "" ∧ i = c.sections.length ∧ c'.sections = c.sections ++ [t]
  named : ∀ name, given = some name → n = name ∧ t.name = name

/-- The name that is returned finds the section, unless the section is unnamed and its synthetic
name is no selector; then the name is refused. -/
theorem findsAdded_iff {given : Option String} {n : String}
    (h : c.addSection type given = .ok (n, c')) :
    ((∃ i t, FindsAdded c c' type given n i t) ↔
        (given = none → Selector.Admits type ∧ (c.count type : Int) ≤ int64Max)) ∧
      (given = none → ¬ (Selector.Admits type ∧ (c.count type : Int) ≤ int64Max) →
        ∃ e, c'.find n = .error e) := by
  cases given with
  | none =>
    cases h
    have hrefused := @find_text_eq_error (c.push { type }) type (c.count type)
    refine ⟨⟨fun ⟨i, t, hfinds⟩ _ => ?_, fun hcond => ?_⟩, fun _ => hrefused⟩
    · apply Classical.byContradiction
      intro hnot
      rcases hrefused hnot with ⟨e, he⟩
      have hfind := hfinds.find
      rw [he] at hfind
      cases hfind
    · have hplace := @place_text_push c type (hcond rfl).1 (hcond rfl).2
      have hlast : (c.push { type }).sections[c.sections.length]? = some { type } := by
        simp [push]
      exact ⟨c.sections.length, { type }, hplace, find_of_place hplace hlast, rfl,
        fun _ => ⟨rfl, rfl, rfl⟩, fun _ h => by cases h⟩
  | some name =>
    obtain rfl := (addSection_named_cases h).1
    rcases place_of_addSection_named h with ⟨i, t, hplace, ht, htype, hname⟩
    refine ⟨iff_of_true ⟨i, t, hplace, find_of_place hplace ht, htype, ?_, ?_⟩ ?_, ?_⟩
    · exact fun h => by cases h
    · rintro _ ⟨⟩
      exact ⟨rfl, hname⟩
    · exact fun h => by cases h
    · exact fun h => by cases h

end Config

namespace Store

/-- After a section is added to a configuration, the configuration is loaded with it. -/
theorem addSection_eq_ok {s s' : Store} {d : Disk} {config type n : String} {given : Option String}
    (h : s.addSection d config type given = (.ok n, s')) :
    ∃ c s₁ c', s.ensure d config = .ok (c, s₁) ∧ c.addSection type given = .ok (n, c') ∧
      s'.load d config = .ok (c', s') := by
  unfold addSection at h
  split at h
  · cases h
  · unfold edit at h
    split at h
    · cases h
    · next c s₁ hopened =>
      split at h
      · cases h
      · next a c' hadded =>
        cases h
        refine ⟨c, s₁, c', hopened, hadded, ?_⟩
        have hname := (ensure_eq_ok hopened).1
        have hfound := Loaded.find?_put_self s₁.loaded config c'
        simp [load, openWith, configPath, hname, hfound]

/-- When a section has been added, the name that is returned finds it in the configuration, which is
loaded from then on: always if a name was given, and for an unnamed section if its type can stand in
a selector and the number of sections of the type fits 64 bits. Else the name is refused. -/
theorem addSection_finds_iff {s s' : Store} {d : Disk} {config type n : String}
    {given : Option String} (h : s.addSection d config type given = (.ok n, s')) :
    ∃ c s₁ c', s.ensure d config = .ok (c, s₁) ∧ s'.load d config = .ok (c', s') ∧
      ((∃ i t, Config.FindsAdded c c' type given n i t) ↔
        (given = none → Selector.Admits type ∧ (c.count type : Int) ≤ int64Max)) ∧
      (given = none → ¬ (Selector.Admits type ∧ (c.count type : Int) ≤ int64Max) →
        ∃ e, c'.find n = .error e) := by
  rcases addSection_eq_ok h with ⟨c, s₁, c', hopened, hadded, hloaded⟩
  exact ⟨c, s₁, c', hopened, hloaded, Config.findsAdded_iff hadded⟩

/-- A second rule is the rule at the ordinal 1. -/
theorem addSection_finds_iff_rule :
    let rules : Config := { name := "firewall", sections := [{ type := "rule" }] }
    let s : Store := { dir := ⟨"conf"⟩, loaded := [("firewall", rules)] }
    ∃ s' c', s.addSection Disk.empty "firewall" "rule" none = (.ok "@rule[1]", s') ∧
      s'.load Disk.empty "firewall" = .ok (c', s') ∧
      ∃ i t, Config.FindsAdded rules c' "rule" none "@rule[1]" i t := by
  intro rules s
  have htext : SyntheticName.text "rule" 1 = "@rule[1]" := by decide +kernel
  have hadd : s.addSection Disk.empty "firewall" "rule" none = (.ok "@rule[1]",
      { s with loaded := [("firewall", rules.push { type := "rule" })] }) := by
    rw [← htext]
    rfl
  rcases addSection_finds_iff hadd with ⟨c, s₁, c', hopened, hloaded, hiff, -⟩
  have hrules : s.ensure Disk.empty "firewall" = .ok (rules, s) := by rfl
  rw [hrules] at hopened
  cases hopened
  exact ⟨_, c', hadd, hloaded, hiff.2 fun _ => by decide⟩

/-- A bracket in the type is not noticed before the name is used. -/
theorem not_addSection_finds :
    ¬ ∀ (s s' : Store) (d : Disk) (config type n : String) (given : Option String),
      s.addSection d config type given = (.ok n, s') →
      ∃ c s₁ c', s.ensure d config = .ok (c, s₁) ∧ s'.load d config = .ok (c', s') ∧
        ∃ i t, Config.FindsAdded c c' type given n i t := by
  intro h
  let c : Config := { name := "a" }
  let s : Store := { dir := ⟨"conf"⟩, loaded := [("a", c)] }
  let c' : Config := c.push { type := "a[b" }
  have htext : SyntheticName.text "a[b" 0 = "@a[b[0]" := by decide +kernel
  have hadd : s.addSection Disk.empty "a" "a[b" none = (.ok "@a[b[0]",
      { s with loaded := [("a", c')] }) := by
    rw [← htext]
    rfl
  rcases h _ _ _ _ _ _ _ hadd with ⟨d, s₁, d', -, hloaded, i, t, hfinds⟩
  have hload : Store.load { s with loaded := [("a", c')] } Disk.empty "a" =
      .ok (c', { s with loaded := [("a", c')] }) := by rfl
  rw [hload] at hloaded
  cases hloaded
  have hrefused : c'.find "@a[b[0]" = .error .secondOpenBracket := by rfl
  have hfind := hfinds.find
  rw [hrefused] at hfind
  cases hfind

end Store

end UnifiedConfig
