import UnifiedConfig.Config.Deletion
import UnifiedConfig.Proofs.Lookups
import UnifiedConfig.Proofs.Names

/-!
# What is deleted

Deletion looks for a section by itself. In a single pass over the sections it compares their names
and counts those of the picked type, and it does not tell why a selector picks nothing. Where no
name begins with `@`, the section that it deletes is the one that the selector finds.

The ordinals of the sections of the type that come after the deleted one become less by one, and no
other ordinal changes.

* `placeToDelete?_none`, `placeToDelete?_some`: what the pass looks for.
* `placeToDelete?_eq`: it stops at the place that the selector resolves to.
* `countBefore_eraseIdx`: what is counted before a later place.
* `delete_iff_find`: what a selector deletes, and what is left then.
-/

namespace UnifiedConfig.Config

/-! ## The pass -/

/-- Where nothing is picked, only names count. -/
theorem placeToDelete?_none (name : String) (seen : Nat) (sections : List Section) :
    placeToDelete? name none seen sections = sections.findIdx? (·.hasName name) := by
  induction sections with
  | nil => rfl
  | cons s rest ih => simp only [placeToDelete?, List.findIdx?_cons, ih]

/-- Where no section has the name, only the picked ordinal counts. -/
theorem placeToDelete?_some {name type : String} {seen ordinal : Nat} {sections : List Section}
    (hnames : ∀ s ∈ sections, s.hasName name = false) (hseen : seen ≤ ordinal) :
    placeToDelete? name (some (type, ordinal)) seen sections =
      placeOf? type (ordinal - seen) sections := by
  induction sections generalizing seen with
  | nil => rfl
  | cons s rest ih =>
    have hrest : ∀ t ∈ rest, t.hasName name = false := fun t ht => hnames t (by simp [ht])
    rw [placeToDelete?, if_neg (by simp [hnames s]), placeOf?.eq_def]
    by_cases htype : s.type = type
    · simp only [if_pos htype]
      by_cases heq : seen = ordinal
      · rw [if_pos heq, heq, Nat.sub_self]
      · obtain ⟨left, hleft⟩ : ∃ left, ordinal - seen = left + 1 :=
          ⟨ordinal - seen - 1, by omega⟩
        rw [if_neg heq, ih hrest (by omega), hleft, show ordinal - (seen + 1) = left by omega]
    · simp only [if_neg htype]
      rw [ih hrest hseen]

theorem picked?_of_error {c : Config} {selector : String} {e : SelectorError}
    (h : Selector.readPositional selector = .error e) : c.picked? selector = none := by
  rw [picked?, h]

/-- Where no name begins with `@`, a selector deletes at the place that it resolves to. -/
theorem placeToDelete?_eq {c : Config} (hnames : ∀ s ∈ c.sections, s.name.toList.head? ≠ some '@')
    (selector : String) : placeToDelete? selector (c.picked? selector) 0 c.sections =
      (c.place selector).toOption.join := by
  by_cases hat : selector.toList.head? = some '@'
  · -- No section has the selector for its name, so the pass is all about what is picked.
    have hnone : ∀ s ∈ c.sections, s.hasName selector = false := by
      intro s hs
      rw [Bool.eq_false_iff]
      intro hhas
      exact hnames s hs ((hasName_iff.1 hhas).2 ▸ hat)
    have hnothing : c.sections.findIdx? (·.hasName selector) = none :=
      List.findIdx?_eq_none_iff.2 hnone
    cases hread : Selector.readPositional selector with
    | error e =>
      rw [picked?_of_error hread, placeToDelete?_none, hnothing, place_of_at hat, placePositional,
        hread]
      rfl
    | ok read =>
      obtain ⟨type, index⟩ := read
      rw [place_of_readPositional hread, picked?, hread, placeAt]
      cases hresolve : Selector.resolve index (c.count type) with
      | error e =>
        simp only [hresolve, placeToDelete?_none, hnothing]
        rfl
      | ok ordinal =>
        simp only [hresolve, placeToDelete?_some hnone (Nat.zero_le ordinal), Nat.sub_zero]
        rfl
  · -- A name is no positional selector, so nothing is picked.
    have hpicked : c.picked? selector = none := by
      cases hread : Selector.readPositional selector with
      | error e => exact picked?_of_error hread
      | ok read => exact absurd (head?_of_readPositional hread) hat
    rw [hpicked, placeToDelete?_none, place_of_name hat]
    rfl

/-! ## What is found -/

theorem find_eq_some_iff {c : Config} {selector : String} {s : Section} :
    c.find selector = .ok (some s) ↔
      ∃ i, c.place selector = .ok (some i) ∧ c.sections[i]? = some s := by
  constructor
  · intro h
    unfold find at h
    cases hplace : c.place selector with
    | error e => simp [hplace, Except.map] at h
    | ok place =>
      rw [hplace] at h
      obtain ⟨i, rfl, hs⟩ := Option.bind_eq_some_iff.1 (Except.ok.inj h)
      exact ⟨i, rfl, hs⟩
  · rintro ⟨i, hplace, hs⟩
    exact find_of_place hplace hs

/-- A place that a selector resolves to is one of a section. -/
theorem exists_of_place {c : Config} {selector : String} {i : Nat}
    (h : c.place selector = .ok (some i)) : ∃ s, c.sections[i]? = some s := by
  by_cases hat : selector.toList.head? = some '@'
  · rw [place_of_at hat, placePositional] at h
    cases hread : Selector.readPositional selector with
    | error e => simp [hread, bind, Except.bind] at h
    | ok read =>
      rw [hread] at h
      obtain ⟨_, -, hplace⟩ := placeAt_eq_ok_iff.1 h
      obtain ⟨s, hs, -⟩ := placeOf?_eq_some_iff.1 hplace
      exact ⟨s, hs⟩
  · rw [place_of_name hat, Except.ok.injEq] at h
    rcases placeNamed?_cases c selector with ⟨j, s, hj, hfirst⟩ | ⟨hnone, -⟩
    · rw [hj, Option.some.injEq] at h
      exact ⟨s, h ▸ hfirst.1⟩
    · rw [hnone] at h
      cases h

/-! ## What is left -/

section

variable {c d : Config} {i : Nat} {s : Section} (hd : d.sections = c.sections.eraseIdx i)
include hd

theorem countBefore_eraseIdx_of_le (type : String) {j : Nat} (h : j ≤ i) :
    d.countBefore type j = c.countBefore type j := by
  have htake : d.sections.take j = c.sections.take j := by
    rw [hd]
    apply List.ext_getElem?
    intro k
    simp only [List.getElem?_take]
    split
    · exact List.getElem?_eraseIdx_of_lt (by omega)
    · rfl
  rw [countBefore, countBefore, htake]

/-- Before a later place one section less is counted, if it is of the type. -/
theorem countBefore_eraseIdx (hs : c.sections[i]? = some s) (type : String) {j : Nat}
    (h : i ≤ j) : c.countBefore type (j + 1) =
      d.countBefore type j + if s.type = type then 1 else 0 := by
  obtain ⟨before, after, hsections, rfl⟩ := exists_around hs
  obtain ⟨k, rfl⟩ := Nat.exists_eq_add_of_le h
  have hrest : d.sections = before ++ after := by
    rw [hd, hsections, List.eraseIdx_append_of_length_le (Nat.le_refl _), Nat.sub_self]
    rfl
  rw [countBefore, countBefore, hrest, hsections, Nat.add_assoc, List.take_length_add_append,
    List.take_length_add_append, List.take_succ_cons]
  simp only [List.countP_append, List.countP_cons, beq_iff_eq]
  omega

end

/-- Whether a configuration is what is left of another one without the section at a place. Each
later section of the same type has its ordinal lowered by one, and any other keeps it. -/
structure IsWithout (d c : Config) (i : Nat) (s : Section) : Prop where
  name : d.name = c.name
  tainted : d.tainted = true
  sections : d.sections = c.sections.eraseIdx i
  before : ∀ j, j < i → d.sections[j]? = c.sections[j]? ∧ d.ordinal? j = c.ordinal? j
  after : ∀ j t, i ≤ j → c.sections[j + 1]? = some t → d.sections[j]? = some t ∧
    ∃ ordinal, d.ordinal? j = some ordinal ∧
      c.ordinal? (j + 1) = some (if t.type = s.type then ordinal + 1 else ordinal)

theorem isWithout_of_eraseIdx {c d : Config} {i : Nat} {s : Section}
    (hs : c.sections[i]? = some s) (hsections : d.sections = c.sections.eraseIdx i)
    (hname : d.name = c.name) (htainted : d.tainted = true) : d.IsWithout c i s where
  name := hname
  tainted := htainted
  sections := hsections
  before j hj := by
    have hget : d.sections[j]? = c.sections[j]? := by
      rw [hsections, List.getElem?_eraseIdx_of_lt hj]
    refine ⟨hget, ?_⟩
    simp only [ordinal?, hget, countBefore_eraseIdx_of_le hsections _ (Nat.le_of_lt hj)]
  after j t hj ht := by
    have hget : d.sections[j]? = some t := by
      rw [hsections, List.getElem?_eraseIdx_of_ge hj, ht]
    refine ⟨hget, d.countBefore t.type j, by rw [ordinal?, hget]; rfl, ?_⟩
    rw [ordinal?, ht, Option.map_some, countBefore_eraseIdx hsections hs t.type hj]
    by_cases htype : t.type = s.type
    · rw [if_pos htype, if_pos htype.symm]
    · rw [if_neg htype, if_neg (Ne.symm htype), Nat.add_zero]

/-! ## Deletion -/

/-- Where no name begins with `@`, a selector deletes the section that it finds, and that one alone.
If it finds none, or is in error, nothing changes. -/
theorem delete_iff_find {c : Config} (hnames : ∀ s ∈ c.sections, s.name.toList.head? ≠ some '@')
    (selector : String) :
    ((c.delete selector).1 = true ↔ ∃ s, c.find selector = .ok (some s)) ∧
    (∀ s, c.find selector = .ok (some s) → ∃ i, c.place selector = .ok (some i) ∧
      c.sections[i]? = some s ∧ (c.delete selector).2.IsWithout c i s) ∧
    (c.find selector = .ok none ∨ (∃ e, c.find selector = .error e) →
      c.delete selector = (false, c)) := by
  have hplace := placeToDelete?_eq hnames selector
  have hfound (s : Section) (hs : c.find selector = .ok (some s)) : ∃ i,
      c.place selector = .ok (some i) ∧ c.sections[i]? = some s ∧ c.delete selector =
        (true, { c with sections := c.sections.eraseIdx i, tainted := true }) := by
    obtain ⟨i, hi, hsi⟩ := find_eq_some_iff.1 hs
    refine ⟨i, hi, hsi, ?_⟩
    rw [delete, hplace, hi]
    rfl
  have hnone (h : ∀ s, c.find selector ≠ .ok (some s)) : c.delete selector = (false, c) := by
    have hjoin : (c.place selector).toOption.join = none := by
      cases hselector : c.place selector with
      | error e => rfl
      | ok place =>
        cases place with
        | none => rfl
        | some i =>
          obtain ⟨s, hs⟩ := exists_of_place hselector
          exact absurd (find_of_place hselector hs) (h s)
    rw [delete, hplace, hjoin]
  refine ⟨⟨fun hdeleted => ?_, ?_⟩, fun s hs => ?_, ?_⟩
  · apply Classical.byContradiction
    intro hnot
    rw [hnone fun s hs => hnot ⟨s, hs⟩] at hdeleted
    cases hdeleted
  · rintro ⟨s, hs⟩
    obtain ⟨_, -, -, hdelete⟩ := hfound s hs
    rw [hdelete]
  · obtain ⟨i, hi, hsi, hdelete⟩ := hfound s hs
    rw [hdelete]
    exact ⟨i, hi, hsi, isWithout_of_eraseIdx hsi rfl rfl rfl⟩
  · rintro (hfind | ⟨e, hfind⟩)
    · exact hnone fun s hs => by simp [hfind] at hs
    · exact hnone fun s hs => by simp [hfind] at hs

/-- The first rule of two is deleted by its index from the end, and the second one has ordinal 0
then. An index that is out of range deletes nothing. -/
theorem delete_iff_find_rule :
    let ssh : Section := { type := "rule", name := "ssh" }
    let c : Config :=
      { name := "firewall", sections := [ssh, { type := "zone" }, { type := "rule" }] }
    (c.delete "@rule[-2]").1 = true ∧
      (c.delete "@rule[-2]").2.sections = [{ type := "zone" }, { type := "rule" }] ∧
      (c.delete "@rule[-2]").2.ordinal? 1 = some 0 ∧ c.delete "@rule[2]" = (false, c) := by
  intro ssh c
  have hnames : ∀ s ∈ c.sections, s.name.toList.head? ≠ some '@' := by decide
  obtain ⟨hdeleted, hleft, -⟩ := delete_iff_find hnames "@rule[-2]"
  obtain ⟨-, -, hnothing⟩ := delete_iff_find hnames "@rule[2]"
  have hfind : c.find "@rule[-2]" = .ok (some ssh) := rfl
  obtain ⟨i, hi, -, hwithout⟩ := hleft ssh hfind
  have hplace : c.place "@rule[-2]" = .ok (some 0) := rfl
  obtain rfl : 0 = i := Option.some.inj (Except.ok.inj (hplace.symm.trans hi))
  obtain ⟨-, ordinal, hordinal, hlowered⟩ := hwithout.after 1 { type := "rule" } (by decide) rfl
  have hold : c.ordinal? 2 = some 1 := rfl
  rw [hold, if_pos rfl, Option.some.injEq] at hlowered
  obtain rfl : 0 = ordinal := by omega
  exact ⟨hdeleted.2 ⟨ssh, hfind⟩, hwithout.sections, hordinal, hnothing (.inr ⟨.outOfBounds, rfl⟩)⟩

end UnifiedConfig.Config
