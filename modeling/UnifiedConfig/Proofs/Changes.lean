import UnifiedConfig.Config.Deletion
import UnifiedConfig.Config.Edit

/-!
# What edits make of a configuration

An edit hands out the one section that its selector picks, and that section is changed where it is.
A section that is added comes last, and one that is deleted leaves the others in their order. Where
there is nothing to edit the configuration stays what it is, and is not tainted.

* `edit_eq_ok`, `editSection_eq_ok`, `deleteSetting_eq_ok`: one section is changed, or none is.
* `addSection_named_cases`: a section of the name is there already, or is appended.
* `delete_cases`: one section is deleted, or none is.
-/

namespace UnifiedConfig.Config

variable {c c' : Config} {selector : String}

/-- The section that is put back is the change of the one that is there. -/
theorem changeAt_const {i : Nat} {s : Section} (hs : c.sections[i]? = some s)
    (change : Section → Section) : c.changeAt i (fun _ => change s) = c.changeAt i change := by
  simp only [changeAt, Config.mk.injEq, true_and, and_true]
  apply List.ext_getElem?
  intro j
  rw [List.getElem?_modify, List.getElem?_modify]
  by_cases hij : i = j
  · simp [← hij, hs]
  · simp [hij]

/-- Whether a section has been handed out and changed, or none has. -/
def Edited (c : Config) (change : Section → Section) (c' : Config) : Prop :=
  c' = c ∨ ∃ i, c' = (c.changeAt i change).taint

/-- A section that is handed out is the only one that is changed. -/
theorem edit_eq_ok {α : Type} {change : Section → α × Section} {a : Option α}
    (h : c.edit selector change = .ok (a, c')) : c.Edited (fun s => (change s).2) c' := by
  unfold edit at h
  cases hplace : c.place selector with
  | error fault => simp [hplace, bind, Except.bind] at h
  | ok place =>
    rw [hplace] at h
    simp only [bind, Except.bind, pure, Except.pure] at h
    split at h
    · cases h
      exact .inl rfl
    · next i =>
      split at h
      · next hnone =>
        cases h
        have hlength : c.sections.length ≤ i := List.getElem?_eq_none_iff.1 hnone
        exact .inr ⟨i, by rw [changeAt, List.modify_eq_self hlength]⟩
      · next s hs =>
        cases h
        exact .inr ⟨i, by rw [changeAt_const hs fun s => (change s).2]⟩

theorem editSection_eq_ok {change : Section → Section} {u : Unit}
    (h : c.editSection selector change = .ok (u, c')) : c.Edited change c' := by
  unfold editSection at h
  split at h
  · cases h
  · cases h
  · next hedit =>
    cases h
    exact edit_eq_ok hedit

theorem deleteSetting_eq_ok {setting : String} {removed : Bool}
    (h : c.deleteSetting selector setting = .ok (removed, c')) :
    c.Edited (·.erase setting) c' := by
  unfold deleteSetting at h
  split at h
  · cases h
  · split at h
    · split at h
      · cases h
      · next hedit =>
        cases h
        exact edit_eq_ok hedit
    · cases h
      exact .inl rfl

/-- A section that is added by a name is there already, or is appended. -/
theorem addSection_named_cases {type name n : String}
    (h : c.addSection type (some name) = .ok (n, c')) :
    n = name ∧ name ≠ "" ∧ name.toList.head? ≠ some '@' ∧
      ((∃ s, c.findNamed? name = some s ∧ s.type = type ∧ c' = c) ∨
        (c.findNamed? name = none ∧ c' = c.push { type, name })) := by
  simp only [addSection] at h
  split at h
  · cases h
  · next hname =>
    rw [not_or] at hname
    split at h
    · next hnew =>
      cases h
      exact ⟨rfl, hname.1, hname.2, .inr ⟨hnew, rfl⟩⟩
    · next s hs =>
      split at h
      · next htype =>
        cases h
        exact ⟨rfl, hname.1, hname.2, .inl ⟨s, hs, htype, rfl⟩⟩
      · cases h

theorem delete_cases (c : Config) (selector : String) : (c.delete selector).2 = c ∨
    ∃ i, (c.delete selector).2 =
      { c with sections := c.sections.eraseIdx i, tainted := true } := by
  unfold delete
  split
  · next i _ => exact .inr ⟨i, rfl⟩
  · exact .inl rfl

end UnifiedConfig.Config
