/-!
# Cutting a text

A text is cut at the first place where a separator stands, at the last one, or at all of them; the
separator itself belongs to no part.

* `cut_eq_some_iff`, `cut_eq_none_iff`: what a cut at the first place gives.
* `cutLast_eq_some_iff`, `cutLast_eq_none_iff`: what a cut at the last place gives.
-/

namespace UnifiedConfig.Text

/-- Puts a character in front of the first part, which begins here if there is none. -/
def extendFirst (c : Char) : List (List Char) → List (List Char)
  | [] => [[c]]
  | part :: rest => (c :: part) :: rest

/-- The parts between the separators. There is at least one. -/
def splitAll (separator : Char) : List Char → List (List Char)
  | [] => [[]]
  | c :: rest =>
    if c = separator then [] :: splitAll separator rest
    else extendFirst c (splitAll separator rest)

/-- The part before the first `separator`, and the part after it if there is one. -/
def cut (separator : Char) : List Char → List Char × Option (List Char)
  | [] => ([], none)
  | c :: rest =>
    if c = separator then ([], some rest)
    else ((c :: (cut separator rest).1), (cut separator rest).2)

/-- The parts before and after the last `separator`, if there is one. -/
def cutLast (separator : Char) : List Char → Option (List Char × List Char)
  | [] => none
  | c :: rest =>
    match cutLast separator rest with
    | some (before, after) => some (c :: before, after)
    | none => if c = separator then some ([], rest) else none

theorem cut_eq_none_iff {separator : Char} {s before : List Char} :
    cut separator s = (before, none) ↔ separator ∉ s ∧ before = s := by
  induction s generalizing before with
  | nil => simp [cut, eq_comm]
  | cons c rest ih =>
    by_cases hc : c = separator
    · simp [cut, hc]
    · have hc' : separator ≠ c := fun h => hc h.symm
      rw [cut, if_neg hc, Prod.mk.injEq]
      constructor
      · rintro ⟨rfl, hnone⟩
        have h := ih.1 (Prod.ext rfl hnone : cut separator rest = ((cut separator rest).1, none))
        exact ⟨by simp [hc', h.1], by rw [h.2]⟩
      · rintro ⟨hmem, rfl⟩
        have h := ih.2 ⟨fun h => hmem (by simp [h]), rfl⟩
        simp [h]

theorem cut_eq_some_iff {separator : Char} {s before after : List Char} :
    cut separator s = (before, some after) ↔
      separator ∉ before ∧ s = before ++ separator :: after := by
  induction s generalizing before with
  | nil => simp [cut]
  | cons c rest ih =>
    by_cases hc : c = separator
    · subst hc
      cases before <;> simp +contextual [cut, eq_comm]
    · have hc' : separator ≠ c := fun h => hc h.symm
      rw [cut, if_neg hc, Prod.mk.injEq]
      constructor
      · rintro ⟨rfl, hsome⟩
        have h := ih.1
          (Prod.ext rfl hsome : cut separator rest = ((cut separator rest).1, some after))
        exact ⟨by simp [hc', h.1], by rw [List.cons_append, ← h.2]⟩
      · rintro ⟨hmem, hs⟩
        cases before with
        | nil => exact absurd (List.cons.inj hs).1 hc
        | cons b before =>
          obtain ⟨rfl, hrest⟩ := List.cons.inj hs
          have h := ih.2 ⟨fun h => hmem (by simp [h]), hrest⟩
          simp [h]

theorem cutLast_eq_none_iff {separator : Char} {s : List Char} :
    cutLast separator s = none ↔ separator ∉ s := by
  induction s with
  | nil => simp [cutLast]
  | cons c rest ih =>
    cases h : cutLast separator rest with
    | some parts =>
      have hmem : separator ∈ rest := Classical.not_not.1 fun hn => by simp [ih.2 hn] at h
      simp [cutLast, h, hmem]
    | none =>
      have hmem := ih.1 h
      by_cases hc : c = separator
      · simp [cutLast, h, hc]
      · simp [cutLast, h, hc, hmem, Ne.symm hc]

theorem cutLast_eq_some_iff {separator : Char} {s before after : List Char} :
    cutLast separator s = some (before, after) ↔
      separator ∉ after ∧ s = before ++ separator :: after := by
  induction s generalizing before after with
  | nil => simp [cutLast]
  | cons c rest ih =>
    cases h : cutLast separator rest with
    | some parts =>
      obtain ⟨b, a⟩ := parts
      have hparts := ih.1 h
      constructor
      · intro hs
        simp only [cutLast, h, Option.some.injEq, Prod.mk.injEq] at hs
        obtain ⟨rfl, rfl⟩ := hs
        exact ⟨hparts.1, by simp [hparts.2]⟩
      · rintro ⟨hafter, hs⟩
        cases before with
        | nil =>
          obtain ⟨rfl, rfl⟩ := List.cons.inj hs
          exact absurd (by rw [hparts.2]; simp) hafter
        | cons d before =>
          obtain ⟨rfl, hrest⟩ := List.cons.inj hs
          have := h.symm.trans (ih.2 ⟨hafter, hrest⟩)
          simp only [Option.some.injEq, Prod.mk.injEq] at this
          simp [cutLast, h, this]
    | none =>
      have hrest := cutLast_eq_none_iff.1 h
      simp only [cutLast, h]
      constructor
      · split
        · next hc =>
          intro hs
          simp only [Option.some.injEq, Prod.mk.injEq] at hs
          obtain ⟨rfl, rfl⟩ := hs
          exact ⟨hrest, by simp [hc]⟩
        · simp
      · rintro ⟨hafter, hs⟩
        cases before with
        | nil =>
          obtain ⟨rfl, rfl⟩ := List.cons.inj hs
          simp
        | cons d before =>
          obtain ⟨rfl, htail⟩ := List.cons.inj hs
          exact absurd (by simp [htail] : separator ∈ rest) hrest

end UnifiedConfig.Text
