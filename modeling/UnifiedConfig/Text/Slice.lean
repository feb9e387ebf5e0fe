/-!
# Slices of a text

A text is stored in UTF-8, where a character takes one to four bytes. A slice is the part between
two offsets, which are counted in bytes. There is no slice at an offset that lies inside of a
character or past the end, and none that would end before it begins.

* `cutBytes?_eq_some_iff`: a text can be cut where a character begins, and at its end.
* `slice?_eq_some_iff`: what is sliced off.
-/

namespace UnifiedConfig.Text

/-- The number of bytes of a text. -/
def byteLength (s : List Char) : Nat :=
  (String.ofList s).utf8ByteSize

/-- The parts of a text before and after an offset. -/
def cutBytes? : Nat → List Char → Option (List Char × List Char)
  | 0, s => some ([], s)
  | _ + 1, [] => none
  | n + 1, c :: s =>
    if c.utf8Size ≤ n + 1 then
      (cutBytes? (n + 1 - c.utf8Size) s).map fun (before, after) => (c :: before, after)
    else none

/-- The part of a text between two offsets. -/
def slice? (start stop : Nat) (s : List Char) : Option (List Char) :=
  (cutBytes? start s).bind fun parts =>
    if start ≤ stop then (cutBytes? (stop - start) parts.2).map (·.1) else none

@[simp] theorem byteLength_nil : byteLength [] = 0 := rfl

@[simp] theorem byteLength_cons (c : Char) (s : List Char) :
    byteLength (c :: s) = c.utf8Size + byteLength s := by
  simp [byteLength, String.ofList_cons]

@[simp] theorem byteLength_append (s t : List Char) :
    byteLength (s ++ t) = byteLength s + byteLength t := by
  simp [byteLength, String.ofList_append]

theorem byteLength_toList (s : String) : byteLength s.toList = s.utf8ByteSize := by
  rw [byteLength, String.ofList_toList]

theorem byteLength_eq_zero {s : List Char} : byteLength s = 0 ↔ s = [] := by
  simp [byteLength]

theorem cutBytes?_eq_some_iff {n : Nat} {s before after : List Char} :
    cutBytes? n s = some (before, after) ↔ s = before ++ after ∧ byteLength before = n := by
  have hzero {s before after : List Char} :
      cutBytes? 0 s = some (before, after) ↔ s = before ++ after ∧ byteLength before = 0 := by
    rw [byteLength_eq_zero, cutBytes?]
    constructor
    · intro h
      cases h
      exact ⟨rfl, rfl⟩
    · rintro ⟨rfl, rfl⟩
      rfl
  induction s generalizing n before after with
  | nil =>
    cases n with
    | zero => exact hzero
    | succ n => cases before <;> simp [cutBytes?]
  | cons c s ih =>
    cases n with
    | zero => exact hzero
    | succ n =>
      rw [cutBytes?]
      constructor
      · intro h
        split at h
        · next hle =>
          obtain ⟨⟨first, rest⟩, hcut, heq⟩ := Option.map_eq_some_iff.1 h
          cases heq
          obtain ⟨rfl, hlength⟩ := ih.1 hcut
          exact ⟨rfl, by rw [byteLength_cons]; omega⟩
        · cases h
      · rintro ⟨hs, hlength⟩
        cases before with
        | nil => cases hlength
        | cons d before =>
          obtain ⟨rfl, hrest⟩ := List.cons.inj hs
          rw [byteLength_cons] at hlength
          have hcut : cutBytes? (n + 1 - c.utf8Size) s = some (before, after) :=
            ih.2 ⟨hrest, by omega⟩
          rw [if_pos (by omega), hcut, Option.map_some]

/-- A slice has what stands before it and after it in the text. -/
theorem slice?_eq_some_iff {start stop : Nat} {s part : List Char} :
    slice? start stop s = some part ↔ ∃ before after, s = before ++ part ++ after ∧
      byteLength before = start ∧ start + byteLength part = stop := by
  unfold slice?
  constructor
  · intro h
    obtain ⟨⟨before, tail⟩, hbefore, hpart⟩ := Option.bind_eq_some_iff.1 h
    obtain ⟨rfl, hstart⟩ := cutBytes?_eq_some_iff.1 hbefore
    split at hpart
    · next hle =>
      obtain ⟨⟨_, after⟩, hcut, rfl⟩ := Option.map_eq_some_iff.1 hpart
      obtain ⟨rfl, hlength⟩ := cutBytes?_eq_some_iff.1 hcut
      exact ⟨before, after, by simp, hstart, by dsimp only; omega⟩
    · cases hpart
  · rintro ⟨before, after, rfl, hstart, hstop⟩
    have hbefore : cutBytes? start (before ++ part ++ after) = some (before, part ++ after) :=
      cutBytes?_eq_some_iff.2 ⟨by simp, hstart⟩
    have hpart : cutBytes? (stop - start) (part ++ after) = some (part, after) :=
      cutBytes?_eq_some_iff.2 ⟨rfl, by omega⟩
    rw [hbefore, Option.bind_some, if_pos (by omega), hpart, Option.map_some]

end UnifiedConfig.Text
