import UnifiedConfig.Proofs.Additions

/-!
# Reading synthetic names back

A synthetic name is read in three ways: for its ordinal, for whether it is one for a given type, and
as a selector. The first two look for the shape `@type[digits]`, in which no text can have two
types, as no bracket is a digit; the type may hold brackets, but no line feed. The third one looks
at each character, and takes a sign before the digits. Where a name can be read in several of these
ways, they agree.

* `split?_eq_some_iff`: the shape is found if and only if it is there.
* `IsMatcher.eq_split?`: nothing else is found by any search for the shape.
* `ordinal?_eq_some_iff`, `isFor_iff`: what is read of the shape.
* `readers_agree`: all readers read what is written, and the others read what a selector reads.
-/

namespace UnifiedConfig

open Text

namespace Text

/-- The digits of a number that fits are read as it. -/
theorem readNat64_eq_ok_iff {digits : List Char} {n : Nat} :
    readNat64 digits = .ok n ↔ digits ≠ [] ∧ (∀ c ∈ digits, c.isDigit = true) ∧
      n = Nat.ofDigitChars 10 digits 0 ∧ (n : Int) ≤ nat64Max := by
  have hread (k : Int) : readDigits 0 nat64Max 1 0 digits = .ok k ↔
      (∀ c ∈ digits, c.isDigit = true) ∧ k = Nat.ofDigitChars 10 digits 0 ∧ 0 ≤ k ∧
        k ≤ nat64Max := by
    simpa using @readDigits_eq_ok_iff 0 nat64Max 1 (.inl rfl) digits 0 k (by decide)
  unfold readNat64
  split
  · next hempty =>
    refine iff_of_false (by simp) fun h => h.1 ?_
    simpa using hempty
  · next hne =>
    rw [map_eq_ok_iff]
    constructor
    · rintro ⟨k, hk, rfl⟩
      obtain ⟨hdigits, rfl, -, hfits⟩ := (hread k).1 hk
      exact ⟨by simpa using hne, hdigits, by simp, by simpa using hfits⟩
    · rintro ⟨-, hdigits, rfl, hfits⟩
      exact ⟨_, (hread _).2 ⟨hdigits, rfl, by omega, hfits⟩, by simp⟩

end Text

namespace SyntheticName

variable {name : String} {type digits : List Char}

/-! ## The shape -/

/-- Whether a text has the shape of a synthetic name for a type: there is no line feed in the type,
and there are digits between the last brackets. -/
structure IsMatch (name : String) (type digits : List Char) : Prop where
  text : name.toList = '@' :: (type ++ '[' :: (digits ++ [']']))
  oneLine : '\n' ∉ type
  nonempty : digits ≠ []
  digits : ∀ c ∈ digits, isDecimalDigit c = true

theorem IsMatch.cutLast (h : IsMatch name type digits) :
    ∃ body, name.toList = '@' :: body ∧ cutLast '[' body = some (type, digits ++ [']']) := by
  have hopen : '[' ∉ digits := by
    intro hmem
    have hdigit := h.digits _ hmem
    revert hdigit
    decide
  exact ⟨_, h.text, cutLast_eq_some_iff.2 ⟨by simp [hopen], rfl⟩⟩

theorem split?_eq_some_iff : split? name = some (type, digits) ↔ IsMatch name type digits := by
  constructor
  · intro h
    unfold split? at h
    split at h
    · next body hbody =>
      split at h
      · next first tail hcut =>
        obtain ⟨hopen, rfl⟩ := cutLast_eq_some_iff.1 hcut
        dsimp only at h
        split at h
        · next hshape =>
          cases h
          obtain ⟨hlast, hne, hdigits, hline⟩ := hshape
          obtain ⟨inner, rfl⟩ := List.getLast?_eq_some_iff.1 hlast
          rw [List.dropLast_concat] at hne hdigits ⊢
          exact ⟨hbody, hline, hne, List.all_eq_true.1 hdigits⟩
        · cases h
      · cases h
    · cases h
  · intro h
    obtain ⟨body, hbody, hcut⟩ := h.cutLast
    have hdigits : digits.all isDecimalDigit = true := List.all_eq_true.2 h.digits
    simp [split?, hbody, hcut, h.nonempty, hdigits, h.oneLine]

/-- No text has the shape in two ways. -/
theorem IsMatch.unique {other more : List Char} (h : IsMatch name type digits)
    (h' : IsMatch name other more) : type = other ∧ digits = more := by
  have hsplit := split?_eq_some_iff.2 h
  rw [split?_eq_some_iff.2 h'] at hsplit
  cases hsplit
  exact ⟨rfl, rfl⟩

/-- Whether a search finds the shape `@type[digits]` in each text that has it, with the shortest
type there is, and finds nothing in any other text. -/
structure IsMatcher (search : String → Option (List Char × List Char)) : Prop where
  found : ∀ {name type digits}, search name = some (type, digits) → IsMatch name type digits
  complete : ∀ {name type digits}, IsMatch name type digits → (search name).isSome
  shortest : ∀ {name type digits other more}, search name = some (type, digits) →
    IsMatch name other more → type.length ≤ other.length

theorem isMatcher_split? : IsMatcher split? where
  found := split?_eq_some_iff.1
  complete h := by simp [split?_eq_some_iff.2 h]
  shortest h h' := by
    have htype := ((split?_eq_some_iff.1 h).unique h').1
    exact Nat.le_of_eq (congrArg List.length htype)

/-- The shape is found in one way only. -/
theorem IsMatcher.eq_split? {search : String → Option (List Char × List Char)}
    (h : IsMatcher search) : search = split? := by
  funext name
  cases hsearch : search name with
  | some parts => exact (split?_eq_some_iff.2 (h.found hsearch)).symm
  | none =>
    cases hsplit : split? name with
    | none => rfl
    | some parts =>
      have hsome := h.complete (split?_eq_some_iff.1 hsplit)
      simp [hsearch] at hsome

/-! ## What is read -/

/-- The shape with ASCII digits whose value fits is read as that value. -/
theorem ordinal?_eq_some_iff {ordinal : Nat} : ordinal? name = some ordinal ↔
    ∃ type digits, IsMatch name type digits ∧ (∀ c ∈ digits, c.isDigit = true) ∧
      ordinal = Nat.ofDigitChars 10 digits 0 ∧ (ordinal : Int) ≤ nat64Max := by
  have hoption {ε α : Type} {x : Except ε α} {a : α} : x.toOption = some a ↔ x = .ok a := by
    cases x <;> simp [Except.toOption]
  rw [ordinal?, Option.bind_eq_some_iff]
  constructor
  · rintro ⟨⟨type, digits⟩, hsplit, hread⟩
    obtain ⟨-, hdigits⟩ := readNat64_eq_ok_iff.1 (hoption.1 hread)
    exact ⟨type, digits, split?_eq_some_iff.1 hsplit, hdigits⟩
  · rintro ⟨type, digits, h, hdigits⟩
    exact ⟨(type, digits), split?_eq_some_iff.2 h,
      hoption.2 (readNat64_eq_ok_iff.2 ⟨h.nonempty, hdigits⟩)⟩

theorem isFor_iff {type : String} :
    isFor name type = true ↔ ∃ digits, IsMatch name type.toList digits := by
  unfold isFor
  split
  · next t digits hsplit =>
    have hmatch := split?_eq_some_iff.1 hsplit
    rw [beq_iff_eq]
    constructor
    · rintro rfl
      exact ⟨digits, hmatch⟩
    · rintro ⟨more, h⟩
      exact (hmatch.unique h).1
  · next hnone =>
    refine iff_of_false (by simp) ?_
    rintro ⟨digits, h⟩
    rw [split?_eq_some_iff.2 h] at hnone
    cases hnone

/-- What is written has the shape, unless there is a line feed in the type. -/
theorem isMatch_text {type : String} (h : '\n' ∉ type.toList) (ordinal : Nat) :
    IsMatch (text type ordinal) type.toList (Nat.toDigits 10 ordinal) where
  text := toList_text type ordinal
  oneLine := h
  nonempty := Nat.toDigits_ne_nil
  digits _ hc := isDecimalDigit_of_isDigit (Nat.isDigit_of_mem_toDigits (by decide) (by decide) hc)

theorem ordinal?_text {type : String} (h : '\n' ∉ type.toList) {ordinal : Nat}
    (hfits : (ordinal : Int) ≤ nat64Max) : ordinal? (text type ordinal) = some ordinal := by
  refine ordinal?_eq_some_iff.2 ⟨_, _, isMatch_text h ordinal, ?_, ?_, hfits⟩
  · exact fun c hc => Nat.isDigit_of_mem_toDigits (by decide) (by decide) hc
  · rw [Nat.ofDigitChars_ten_toDigits]

theorem isFor_text {type : String} (h : '\n' ∉ type.toList) (ordinal : Nat) {other : String} :
    isFor (text type ordinal) other = true ↔ other = type := by
  have hmatch := isMatch_text h ordinal
  rw [isFor_iff]
  constructor
  · rintro ⟨digits, hother⟩
    exact String.toList_inj.1 (hother.unique hmatch).1
  · rintro rfl
    exact ⟨_, hmatch⟩

end SyntheticName

namespace Selector

open SyntheticName

/-- A selector without a sign is a synthetic name, unless there is a line feed in the type. -/
theorem isMatch_of_isPositional {s type : String} {index : Int} (h : IsPositional s type index)
    (hline : '\n' ∉ type.toList) : ∃ numeral : String, s = s!"@{type}[{numeral}]" ∧
      ('+' ∉ numeral.toList → '-' ∉ numeral.toList →
        IsMatch s type.toList numeral.toList ∧ (∀ c ∈ numeral.toList, c.isDigit = true) ∧
          index = Nat.ofDigitChars 10 numeral.toList 0) := by
  obtain ⟨numeral, htext, hnumeral⟩ := h.text
  refine ⟨String.ofList numeral, ?_, ?_⟩
  · rw [← String.toList_inj, htext]
    simp [toString]
  · rw [String.toList_ofList]
    intro hplus hminus
    cases hnumeral with
    | plain hne hdigits =>
      have hdecimal := fun c hc => isDecimalDigit_of_isDigit (hdigits c hc)
      exact ⟨⟨htext, hline, hne, hdecimal⟩, hdigits, rfl⟩
    | plus => simp at hplus
    | minus => simp at hminus

end Selector

namespace SyntheticName

open Selector

/-- Any search for the shape finds what the readers of synthetic names find. They read the type and
the ordinal of each synthetic name whose type has no line feed, and so does a selector if the type
and the ordinal can stand in one. In the other direction they read the type and the index of each
selector whose index has no sign. -/
theorem readers_agree :
    (∀ search, IsMatcher search → search = split?) ∧
    (∀ (type : String) (ordinal : Nat), '\n' ∉ type.toList →
      ((ordinal : Int) ≤ nat64Max → ordinal? (text type ordinal) = some ordinal) ∧
      (∀ other, isFor (text type ordinal) other = true ↔ other = type) ∧
      (Admits type → (ordinal : Int) ≤ int64Max →
        readPositional (text type ordinal) = .ok (type, ordinal))) ∧
    ∀ (s type : String) (index : Int), readPositional s = .ok (type, index) →
      '\n' ∉ type.toList → ∃ numeral : String, s = s!"@{type}[{numeral}]" ∧
        ('+' ∉ numeral.toList → '-' ∉ numeral.toList → isFor s type = true ∧
          ∃ ordinal : Nat, index = ordinal ∧ ordinal? s = some ordinal) := by
  refine ⟨fun _ => IsMatcher.eq_split?, ?_, ?_⟩
  · intro type ordinal hline
    exact ⟨ordinal?_text hline, fun _ => isFor_text hline ordinal,
      fun hadmits hfits => readPositional_text_iff.2 ⟨rfl, rfl, hadmits, hfits⟩⟩
  · intro s type index hread hline
    have hpositional := readPositional_eq_ok_iff.1 hread
    obtain ⟨numeral, htext, hplain⟩ := isMatch_of_isPositional hpositional hline
    refine ⟨numeral, htext, fun hplus hminus => ?_⟩
    obtain ⟨hmatch, hdigits, rfl⟩ := hplain hplus hminus
    -- Whatever a selector can hold fits the ordinals, which go twice as far.
    have hfits : (Nat.ofDigitChars 10 numeral.toList 0 : Int) ≤ nat64Max :=
      Int.le_trans hpositional.fits.2 (by decide)
    exact ⟨isFor_iff.2 ⟨_, hmatch⟩, _, rfl,
      ordinal?_eq_some_iff.2 ⟨_, _, hmatch, hdigits, rfl, hfits⟩⟩

/-- A type with brackets and an `@` is read back but cannot stand in a selector, and a selector may
have zeros in front. -/
theorem readers_agree_brackets :
    IsMatcher split? ∧ '\n' ∉ "a[0]@b".toList ∧ ordinal? (text "a[0]@b" 12) = some 12 ∧
      isFor (text "a[0]@b" 12) "a[0]@b" = true ∧ Admits "é" ∧
      readPositional (text "é" 12) = .ok ("é", 12) ∧ readPositional "@é[007]" = .ok ("é", 7) ∧
      isFor "@é[007]" "é" = true ∧ ordinal? "@é[007]" = some 7 := by
  obtain ⟨-, hwritten, hread⟩ := readers_agree
  have hb : '\n' ∉ "a[0]@b".toList := by decide +kernel
  have he : '\n' ∉ "é".toList := by decide +kernel
  have hadmits : Admits "é" := by decide +kernel
  have hselector : readPositional "@é[007]" = .ok ("é", 7) := rfl
  obtain ⟨numeral, htext, hplain⟩ := hread _ _ _ hselector he
  have hnumeral : numeral.toList = ['0', '0', '7'] := by
    have hlist := congrArg String.toList htext
    have htail : numeral.toList ++ [']'] = ['0', '0', '7'] ++ [']'] := by
      simpa [toString] using hlist.symm
    exact List.append_cancel_right htail
  obtain ⟨hfor, ordinal, hordinal, hread⟩ := hplain (by simp [hnumeral]) (by simp [hnumeral])
  obtain rfl : ordinal = 7 := by omega
  obtain ⟨hfits, hother, -⟩ := hwritten "a[0]@b" 12 hb
  exact ⟨isMatcher_split?, hb, hfits (by decide), (hother _).2 rfl, hadmits,
    (hwritten "é" 12 he).2.2 hadmits (by decide), hselector, hfor, hread⟩

end SyntheticName

end UnifiedConfig
