/-!
# Integers in decimal

Reads decimal numbers that must fit a machine word. A number is read from left to right and the
first trouble decides what is wrong with it: at one place, a character that is no digit comes before
a value that has grown too large.

* `readInt64_eq_ok_iff`: what is read is a numeral, and its value fits.
* `numeral_toDigits`: the digits of a number write it.
-/

namespace UnifiedConfig.Text

/-- What is wrong with the text of a number. -/
inductive IntegerError where
  /-- There is no text. -/
  | empty
  /-- A character is no ASCII digit, or a sign stands alone. -/
  | invalidDigit
  /-- The value is above the greatest one. -/
  | tooLarge
  /-- The value is below the least one. -/
  | tooSmall
deriving DecidableEq, Repr

/-- The wording of a fault. -/
def IntegerError.message : IntegerError → String
  | .empty => "cannot parse integer from empty string"
  | .invalidDigit => "invalid digit found in string"
  | .tooLarge => "number too large to fit in target type"
  | .tooSmall => "number too small to fit in target type"

/-- The greatest signed integer of 64 bits. -/
def int64Max : Int := 0x7FFFFFFFFFFFFFFF

/-- The least signed integer of 64 bits. -/
def int64Min : Int := -0x8000000000000000

/-- The greatest unsigned integer of 64 bits. -/
def nat64Max : Int := 0xFFFFFFFFFFFFFFFF

/-- The value of an ASCII digit. -/
def digitValue (c : Char) : Nat := c.toNat - '0'.toNat

/-- Reads digits onto `value`, each one counted by `sign`, which is one or minus one, and keeps the
value within `least` and `greatest` at every digit. -/
def readDigits (least greatest sign : Int) : Int → List Char → Except IntegerError Int
  | value, [] => .ok value
  | value, c :: rest =>
    if c.isDigit then
      let next := value * 10 + sign * digitValue c
      if next > greatest then .error .tooLarge
      else if next < least then .error .tooSmall
      else readDigits least greatest sign next rest
    else .error .invalidDigit

/-- Reads a signed integer of 64 bits: at most one sign, then ASCII digits, at least one. -/
def readInt64 : List Char → Except IntegerError Int
  | [] => .error .empty
  | ['+'] | ['-'] => .error .invalidDigit
  | '+' :: digits => readDigits int64Min int64Max 1 0 digits
  | '-' :: digits => readDigits int64Min int64Max (-1) 0 digits
  | digits => readDigits int64Min int64Max 1 0 digits

/-- Reads an unsigned integer of 64 bits from ASCII digits. -/
def readNat64 (digits : List Char) : Except IntegerError Nat :=
  if digits.isEmpty then .error .empty
  else (readDigits 0 nat64Max 1 0 digits).map Int.toNat

/-- Whether a text writes an integer in decimal: ASCII digits, at least one, after at most one
sign. -/
inductive Numeral : List Char → Int → Prop where
  | plain {digits : List Char} (hne : digits ≠ []) (hdigits : ∀ c ∈ digits, c.isDigit = true) :
      Numeral digits (Nat.ofDigitChars 10 digits 0)
  | plus {digits : List Char} (hne : digits ≠ []) (hdigits : ∀ c ∈ digits, c.isDigit = true) :
      Numeral ('+' :: digits) (Nat.ofDigitChars 10 digits 0)
  | minus {digits : List Char} (hne : digits ≠ []) (hdigits : ∀ c ∈ digits, c.isDigit = true) :
      Numeral ('-' :: digits) (-(Nat.ofDigitChars 10 digits 0 : Int))

/-- A number does not get smaller by further digits. -/
theorem le_ofDigitChars (digits : List Char) (n : Nat) : n ≤ Nat.ofDigitChars 10 digits n := by
  induction digits generalizing n with
  | nil => simp
  | cons c digits ih =>
    rw [Nat.ofDigitChars_cons]
    have h := ih (10 * n + (c.toNat - '0'.toNat))
    omega

/-- Digits are read as the number that they write, if it is within the bounds. -/
theorem readDigits_eq_ok_iff {least greatest sign : Int} (hsign : sign = 1 ∨ sign = -1)
    {digits : List Char} {n : Nat} {k : Int} (hn : least ≤ sign * n ∧ sign * n ≤ greatest) :
    readDigits least greatest sign (sign * n) digits = .ok k ↔
      (∀ c ∈ digits, c.isDigit = true) ∧ k = sign * Nat.ofDigitChars 10 digits n ∧
        least ≤ k ∧ k ≤ greatest := by
  induction digits generalizing n with
  | nil =>
    simp only [readDigits, Except.ok.injEq, List.not_mem_nil, false_implies, implies_true,
      true_and, Nat.ofDigitChars_nil]
    constructor
    · rintro rfl
      exact ⟨rfl, hn⟩
    · exact fun h => h.1.symm
  | cons c digits ih =>
    by_cases hc : c.isDigit = true
    · have hnext : sign * n * 10 + sign * digitValue c =
          sign * (10 * n + (c.toNat - '0'.toNat) : Nat) := by
        rcases hsign with rfl | rfl <;> rw [digitValue] <;> omega
      rw [readDigits, if_pos hc, hnext, Nat.ofDigitChars_cons, List.forall_mem_cons]
      by_cases hfits : least ≤ sign * (10 * n + (c.toNat - '0'.toNat) : Nat) ∧
          sign * (10 * n + (c.toNat - '0'.toNat) : Nat) ≤ greatest
      · rw [if_neg (by omega), if_neg (by omega), ih hfits]
        simp [hc]
      · -- The value only moves away from zero, so it is not within the bounds at the end either.
        have hgrows := le_ofDigitChars digits (10 * n + (c.toNat - '0'.toNat))
        constructor
        · intro h
          dsimp only at h
          split at h
          · cases h
          · split at h
            · cases h
            · omega
        · rintro ⟨-, rfl, hk⟩
          rcases hsign with rfl | rfl <;> omega
    · rw [readDigits, if_neg hc]
      simp [hc]

/-- What is read is a numeral that fits, and every such numeral is read. -/
theorem readInt64_eq_ok_iff {s : List Char} {k : Int} :
    readInt64 s = .ok k ↔ Numeral s k ∧ int64Min ≤ k ∧ k ≤ int64Max := by
  have hread {sign : Int} (hsign : sign = 1 ∨ sign = -1) (digits : List Char) :
      readDigits int64Min int64Max sign 0 digits = .ok k ↔
        (∀ c ∈ digits, c.isDigit = true) ∧ k = sign * Nat.ofDigitChars 10 digits 0 ∧
          int64Min ≤ k ∧ k ≤ int64Max := by
    simpa using @readDigits_eq_ok_iff int64Min int64Max sign hsign digits 0 k
      (by rw [Int.natCast_zero, Int.mul_zero]; decide)
  -- A sign is no digit, so what follows a sign is all that is left to be digits.
  have hsign {c : Char} (hc : c.isDigit = false) {digits : List Char}
      (hdigits : ∀ d ∈ c :: digits, d.isDigit = true) : False := by
    rw [hdigits c (by simp)] at hc
    cases hc
  unfold readInt64
  split
  · refine iff_of_false (by simp) fun ⟨hnumeral, _⟩ => ?_
    cases hnumeral with
    | plain hne => exact hne rfl
  · refine iff_of_false (by simp) fun ⟨hnumeral, _⟩ => ?_
    cases hnumeral with
    | plain hne hdigits => exact hsign (by decide) hdigits
    | plus hne => exact hne rfl
  · refine iff_of_false (by simp) fun ⟨hnumeral, _⟩ => ?_
    cases hnumeral with
    | plain hne hdigits => exact hsign (by decide) hdigits
    | minus hne => exact hne rfl
  · next digits hne =>
    rw [hread (.inl rfl), Int.one_mul]
    constructor
    · rintro ⟨hdigits, rfl, hk⟩
      exact ⟨.plus hne hdigits, hk⟩
    · rintro ⟨hnumeral, hk⟩
      cases hnumeral with
      | plain _ hdigits => exact (hsign (by decide) hdigits).elim
      | plus _ hdigits => exact ⟨hdigits, rfl, hk⟩
  · next digits hne =>
    rw [hread (.inr rfl), Int.neg_one_mul]
    constructor
    · rintro ⟨hdigits, rfl, hk⟩
      exact ⟨.minus hne hdigits, hk⟩
    · rintro ⟨hnumeral, hk⟩
      cases hnumeral with
      | plain _ hdigits => exact (hsign (by decide) hdigits).elim
      | minus _ hdigits => exact ⟨hdigits, rfl, hk⟩
  · next hne _ _ hplus hminus =>
    rw [hread (.inl rfl), Int.one_mul]
    constructor
    · rintro ⟨hdigits, rfl, hk⟩
      exact ⟨.plain hne hdigits, hk⟩
    · rintro ⟨hnumeral, hk⟩
      cases hnumeral with
      | plain _ hdigits => exact ⟨hdigits, rfl, hk⟩
      | plus => exact absurd rfl (hplus _)
      | minus => exact absurd rfl (hminus _)

/-- No digit of a number is anything but a digit. -/
theorem notMem_toDigits {c : Char} (hc : c.isDigit = false) (n : Nat) : c ∉ Nat.toDigits 10 n := by
  intro h
  have hdigit := Nat.isDigit_of_mem_toDigits (by decide) (by decide) h
  rw [hc] at hdigit
  cases hdigit

/-- The digits of a number write it. -/
theorem numeral_toDigits (n : Nat) : Numeral (Nat.toDigits 10 n) n := by
  have hnumeral := Numeral.plain Nat.toDigits_ne_nil fun c hc =>
    Nat.isDigit_of_mem_toDigits (b := 10) (n := n) (by decide) (by decide) hc
  rwa [Nat.ofDigitChars_ten_toDigits] at hnumeral

end UnifiedConfig.Text
