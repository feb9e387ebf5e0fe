import UnifiedConfig.Text.Integer
import UnifiedConfig.Text.Split

/-!
# Synthetic names

An unnamed section goes by a synthetic name, `@type[ordinal]`, made of its type and of its place
among the sections of that type. A text is taken for a synthetic name if it has that shape with any
decimal digits between the brackets and no line feed in the type. As no bracket is a digit, the text
then has one reading: the type ends at the last `[`.

Decimal digits are those of every script, the general category `Nd` of Unicode 16. They come in runs
of ten, from the digit zero to the digit nine.

* `isDecimalDigit_of_isDigit`: the ASCII digits are the first of them.
* `text_inj`: what has a synthetic name is told by it.
-/

namespace UnifiedConfig

/-! ## Decimal digits -/

namespace Text

/-- The code points of the digits zero, in ascending order. -/
def digitZeros : List Nat := [
  0x30, 0x660, 0x6f0, 0x7c0, 0x966, 0x9e6, 0xa66, 0xae6, 0xb66, 0xbe6, 0xc66, 0xce6, 0xd66,
  0xde6, 0xe50, 0xed0, 0xf20, 0x1040, 0x1090, 0x17e0, 0x1810, 0x1946, 0x19d0, 0x1a80, 0x1a90,
  0x1b50, 0x1bb0, 0x1c40, 0x1c50, 0xa620, 0xa8d0, 0xa900, 0xa9d0, 0xa9f0, 0xaa50, 0xabf0,
  0xff10, 0x104a0, 0x10d30, 0x10d40, 0x11066, 0x110f0, 0x11136, 0x111d0, 0x112f0, 0x11450,
  0x114d0, 0x11650, 0x116c0, 0x116d0, 0x116da, 0x11730, 0x118e0, 0x11950, 0x11bf0, 0x11c50,
  0x11d50, 0x11da0, 0x11f50, 0x16130, 0x16a60, 0x16ac0, 0x16b50, 0x16d70, 0x1ccf0, 0x1d7ce,
  0x1d7d8, 0x1d7e2, 0x1d7ec, 0x1d7f6, 0x1e140, 0x1e2f0, 0x1e4f0, 0x1e5f1, 0x1e950, 0x1fbf0]

/-- Whether a character is a decimal digit of some script. -/
def isDecimalDigit (c : Char) : Bool :=
  digitZeros.any fun first => first ≤ c.toNat && c.toNat ≤ first + 9

/-- An ASCII digit is a decimal digit. -/
theorem isDecimalDigit_of_isDigit {c : Char} (h : c.isDigit = true) : isDecimalDigit c = true := by
  have hc : 0x30 ≤ c.toNat ∧ c.toNat ≤ 0x39 := by
    simpa [Char.isDigit, UInt32.le_iff_toNat_le] using h
  exact List.any_eq_true.2 ⟨0x30, by simp [digitZeros], by simp [hc.1, hc.2]⟩

end Text

/-! ## Names -/

namespace SyntheticName

open Text

/-- The synthetic name of the section of a type at an ordinal. -/
def text (type : String) (ordinal : Nat) : String :=
  s!"@{type}[{ordinal}]"

/-- The type and the digits of a text that has the shape of a synthetic name. -/
def split? (name : String) : Option (List Char × List Char) :=
  match name.toList with
  | '@' :: body =>
    match cutLast '[' body with
    | some (type, tail) =>
      -- The tail should be the digits and the closing bracket.
      let digits := tail.dropLast
      if tail.getLast? = some ']' ∧ digits ≠ [] ∧ digits.all isDecimalDigit ∧ '\n' ∉ type then
        some (type, digits)
      else none
    | none => none
  | _ => none

/-- The ordinal in a synthetic name, if its digits are ASCII and it fits 64 bits. -/
def ordinal? (name : String) : Option Nat :=
  (split? name).bind fun (_, digits) => (readNat64 digits).toOption

/-- Whether a text is a synthetic name for a section of the type. -/
def isFor (name type : String) : Bool :=
  match split? name with
  | some (t, _) => t == type.toList
  | none => false

theorem toList_text (type : String) (ordinal : Nat) : (text type ordinal).toList =
    '@' :: (type.toList ++ '[' :: (Nat.toDigits 10 ordinal ++ [']'])) := by
  simp [text, toString]

/-- The type ends at the last `[`. -/
theorem cutLast_text (type : String) (ordinal : Nat) :
    cutLast '[' (text type ordinal).toList =
      some ('@' :: type.toList, Nat.toDigits 10 ordinal ++ [']']) := by
  have hdigits : '[' ∉ Nat.toDigits 10 ordinal := notMem_toDigits (by decide) ordinal
  rw [toList_text]
  exact cutLast_eq_some_iff.2 ⟨by simp [hdigits], by simp⟩

theorem text_inj {type other : String} {ordinal k : Nat} :
    text type ordinal = text other k ↔ type = other ∧ ordinal = k := by
  constructor
  · intro h
    have hcut := cutLast_text type ordinal
    rw [h, cutLast_text] at hcut
    simp only [Option.some.injEq, Prod.mk.injEq, List.cons.injEq, true_and,
      List.append_cancel_right_eq, String.toList_inj] at hcut
    obtain ⟨htype, hdigits⟩ := hcut
    have hvalue := congrArg (Nat.ofDigitChars 10 · 0) hdigits
    simp only [Nat.ofDigitChars_ten_toDigits] at hvalue
    exact ⟨htype.symm, hvalue.symm⟩
  · rintro ⟨rfl, rfl⟩
    rfl

end SyntheticName

end UnifiedConfig
