import UnifiedConfig.Selector
import UnifiedConfig.SyntheticName
import UnifiedConfig.Text.Slice

/-!
# The grammar of positional selectors

A positional selector is `@type[index]`. The texts that are read as one are told by their parts, and
so are the faults of all others: the checks come one after the other, and of the characters that are
out of place the leftmost one counts.

The checks can as well be made by byte offsets, where the offset 0 stands for a bracket that has not
been seen. The type and the index are slices then, and no slice is ever taken at an offset that lies
inside of a character or outside of the text.

* `offence_eq_some_iff`, `offence_eq_none_iff`: what is reported of the characters out of place.
* `readPositional_eq_ok_iff`: which texts are positional selectors.
* `parse_text`: a synthetic name is a positional selector for its type and its ordinal.
* `readPositional_eq_error_iff`: what is wrong with all others.
* `readBytes?_eq`: reading by byte offsets comes to the same.
* `readPositional_iff`: all of this.
-/

namespace UnifiedConfig.Selector

open Text

/-! ## Characters out of place -/

/-- Whether a character of a selector is out of place, given what stands between the first `@` and
the character, and what comes after it. -/
inductive Offends (before : List Char) : Char → List Char → SelectorError → Prop where
  | secondAt (after : List Char) : Offends before '@' after .secondAt
  | secondOpenBracket (after : List Char) (h : '[' ∈ before) :
      Offends before '[' after .secondOpenBracket
  | earlyCloseBracket {after : List Char} (h : after ≠ []) :
      Offends before ']' after .earlyCloseBracket

/-- Whether no character of a part is out of place, given what stands before the part and after
it. -/
def Clear (before part after : List Char) : Prop :=
  ∀ first c rest e, part = first ++ c :: rest → ¬ Offends (before ++ first) c (rest ++ after) e

/-- Whether a fault is that of the leftmost character out of place. -/
def IsOffence (before body : List Char) (e : SelectorError) : Prop :=
  ∃ first c rest, body = first ++ c :: rest ∧ Clear before first (c :: rest) ∧
    Offends (before ++ first) c rest e

theorem clear_nil (before after : List Char) : Clear before [] after := by
  intro first c rest e h
  simp at h

theorem clear_cons_iff {before part after : List Char} {c : Char} :
    Clear before (c :: part) after ↔
      (∀ e, ¬ Offends before c (part ++ after) e) ∧ Clear (before ++ [c]) part after := by
  constructor
  · intro h
    refine ⟨fun e => by simpa using h [] c part e rfl, ?_⟩
    rintro first d rest e rfl
    simpa using h (c :: first) d rest e rfl
  · rintro ⟨hc, hpart⟩ first d rest e h
    cases first with
    | nil =>
      obtain ⟨rfl, rfl⟩ := List.cons.inj h
      simpa using hc e
    | cons b first =>
      obtain ⟨rfl, rfl⟩ := List.cons.inj h
      simpa using hpart first d rest e rfl

theorem isOffence_cons_iff {before body : List Char} {c : Char} {e : SelectorError} :
    IsOffence before (c :: body) e ↔ Offends before c body e ∨
      (∀ e, ¬ Offends before c body e) ∧ IsOffence (before ++ [c]) body e := by
  constructor
  · rintro ⟨first, d, rest, h, hclear, hd⟩
    cases first with
    | nil =>
      obtain ⟨rfl, rfl⟩ := List.cons.inj h
      exact .inl (by simpa using hd)
    | cons b first =>
      obtain ⟨rfl, rfl⟩ := List.cons.inj h
      obtain ⟨hb, hfirst⟩ := clear_cons_iff.1 hclear
      exact .inr ⟨hb, first, d, rest, rfl, hfirst, by simpa using hd⟩
  · rintro (h | ⟨hc, first, d, rest, rfl, hclear, hd⟩)
    · exact ⟨[], c, body, rfl, clear_nil _ _, by simpa using h⟩
    · exact ⟨c :: first, d, rest, rfl, clear_cons_iff.2 ⟨hc, hclear⟩, by simpa using hd⟩

theorem Offends.unique {before after : List Char} {c : Char} {e e' : SelectorError}
    (h : Offends before c after e) (h' : Offends before c after e') : e = e' := by
  cases h <;> cases h' <;> rfl

/-- A character is reported if it is out of place, and passed over if it is not. -/
theorem offence_cons (before rest : List Char) (c : Char) :
    (∃ e, Offends before c rest e ∧ offence (decide ('[' ∈ before)) (c :: rest) = some e) ∨
      (∀ e, ¬ Offends before c rest e) ∧ offence (decide ('[' ∈ before)) (c :: rest) =
        offence (decide ('[' ∈ before ++ [c])) rest := by
  by_cases hat : c = '@'
  · subst hat
    exact .inl ⟨_, .secondAt rest, rfl⟩
  by_cases hopen : c = '['
  · subst hopen
    by_cases hmem : '[' ∈ before
    · exact .inl ⟨_, .secondOpenBracket rest hmem, by simp [offence, hmem]⟩
    · refine .inr ⟨?_, by simp [offence, hmem]⟩
      rintro e ⟨⟩
      contradiction
  have hsame : decide ('[' ∈ before ++ [c]) = decide ('[' ∈ before) := by
    simp [Ne.symm hopen]
  by_cases hclose : c = ']'
  · subst hclose
    cases rest with
    | nil =>
      refine .inr ⟨?_, by rw [hsame]; rfl⟩
      rintro e ⟨⟩
      contradiction
    | cons d rest => exact .inl ⟨_, .earlyCloseBracket (List.cons_ne_nil d rest), rfl⟩
  · refine .inr ⟨?_, by rw [hsame, offence, if_neg hat, if_neg hopen, if_neg (by simp [hclose])]⟩
    rintro e ⟨⟩ <;> contradiction

theorem offence_eq_some_iff {before body : List Char} {e : SelectorError} :
    offence (decide ('[' ∈ before)) body = some e ↔ IsOffence before body e := by
  induction body generalizing before with
  | nil => simp [offence, IsOffence]
  | cons c body ih =>
    rw [isOffence_cons_iff]
    rcases offence_cons before body c with ⟨e', hc, heq⟩ | ⟨hc, heq⟩
    · rw [heq, Option.some.injEq]
      constructor
      · rintro rfl
        exact .inl hc
      · rintro (h | ⟨hclear, -⟩)
        · exact hc.unique h
        · exact absurd hc (hclear e')
    · rw [heq, ih, and_iff_right hc, or_iff_right (hc e)]

theorem offence_eq_none_iff {before body : List Char} :
    offence (decide ('[' ∈ before)) body = none ↔ Clear before body [] := by
  induction body generalizing before with
  | nil => exact iff_of_true rfl (clear_nil before [])
  | cons c body ih =>
    rw [clear_cons_iff, List.append_nil]
    rcases offence_cons before body c with ⟨e, hc, heq⟩ | ⟨hc, heq⟩
    · rw [heq]
      exact iff_of_false (by simp) fun h => h.1 e hc
    · rw [heq, ih, and_iff_right hc]

/-! ## The parts of a selector -/

/-- Whether a type can stand in a positional selector. -/
structure Admits (type : String) : Prop where
  nonempty : type ≠ ""
  noAt : '@' ∉ type.toList
  noOpen : '[' ∉ type.toList
  noClose : ']' ∉ type.toList

instance (type : String) : Decidable (Admits type) :=
  decidable_of_iff (type ≠ "" ∧ '@' ∉ type.toList ∧ '[' ∉ type.toList ∧ ']' ∉ type.toList)
    ⟨fun ⟨a, b, c, d⟩ => ⟨a, b, c, d⟩, fun ⟨a, b, c, d⟩ => ⟨a, b, c, d⟩⟩

/-- Whether a text is a positional selector for a type and an index. -/
structure IsPositional (s type : String) (index : Int) : Prop where
  admits : Admits type
  text : ∃ numeral, s.toList = '@' :: (type.toList ++ '[' :: (numeral ++ [']'])) ∧
    Numeral numeral index
  fits : int64Min ≤ index ∧ index ≤ int64Max

theorem brackets_eq_some_iff {body type index : List Char} :
    brackets body = some (type, index) ↔
      type ≠ [] ∧ '[' ∉ type ∧ body = type ++ '[' :: (index ++ [']']) := by
  unfold brackets
  constructor
  · intro h
    split at h
    · cases h
    · cases h
    · next first tail hne hcut =>
      obtain ⟨hopen, rfl⟩ := cut_eq_some_iff.1 hcut
      split at h
      · next hlast =>
        obtain ⟨rest, rfl⟩ := List.getLast?_eq_some_iff.1 hlast
        cases h
        exact ⟨hne, hopen, by simp⟩
      · cases h
  · rintro ⟨hne, hopen, rfl⟩
    have hcut : cut '[' (type ++ '[' :: (index ++ [']'])) = (type, some (index ++ [']'])) :=
      cut_eq_some_iff.2 ⟨hopen, rfl⟩
    rw [hcut]
    simp

/-- Nothing of a numeral is a sign of a selector. -/
theorem notMem_of_numeral {s : List Char} {k : Int} (h : Numeral s k) {c : Char}
    (hc : c.isDigit = false) (hplus : c ≠ '+') (hminus : c ≠ '-') : c ∉ s := by
  have hdigits {digits : List Char} (h : ∀ d ∈ digits, d.isDigit = true) : c ∉ digits := by
    intro hmem
    rw [h c hmem] at hc
    cases hc
  cases h with
  | plain _ h => exact hdigits h
  | plus _ h => simp [hplus, hdigits h]
  | minus _ h => simp [hminus, hdigits h]

theorem Clear.notMem {type rest : List Char} (h : Clear [] (type ++ rest) []) (hne : rest ≠ []) :
    '@' ∉ type ∧ ']' ∉ type := by
  constructor
  · intro hmem
    obtain ⟨before, after, rfl⟩ := List.append_of_mem hmem
    exact h before '@' (after ++ rest) _ (by simp) (.secondAt _)
  · intro hmem
    obtain ⟨before, after, rfl⟩ := List.append_of_mem hmem
    exact h before ']' (after ++ rest) _ (by simp) (.earlyCloseBracket (by simp [hne]))

/-- No character is out of place that is none of the signs of a selector. -/
theorem offence_append {opened : Bool} {before : List Char} (hat : '@' ∉ before)
    (hopen : '[' ∉ before) (hclose : ']' ∉ before) (rest : List Char) :
    offence opened (before ++ rest) = offence opened rest := by
  induction before with
  | nil => rfl
  | cons c before ih =>
    simp only [List.mem_cons, not_or] at hat hopen hclose
    rw [List.cons_append, offence, if_neg (Ne.symm hat.1), if_neg (Ne.symm hopen.1),
      if_neg (by simp [Ne.symm hclose.1])]
    exact ih hat.2 hopen.2 hclose.2

theorem offence_of_isPositional {type index : List Char} {k : Int} (hat : '@' ∉ type)
    (hopen : '[' ∉ type) (hclose : ']' ∉ type) (h : Numeral index k) :
    offence false (type ++ '[' :: (index ++ [']'])) = none := by
  rw [offence_append hat hopen hclose]
  simp only [offence]
  rw [offence_append (notMem_of_numeral h (by decide) (by decide) (by decide))
    (notMem_of_numeral h (by decide) (by decide) (by decide))
    (notMem_of_numeral h (by decide) (by decide) (by decide))]
  rfl

theorem IsPositional.leastSize_le {s type : String} {k : Int} (h : IsPositional s type k) :
    leastSize ≤ s.utf8ByteSize := by
  obtain ⟨index, hs, hnumeral⟩ := h.text
  have htype : byteLength type.toList ≠ 0 := by
    rw [byteLength_toList]
    simpa using h.admits.nonempty
  have hindex : byteLength index ≠ 0 := by
    rw [Ne, byteLength_eq_zero]
    cases hnumeral <;> simp_all
  have hsigns : '@'.utf8Size = 1 ∧ '['.utf8Size = 1 ∧ ']'.utf8Size = 1 := by decide
  rw [← byteLength_toList, hs, leastSize]
  simp only [byteLength_cons, byteLength_append, byteLength_nil]
  omega

theorem readPositional_eq_ok_iff {s type : String} {k : Int} :
    readPositional s = .ok (type, k) ↔ IsPositional s type k := by
  constructor
  · intro h
    unfold readPositional at h
    split at h
    · cases h
    split at h
    · next body hs =>
      split at h
      · cases h
      · cases h
      · next first index hoffence hbrackets =>
        obtain ⟨hne, hopen, rfl⟩ := brackets_eq_some_iff.1 hbrackets
        obtain ⟨hat, hclose⟩ := Clear.notMem (offence_eq_none_iff.1 hoffence) (by simp)
        split at h
        · cases h
        · next n hread =>
          cases h
          obtain ⟨hnumeral, hfits⟩ := readInt64_eq_ok_iff.1 hread
          exact ⟨⟨by simpa using hne, by simpa using hat, by simpa using hopen,
            by simpa using hclose⟩, ⟨index, by simpa using hs, hnumeral⟩, hfits⟩
    · cases h
  · intro h
    obtain ⟨index, hs, hnumeral⟩ := h.text
    have hoffence := offence_of_isPositional h.admits.noAt h.admits.noOpen h.admits.noClose hnumeral
    have hbrackets : brackets (type.toList ++ '[' :: (index ++ [']'])) = some (type.toList, index) :=
      brackets_eq_some_iff.2 ⟨by simpa using h.admits.nonempty, h.admits.noOpen, rfl⟩
    have hread := readInt64_eq_ok_iff.2 ⟨hnumeral, h.fits⟩
    rw [readPositional, if_neg (Nat.not_lt.2 h.leastSize_le), hs]
    simp only [hoffence, hbrackets, hread, String.ofList_toList]

/-! ## Synthetic names as selectors -/

/-- A synthetic name selects by its type and its ordinal. -/
theorem parse_text {type : String} (htype : Admits type) {ordinal : Nat}
    (hordinal : (ordinal : Int) ≤ int64Max) :
    parse (SyntheticName.text type ordinal) = .ok (.positional type ordinal) := by
  have hlist := SyntheticName.toList_text type ordinal
  have hleast : int64Min ≤ 0 := by decide
  have hread : readPositional (SyntheticName.text type ordinal) = .ok (type, ordinal) :=
    readPositional_eq_ok_iff.2
      ⟨htype, ⟨_, hlist, numeral_toDigits ordinal⟩, by omega, hordinal⟩
  rw [parse, if_pos (by rw [hlist]; rfl), hread]
  rfl

/-! ## What is wrong with a text -/

/-- Why a text is no positional selector. Each cause presupposes that none of those before it
applies. -/
inductive Fault (s : String) : SelectorError → Prop where
  | tooShort (h : s.utf8ByteSize < leastSize) : Fault s .tooShort
  | missingAt (hsize : leastSize ≤ s.utf8ByteSize) (h : s.toList.head? ≠ some '@') :
      Fault s .missingAt
  /-- A character is out of place, and the leftmost such character is reported. -/
  | outOfPlace (hsize : leastSize ≤ s.utf8ByteSize) {body : List Char} {e : SelectorError}
      (hs : s.toList = '@' :: body) (h : IsOffence [] body e) : Fault s e
  /-- There is no opening bracket, or none before a closing one at the end, or nothing before it. -/
  | malformed (hsize : leastSize ≤ s.utf8ByteSize) {body : List Char} (hs : s.toList = '@' :: body)
      (hclear : Clear [] body [])
      (h : '[' ∉ body ∨ (∀ type index, body ≠ type ++ '[' :: (index ++ [']'])) ∨
        body.head? = some '[') : Fault s .malformed
  /-- What stands between the brackets is not read as an integer. -/
  | indexNotNumeric (hsize : leastSize ≤ s.utf8ByteSize) {type index : List Char}
      {fault : IntegerError} (hs : s.toList = '@' :: (type ++ '[' :: (index ++ [']'])))
      (hclear : Clear [] (type ++ '[' :: (index ++ [']'])) []) (hne : type ≠ [])
      (h : readInt64 index = .error fault) :
      Fault s (.indexNotNumeric (String.ofList index) fault)

/-- Where no character is out of place, the first bracket is the only one that opens. -/
theorem Clear.notMem_open {type index : List Char}
    (h : Clear [] (type ++ '[' :: (index ++ [']'])) []) : '[' ∉ type := by
  intro hmem
  exact h type '[' (index ++ [']']) _ rfl (.secondOpenBracket _ hmem)

theorem brackets_eq_none_iff {body : List Char} (hclear : Clear [] body []) :
    brackets body = none ↔ '[' ∉ body ∨ (∀ type index, body ≠ type ++ '[' :: (index ++ [']'])) ∨
      body.head? = some '[' := by
  constructor
  · intro hnone
    apply Classical.byContradiction
    intro hnot
    obtain ⟨-, hparts, hhead⟩ : '[' ∈ body ∧ (∃ type index, body = type ++ '[' :: (index ++ [']'])) ∧
        body.head? ≠ some '[' := by simpa using hnot
    obtain ⟨type, index, rfl⟩ := hparts
    have hne : type ≠ [] := by
      rintro rfl
      exact hhead rfl
    rw [brackets_eq_some_iff.2 ⟨hne, hclear.notMem_open, rfl⟩] at hnone
    cases hnone
  · intro h
    cases hbrackets : brackets body with
    | none => rfl
    | some parts =>
      obtain ⟨type, index⟩ := parts
      obtain ⟨hne, hopen, rfl⟩ := brackets_eq_some_iff.1 hbrackets
      rcases h with hmem | hparts | hhead
      · exact absurd (by simp) hmem
      · exact absurd rfl (hparts _ _)
      · obtain ⟨c, type, rfl⟩ := List.exists_cons_of_ne_nil hne
        obtain rfl := Option.some.inj hhead
        exact absurd List.mem_cons_self hopen

theorem readPositional_eq_error_iff {s : String} {e : SelectorError} :
    readPositional s = .error e ↔ Fault s e := by
  constructor
  · intro h
    unfold readPositional at h
    split at h
    · next hsize =>
      cases h
      exact .tooShort hsize
    next hsize =>
    have hsize := Nat.not_lt.1 hsize
    split at h
    · next body hs =>
      split at h
      · next fault _ hoffence =>
        cases h
        exact .outOfPlace hsize hs (offence_eq_some_iff.1 hoffence)
      · next hoffence hbrackets =>
        cases h
        have hclear : Clear [] body [] := offence_eq_none_iff.1 hoffence
        exact .malformed hsize hs hclear ((brackets_eq_none_iff hclear).1 hbrackets)
      · next first index hoffence hbrackets =>
        obtain ⟨hne, hopen, rfl⟩ := brackets_eq_some_iff.1 hbrackets
        split at h
        · next fault hread =>
          cases h
          exact .indexNotNumeric hsize hs (offence_eq_none_iff.1 hoffence) hne hread
        · cases h
    · next hs =>
      cases h
      refine .missingAt hsize fun hhead => ?_
      cases hlist : s.toList with
      | nil => simp [hlist] at hhead
      | cons c body =>
        rw [hlist] at hhead
        exact hs body (by rw [hlist, Option.some.inj hhead])
  · intro h
    cases h with
    | tooShort h => rw [readPositional, if_pos h]
    | missingAt hsize h =>
      rw [readPositional, if_neg (Nat.not_lt.2 hsize)]
      split
      · next body hs => simp [hs] at h
      · rfl
    | outOfPlace hsize hs h =>
      rw [readPositional, if_neg (Nat.not_lt.2 hsize), hs]
      have hoffence : offence false _ = some e := offence_eq_some_iff.2 h
      simp only [hoffence]
    | malformed hsize hs hclear h =>
      have hoffence : offence false _ = none := offence_eq_none_iff.2 hclear
      rw [readPositional, if_neg (Nat.not_lt.2 hsize), hs]
      simp only [hoffence, (brackets_eq_none_iff hclear).2 h]
    | @indexNotNumeric hsize type index fault hs hclear hne h =>
      have hoffence : offence false _ = none := offence_eq_none_iff.2 hclear
      have hbrackets : brackets _ = some (type, index) :=
        brackets_eq_some_iff.2 ⟨hne, hclear.notMem_open, rfl⟩
      rw [readPositional, if_neg (Nat.not_lt.2 hsize), hs]
      simp only [hoffence, hbrackets, h]

/-! ## Reading by byte offsets -/

/-- The offset of the opening bracket in what is left of a selector from an offset on, given the
offset of one that has been seen, or 0. `last` is the offset of the last byte. -/
def scan (last : Nat) : Nat → Nat → List Char → Except SelectorError Nat
  | _, seen, [] => .ok seen
  | offset, seen, c :: rest =>
    if c = '@' ∧ offset ≠ 0 then .error .secondAt
    else if c = '[' ∧ seen > 0 then .error .secondOpenBracket
    else if c = ']' ∧ offset ≠ last then .error .earlyCloseBracket
    else scan last (offset + c.utf8Size) (if c = '[' then offset else seen) rest

/-- Reads the type and the index of a selector as its slices before and after the offset of the
opening bracket. There is no outcome if one of them is no slice. -/
def readSlices? (last opened : Nat) (s : List Char) :
    Option (Except SelectorError (String × Int)) :=
  if opened = 0 ∨ opened ≥ last ∨ s.getLast? ≠ some ']' then some (.error .malformed)
  else
    (slice? 1 opened s).bind fun type =>
      if type = [] then some (.error .malformed)
      else
        (slice? (opened + 1) last s).map fun index =>
          match readInt64 index with
          | .error fault => .error (.indexNotNumeric (String.ofList index) fault)
          | .ok n => .ok (String.ofList type, n)

/-- Reads a positional selector by byte offsets. There is no outcome if a slice is taken where there
is none. -/
def readBytes? (s : String) : Option (Except SelectorError (String × Int)) :=
  if s.utf8ByteSize < leastSize then some (.error .tooShort)
  else if s.toList.head? ≠ some '@' then some (.error .missingAt)
  else
    match scan (s.utf8ByteSize - 1) 0 0 s.toList with
    | .error fault => some (.error fault)
    | .ok opened => readSlices? (s.utf8ByteSize - 1) opened s.toList

/-- The scan finds the faults that a selector has by its characters. -/
theorem scan_eq {last offset seen : Nat} {rest : List Char} (hoffset : 0 < offset)
    (hlast : last + 1 = offset + byteLength rest) :
    scan last offset seen rest =
      match offence (decide (0 < seen)) rest with
      | some fault => .error fault
      | none => .ok (if 0 < seen ∨ '[' ∉ rest then seen
          else offset + byteLength (cut '[' rest).1) := by
  induction rest generalizing offset seen with
  | nil => simp [scan, offence]
  | cons c rest ih =>
    rw [byteLength_cons] at hlast
    have hrest {seen : Nat} := @ih (offset + c.utf8Size) seen (by omega) (by omega)
    rw [scan, offence]
    by_cases hat : c = '@'
    · rw [if_pos hat, if_pos ⟨hat, by omega⟩]
    rw [if_neg hat, if_neg (by simp [hat])]
    by_cases hopen : c = '['
    · subst hopen
      by_cases hseen : 0 < seen
      · simp [hseen]
      · simp [hseen, hrest, hoffset, cut]
    rw [if_neg hopen, if_neg (by simp [hopen])]
    -- A closing bracket is the last character if and only if it is at the offset of the last byte.
    have hclose : (c = ']' ∧ offset ≠ last) ↔ c = ']' ∧ rest ≠ [] := by
      refine and_congr_right fun hc => not_congr ?_
      have hsize : c.utf8Size = 1 := by
        rw [hc]
        decide
      rw [← byteLength_eq_zero]
      omega
    by_cases hearly : c = ']' ∧ rest ≠ []
    · rw [if_pos (hclose.2 hearly), if_neg hopen, if_pos hearly]
    · rw [if_neg fun h => hearly (hclose.1 h), if_neg hopen, if_neg hearly, hrest, cut,
        if_neg hopen, byteLength_cons]
      simp [Ne.symm hopen, Nat.add_assoc]

/-- The `@` is at the offset 0, and so the bracket is not. -/
theorem scan_selector (body : List Char) :
    scan (byteLength body) 0 0 ('@' :: body) =
      match offence false body with
      | some fault => .error fault
      | none => .ok (if '[' ∈ body then 1 + byteLength (cut '[' body).1 else 0) := by
  have hbody := @scan_eq (byteLength body) 1 0 body (by omega) (by omega)
  have hpass : scan (byteLength body) 0 0 ('@' :: body) = scan (byteLength body) 1 0 body := by
    simp [scan]
    rfl
  rw [hpass, hbody]
  simp

/-- The type and the index are slices of a selector. -/
theorem slices_selector (type index : List Char) :
    slice? 1 (1 + byteLength type) ('@' :: (type ++ '[' :: (index ++ [']']))) = some type ∧
      slice? (1 + byteLength type + 1) (byteLength (type ++ '[' :: (index ++ [']'])))
        ('@' :: (type ++ '[' :: (index ++ [']']))) = some index := by
  have hsigns : '@'.utf8Size = 1 ∧ '['.utf8Size = 1 ∧ ']'.utf8Size = 1 := by decide
  constructor
  · exact slice?_eq_some_iff.2 ⟨['@'], '[' :: (index ++ [']']), by simp, rfl, rfl⟩
  · refine slice?_eq_some_iff.2 ⟨'@' :: (type ++ ['[']), [']'], by simp, ?_, ?_⟩
    · simp only [byteLength_cons, byteLength_append, byteLength_nil]
      omega
    · simp only [byteLength_cons, byteLength_append, byteLength_nil]
      omega

theorem readSlices?_eq {body : List Char} (hclear : Clear [] body []) :
    readSlices? (byteLength body) (if '[' ∈ body then 1 + byteLength (cut '[' body).1 else 0)
        ('@' :: body) =
      some (match brackets body with
        | none => .error .malformed
        | some (type, index) =>
          match readInt64 index with
          | .error fault => .error (.indexNotNumeric (String.ofList index) fault)
          | .ok n => .ok (String.ofList type, n)) := by
  by_cases hmem : '[' ∈ body
  · obtain ⟨type, tail, rfl, hopen⟩ := List.eq_append_cons_of_mem hmem
    have hcut : cut '[' (type ++ '[' :: tail) = (type, some tail) := cut_eq_some_iff.2 ⟨hopen, rfl⟩
    rw [if_pos hmem, hcut, readSlices?]
    by_cases hclosed : tail.getLast? = some ']'
    · obtain ⟨index, rfl⟩ := List.getLast?_eq_some_iff.1 hclosed
      obtain ⟨htype, hindex⟩ := slices_selector type index
      have hinside : 1 + byteLength type < byteLength (type ++ '[' :: (index ++ [']'])) := by
        have hsigns : '['.utf8Size = 1 ∧ ']'.utf8Size = 1 := by decide
        simp only [byteLength_cons, byteLength_append, byteLength_nil]
        omega
      have hpass : ¬ (1 + byteLength type = 0 ∨
          1 + byteLength type ≥ byteLength (type ++ '[' :: (index ++ [']'])) ∨
          ('@' :: (type ++ '[' :: (index ++ [']']))).getLast? ≠ some ']') := by
        rintro (h | h | h)
        · omega
        · omega
        · exact h (List.getLast?_eq_some_iff.2 ⟨'@' :: (type ++ '[' :: index), by simp⟩)
      rw [if_neg hpass, htype, Option.bind_some]
      by_cases hne : type = []
      · subst hne
        rw [if_pos rfl, (brackets_eq_none_iff hclear).2 (.inr (.inr rfl))]
      · have hbrackets : brackets _ = some (type, index) :=
          brackets_eq_some_iff.2 ⟨hne, hopen, rfl⟩
        rw [if_neg hne, hindex, hbrackets]
        rfl
    · have hlast : ('@' :: (type ++ '[' :: tail)).getLast? ≠ some ']' := by
        rw [show '@' :: (type ++ '[' :: tail) = ('@' :: type) ++ '[' :: tail from rfl,
          List.getLast?_append]
        cases tail with
        | nil => simp
        | cons d tail => simpa [List.getLast?_cons_cons, List.getLast?_cons] using hclosed
      have hparts : ∀ first index, type ++ '[' :: tail ≠ first ++ '[' :: (index ++ [']']) := by
        intro first index heq
        apply hlast
        rw [heq]
        exact List.getLast?_eq_some_iff.2 ⟨'@' :: (first ++ '[' :: index), by simp⟩
      rw [if_pos (.inr (.inr hlast)), (brackets_eq_none_iff hclear).2 (.inr (.inl hparts))]
  · rw [if_neg hmem, (brackets_eq_none_iff hclear).2 (.inl hmem)]
    rfl

/-- Reading by byte offsets comes to the same as reading by characters, and each slice that it takes
is a slice of the text. -/
theorem readBytes?_eq (s : String) : readBytes? s = some (readPositional s) := by
  unfold readBytes? readPositional
  by_cases hsize : s.utf8ByteSize < leastSize
  · rw [if_pos hsize, if_pos hsize]
  rw [if_neg hsize, if_neg hsize]
  have hbytes := byteLength_toList s
  cases hs : s.toList with
  | nil => simp
  | cons c body =>
    by_cases hat : c = '@'
    · subst hat
      have hlast : s.utf8ByteSize - 1 = byteLength body := by
        have hat : '@'.utf8Size = 1 := by decide
        rw [hs, byteLength_cons] at hbytes
        omega
      rw [hlast, scan_selector, if_neg (by simp)]
      cases hoffence : offence false body with
      | some fault => simp only [hoffence]
      | none =>
        simp only [hoffence, readSlices?_eq (offence_eq_none_iff.1 hoffence)]
        cases brackets body <;> rfl
    · simp [hat]

-- A bracket after a type of several bytes.
example : readBytes? "@é[-1]" = some (.ok ("é", -1)) := rfl

/-! ## The grammar -/

/-- A text is read as a positional selector if and only if it is one, with an index that fits. Any
other text has one fault. No slice is taken where the text has none. -/
theorem readPositional_iff (s : String) :
    (∀ type index, readPositional s = .ok (type, index) ↔ IsPositional s type index) ∧
      (∀ e, readPositional s = .error e ↔ Fault s e) ∧ readBytes? s = some (readPositional s) :=
  ⟨fun _ _ => readPositional_eq_ok_iff, fun _ => readPositional_eq_error_iff, readBytes?_eq s⟩

end UnifiedConfig.Selector
