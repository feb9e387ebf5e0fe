import UnifiedConfig.Config.Lookup
import UnifiedConfig.Proofs.Selectors

/-!
# What a selector finds

A name finds the first section that has it, or none. A positional selector finds the section that
has as many sections of its type before it as the index says, and an index that is out of range is in
error. So a positional selector never finds nothing.

An index and a count of sections may be as far apart as 64 bits allow. Their arithmetic stays within
these bits.

* `resolve_eq_ok_iff`: which index stands for which ordinal.
* `resolve64?_eq`: no step overflows in 64-bit arithmetic.
* `placeOf?_eq_some_iff`, `exists_placeOf?`: the section of a type at an ordinal.
* `find_resolves`: what each selector finds.
-/

namespace UnifiedConfig

open Text

/-! ## Indices -/

namespace Selector

theorem resolve_eq_ok_iff {index : Int} {count ordinal : Nat} :
    resolve index count = .ok ordinal ↔ -(count : Int) ≤ index ∧ index < count ∧
      (ordinal : Int) = if index < 0 then index + count else index := by
  unfold resolve
  split
  · next hout => simp; omega
  · next hin =>
    rw [Except.ok.injEq]
    split <;> omega

theorem resolve_of_outOfBounds {index : Int} {count : Nat} (h : index < -count ∨ count ≤ index) :
    resolve index count = .error .outOfBounds := by
  rw [resolve, if_pos (by omega)]

/-- What a step of signed 64-bit arithmetic gives, unless it overflows. -/
def step64? (n : Int) : Option Int :=
  if int64Min ≤ n ∧ n ≤ int64Max then some n else none

/-- The ordinal that an index stands for among `count` sections, in steps of signed 64-bit
arithmetic. A count that does not fit is taken for the greatest integer. There is no outcome if a
step overflows. -/
def resolve64? (index : Int) (count : Nat) : Option (Except SelectorError Nat) :=
  let count : Int := if (count : Int) ≤ int64Max then count else int64Max
  if index ≥ count then some (.error .outOfBounds)
  else
    (step64? (-count)).bind fun least =>
      if index < least then some (.error .outOfBounds)
      else
        (if index < 0 then step64? (index + count) else some index).map fun ordinal =>
          if ordinal < 0 then .error .outOfBounds else .ok ordinal.toNat

/-- No step overflows, whatever the index and the count are. -/
theorem resolve64?_eq {index : Int} (hindex : int64Min ≤ index ∧ index ≤ int64Max) (count : Nat) :
    resolve64? index count = some (resolve index (min count int64Max.toNat)) := by
  have hleast : int64Min = -int64Max - 1 := by decide
  have hgreatest : 0 < int64Max := by decide
  have hcount : (if (count : Int) ≤ int64Max then (count : Int) else int64Max) =
      (min count int64Max.toNat : Nat) := by
    split <;> omega
  have hfits : ((min count int64Max.toNat : Nat) : Int) ≤ int64Max := by omega
  unfold resolve64?
  rw [hcount]
  generalize min count int64Max.toNat = n at hfits
  -- The count is not negative, so its opposite fits, and so does its sum with a negative index.
  have hopposite : step64? (-n) = some (-(n : Int)) := by
    rw [step64?, if_pos (by omega)]
  have hsum : index < 0 → step64? (index + n) = some (index + n) := by
    intro hneg
    rw [step64?, if_pos (by omega)]
  simp only [hopposite, Option.bind_some]
  by_cases hout : index < -n ∨ n ≤ index
  · rw [resolve_of_outOfBounds hout]
    by_cases hlarge : index ≥ n
    · rw [if_pos hlarge]
    · rw [if_neg hlarge, if_pos (by omega)]
  · have hbelow : ¬ index ≥ n := by omega
    have habove : ¬ index < -n := by omega
    rw [if_neg hbelow, if_neg habove, resolve, if_neg (show ¬ (index ≥ n ∨ index < -n) by omega)]
    by_cases hneg : index < 0
    · rw [if_pos hneg, hsum hneg, Option.map_some, if_neg (show ¬ index + n < 0 by omega),
        if_pos hneg]
    · rw [if_neg hneg, Option.map_some, if_neg hneg, if_neg hneg]

end Selector

namespace Config

/-! ## Places -/

/-- Whether the section at a place is of a type and has a number of sections of the type before
it. -/
def HasOrdinal (c : Config) (type : String) (ordinal : Int) (i : Nat) (s : Section) : Prop :=
  c.sections[i]? = some s ∧ s.type = type ∧ (c.countBefore type i : Int) = ordinal

theorem placeOf?_eq_some_iff {type : String} {ordinal : Nat} {sections : List Section} {i : Nat} :
    placeOf? type ordinal sections = some i ↔ ∃ s, sections[i]? = some s ∧ s.type = type ∧
      (sections.take i).countP (·.type == type) = ordinal := by
  induction sections generalizing ordinal i with
  | nil => simp [placeOf?]
  | cons s rest ih =>
    by_cases htype : s.type = type
    · cases i with
      | zero =>
        cases ordinal with
        | zero => simp [placeOf?, htype]
        | succ ordinal => simp [placeOf?, htype]
      | succ i =>
        cases ordinal with
        | zero => simp [placeOf?, htype]
        | succ ordinal => simp [placeOf?, htype, ih]
    · cases i with
      | zero => simp [placeOf?, htype]
      | succ i => simp [placeOf?, htype, ih]

/-- There is a section at each ordinal below the number of sections of the type. -/
theorem exists_placeOf? {type : String} {ordinal : Nat} {sections : List Section}
    (h : ordinal < sections.countP (·.type == type)) :
    ∃ i, placeOf? type ordinal sections = some i := by
  induction sections generalizing ordinal with
  | nil => simp at h
  | cons s rest ih =>
    rw [List.countP_cons] at h
    by_cases htype : s.type = type
    · cases ordinal with
      | zero => exact ⟨0, by simp [placeOf?, htype]⟩
      | succ ordinal =>
        obtain ⟨i, hi⟩ := @ih ordinal (by simp [htype] at h; omega)
        exact ⟨i + 1, by simp [placeOf?, htype, hi]⟩
    · obtain ⟨i, hi⟩ := @ih ordinal (by simpa [htype] using h)
      exact ⟨i + 1, by simp [placeOf?, htype, hi]⟩

/-- What an index picks among the sections of a type. -/
theorem placeAt_eq_ok_iff {c : Config} {type : String} {index : Int} {place : Option Nat} :
    c.placeAt type index = .ok place ↔ ∃ ordinal : Nat,
      Selector.resolve index (c.count type) = .ok ordinal ∧
        placeOf? type ordinal c.sections = place := by
  unfold placeAt
  cases Selector.resolve index (c.count type) with
  | error fault => simp [Except.map]
  | ok ordinal => simp [Except.map]

/-- An index in range picks the section at its ordinal, and there is no other section at it. -/
theorem exists_placeAt {c : Config} {type : String} {index : Int}
    (h : -(c.count type : Int) ≤ index ∧ index < c.count type) :
    ∃ i s, c.placeAt type index = .ok (some i) ∧
      c.HasOrdinal type (if index < 0 then index + c.count type else index) i s ∧
      ∀ j t, c.HasOrdinal type (if index < 0 then index + c.count type else index) j t →
        j = i := by
  obtain ⟨ordinal, hordinal⟩ : ∃ ordinal : Nat,
      (ordinal : Int) = if index < 0 then index + c.count type else index := by
    split
    · exact ⟨(index + c.count type).toNat, by omega⟩
    · exact ⟨index.toNat, by omega⟩
  have hresolve := Selector.resolve_eq_ok_iff.2 ⟨h.1, h.2, hordinal⟩
  have hlt : ordinal < c.sections.countP (·.type == type) := by
    have hcount : c.count type = c.sections.countP (·.type == type) := rfl
    split at hordinal <;> omega
  obtain ⟨i, hi⟩ := exists_placeOf? hlt
  obtain ⟨s, hs, htype, hbefore⟩ := placeOf?_eq_some_iff.1 hi
  rw [← hordinal]
  refine ⟨i, s, placeAt_eq_ok_iff.2 ⟨ordinal, hresolve, hi⟩, ⟨hs, htype, congrArg _ hbefore⟩, ?_⟩
  rintro j t ⟨ht, htype', hbefore'⟩
  have hj := placeOf?_eq_some_iff.2 ⟨t, ht, htype', Int.ofNat_inj.1 hbefore'⟩
  exact Option.some.inj (hj.symm.trans hi)

theorem placeAt_of_outOfBounds {c : Config} {type : String} {index : Int}
    (h : index < -(c.count type : Int) ∨ c.count type ≤ index) :
    c.placeAt type index = .error .outOfBounds := by
  rw [placeAt, Selector.resolve_of_outOfBounds h]
  rfl

/-! ## Selectors -/

/-- Whether a section is the first one that has a name of its own, the given one. -/
def IsFirstNamed (c : Config) (name : String) (i : Nat) (s : Section) : Prop :=
  c.sections[i]? = some s ∧ s.name ≠ "" ∧ s.name = name ∧
    ∀ j t, j < i → c.sections[j]? = some t → t.name ≠ "" → t.name ≠ name

theorem hasName_iff {s : Section} {name : String} :
    s.hasName name = true ↔ s.name ≠ "" ∧ s.name = name := by
  simp [Section.hasName, Section.isUnnamed]

theorem placeNamed?_cases (c : Config) (name : String) :
    (∃ i s, c.placeNamed? name = some i ∧ c.IsFirstNamed name i s) ∨
      c.placeNamed? name = none ∧ ∀ s ∈ c.sections, s.name ≠ "" → s.name ≠ name := by
  cases hplace : c.placeNamed? name with
  | none =>
    refine .inr ⟨rfl, fun s hs hne heq => ?_⟩
    have hnot := List.findIdx?_eq_none_iff.1 hplace s hs
    rw [hasName_iff.2 ⟨hne, heq⟩] at hnot
    cases hnot
  | some i =>
    obtain ⟨hi, hhere, hbefore⟩ := List.findIdx?_eq_some_iff_getElem.1 hplace
    obtain ⟨hne, heq⟩ := hasName_iff.1 hhere
    refine .inl ⟨i, _, rfl, List.getElem?_eq_getElem hi, hne, heq, fun j t hj ht hne heq => ?_⟩
    obtain ⟨hlt, rfl⟩ := List.getElem?_eq_some_iff.1 ht
    exact hbefore j hj (hasName_iff.2 ⟨hne, heq⟩)

theorem place_of_name {c : Config} {selector : String} (h : selector.toList.head? ≠ some '@') :
    c.place selector = .ok (c.placeNamed? selector) := by
  rw [place, Selector.parse, if_neg h]
  rfl

theorem place_of_at {c : Config} {selector : String} (h : selector.toList.head? = some '@') :
    c.place selector = c.placePositional selector := by
  rw [place, Selector.parse, if_pos h, placePositional]
  cases Selector.readPositional selector <;> rfl

theorem head?_of_readPositional {selector type : String} {index : Int}
    (h : Selector.readPositional selector = .ok (type, index)) :
    selector.toList.head? = some '@' := by
  obtain ⟨_, htext, -⟩ := (Selector.readPositional_eq_ok_iff.1 h).text
  rw [htext]
  rfl

theorem place_of_readPositional {c : Config} {selector type : String} {index : Int}
    (h : Selector.readPositional selector = .ok (type, index)) :
    c.place selector = c.placeAt type index := by
  rw [place_of_at (head?_of_readPositional h), placePositional, h]
  rfl

/-- A section is found where it is. -/
theorem find_of_place {c : Config} {selector : String} {i : Nat} {s : Section}
    (hplace : c.place selector = .ok (some i)) (hs : c.sections[i]? = some s) :
    c.find selector = .ok (some s) := by
  rw [find, hplace]
  exact congrArg Except.ok hs

/-- A name finds the first section that has it, or none. Any other text that is no positional
selector is in error. A positional selector finds the section that has as many sections of its type
before it as its index says, counted from the end if it is negative; it is in error if the index is
out of range. The index is resolved within 64 bits. -/
theorem find_resolves (c : Config) (selector : String) :
    (selector.toList.head? ≠ some '@' →
      (∃ i s, c.IsFirstNamed selector i s ∧ c.place selector = .ok (some i) ∧
        c.find selector = .ok (some s)) ∨
      (∀ s ∈ c.sections, s.name ≠ "" → s.name ≠ selector) ∧ c.find selector = .ok none) ∧
    (selector.toList.head? = some '@' →
      ∀ e, Selector.readPositional selector = .error e → c.find selector = .error e) ∧
    (∀ type index, Selector.readPositional selector = .ok (type, index) →
      c.find selector ≠ .ok none ∧
      (-(c.count type : Int) ≤ index ∧ index < c.count type → ∃ i s,
        c.HasOrdinal type (if index < 0 then index + c.count type else index) i s ∧
        (∀ j t, c.HasOrdinal type (if index < 0 then index + c.count type else index) j t →
          j = i) ∧
        c.place selector = .ok (some i) ∧ c.find selector = .ok (some s)) ∧
      (index < -(c.count type : Int) ∨ c.count type ≤ index →
        c.find selector = .error .outOfBounds)) ∧
    ∀ (index : Int) (count : Nat), int64Min ≤ index ∧ index ≤ int64Max →
      Selector.resolve64? index count =
        some (Selector.resolve index (min count int64Max.toNat)) := by
  refine ⟨fun hat => ?_, fun hat e hread => ?_, fun type index hread => ?_,
    fun index count hindex => Selector.resolve64?_eq hindex count⟩
  · have hplace := place_of_name (c := c) hat
    rcases placeNamed?_cases c selector with ⟨i, s, hi, hfirst⟩ | ⟨hnone, hall⟩
    · rw [hi] at hplace
      exact .inl ⟨i, s, hfirst, hplace, find_of_place hplace hfirst.1⟩
    · rw [hnone] at hplace
      exact .inr ⟨hall, by rw [find, hplace]; rfl⟩
  · rw [find, place_of_at hat, placePositional, hread]
    rfl
  · have hplace := place_of_readPositional (c := c) hread
    have hout (h : index < -(c.count type : Int) ∨ c.count type ≤ index) :
        c.find selector = .error .outOfBounds := by
      rw [find, hplace, placeAt_of_outOfBounds h]
      rfl
    have hin (h : -(c.count type : Int) ≤ index ∧ index < c.count type) : ∃ i s,
        c.HasOrdinal type (if index < 0 then index + c.count type else index) i s ∧
        (∀ j t, c.HasOrdinal type (if index < 0 then index + c.count type else index) j t →
          j = i) ∧
        c.place selector = .ok (some i) ∧ c.find selector = .ok (some s) := by
      obtain ⟨i, s, hi, hs, hunique⟩ := exists_placeAt h
      rw [← hplace] at hi
      exact ⟨i, s, hs, hunique, hi, find_of_place hi hs.1⟩
    refine ⟨fun hnone => ?_, hin, hout⟩
    by_cases h : -(c.count type : Int) ≤ index ∧ index < c.count type
    · obtain ⟨_, _, -, -, -, hfind⟩ := hin h
      rw [hfind] at hnone
      cases hnone
    · rw [hout (by omega)] at hnone
      cases hnone

/-- Of two interfaces the first has a name. The second one is found from either end, and an index
at the end of its range finds nothing. -/
theorem find_resolves_interface :
    let wan : Section := { type := "interface" }
    let c : Config :=
      { name := "network", sections := [{ type := "interface", name := "lan" }, wan] }
    c.find "@interface[-1]" = .ok (some wan) ∧
      c.find "@interface[-9223372036854775808]" = .error .outOfBounds ∧
      c.find "wan" = .ok none := by
  intro wan c
  refine ⟨?_, ?_, ?_⟩
  · obtain ⟨-, -, hpositional, -⟩ := find_resolves c "@interface[-1]"
    obtain ⟨i, s, hs, hunique, -, hfind⟩ := (hpositional "interface" (-1) rfl).2.1 (by decide)
    obtain rfl := hunique 1 wan ⟨rfl, rfl, by decide⟩
    rw [hfind, ← hs.1]
    rfl
  · obtain ⟨-, -, hpositional, -⟩ := find_resolves c "@interface[-9223372036854775808]"
    exact (hpositional "interface" int64Min rfl).2.2 (by decide)
  · obtain ⟨hname, -⟩ := find_resolves c "wan"
    rcases hname (by decide) with ⟨i, s, ⟨hs, -, heq, -⟩, -⟩ | ⟨-, hnone⟩
    · -- Neither section has the name.
      have hnames : ∀ t ∈ c.sections, t.name ≠ "wan" := by decide
      exact absurd heq (hnames s (List.mem_of_getElem? hs))
    · exact hnone

end Config

end UnifiedConfig
