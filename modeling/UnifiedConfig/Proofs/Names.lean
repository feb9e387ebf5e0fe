import UnifiedConfig.Config.Merge

/-!
# The names that sections go by

The name that a section goes by depends on the types and the names of the sections up to it, and on
nothing after it.

* `names_take_congr`: the names of the first sections follow from their headings.
* `mergeAt_cases`: what a merge does.
* `Fresh`: no section has the name of a section before it, and so no two have the same name.
-/

namespace UnifiedConfig

/-- The type and the name of a section. -/
def Section.heading (s : Section) : String × String :=
  (s.type, s.name)

namespace Config

theorem names_getElem? (c : Config) (i : Nat) :
    c.names[i]? = c.sections[i]?.map fun s => s.nameAt (c.countBefore s.type i) := by
  simp [names]

/-- The sections on both sides of a place. -/
theorem exists_around {c : Config} {i : Nat} {s : Section} (hs : c.sections[i]? = some s) :
    ∃ before after, c.sections = before ++ s :: after ∧ before.length = i := by
  obtain ⟨hi, rfl⟩ := List.getElem?_eq_some_iff.1 hs
  refine ⟨c.sections.take i, c.sections.drop (i + 1), ?_, List.length_take_of_le (by omega)⟩
  rw [← List.drop_eq_getElem_cons hi, List.take_append_drop]

/-- The ordinal of a section is less than the number of sections of its type. -/
theorem countBefore_lt_count {c : Config} {i : Nat} {s : Section}
    (hs : c.sections[i]? = some s) : c.countBefore s.type i < c.count s.type := by
  obtain ⟨hi, rfl⟩ := List.getElem?_eq_some_iff.1 hs
  have hcount : c.count c.sections[i].type = c.countBefore c.sections[i].type i +
      (c.sections.drop i).countP (·.type == c.sections[i].type) := by
    rw [count, countBefore, ← List.countP_append, List.take_append_drop]
  have hhere : 0 < (c.sections.drop i).countP (·.type == c.sections[i].type) := by
    rw [List.drop_eq_getElem_cons hi, List.countP_pos_iff]
    exact ⟨_, List.mem_cons_self, by simp⟩
  omega

theorem length_names (c : Config) : c.names.length = c.sections.length := by
  simp [names]

/-- The first names follow from the headings of the first sections. -/
theorem names_take_congr {c d : Config} {i : Nat}
    (h : (c.sections.take i).map Section.heading = (d.sections.take i).map Section.heading) :
    c.names.take i = d.names.take i := by
  apply List.ext_getElem?
  intro j
  rw [List.getElem?_take, List.getElem?_take]
  split
  · next hj =>
    -- An ordinal counts types among the sections before, and these are the same.
    have hcount : ∀ type, c.countBefore type j = d.countBefore type j := by
      intro type
      have hj' : min j i = j := Nat.min_eq_left (Nat.le_of_lt hj)
      have htake := congrArg (fun l => (l.take j).countP (·.1 == type)) h
      simp only [← List.map_take, List.take_take, hj', List.countP_map] at htake
      exact htake
    have hheading := congrArg (·[j]?) h
    simp only [List.getElem?_map, List.getElem?_take, hj, if_true] at hheading
    -- Beside the ordinal, the name depends on the heading of the section alone.
    rw [names_getElem?, names_getElem?]
    cases hc : c.sections[j]? with
    | none =>
      rw [hc] at hheading
      cases hd : d.sections[j]? with
      | none => rfl
      | some s => simp [hd] at hheading
    | some s =>
      rw [hc] at hheading
      cases hd : d.sections[j]? with
      | none => simp [hd] at hheading
      | some t =>
        simp only [hd, Option.map_some, Option.some.injEq, Section.heading, Prod.mk.injEq]
          at hheading
        simp [Section.nameAt, Section.isUnnamed, hheading, hcount]
  · rfl

theorem names_congr {c d : Config}
    (h : c.sections.map Section.heading = d.sections.map Section.heading) : c.names = d.names := by
  have hlength : c.sections.length = d.sections.length := by simpa using congrArg List.length h
  have htake := @names_take_congr c d c.sections.length (by
    rw [List.take_of_length_le (Nat.le_refl _), hlength, List.take_of_length_le (Nat.le_refl _), h])
  rwa [List.take_of_length_le (by simp [length_names]),
    List.take_of_length_le (by simp [length_names, hlength])] at htake

/-- A section put at the end changes no name that an earlier section goes by. -/
theorem names_push (c : Config) (s : Section) :
    (c.push s).names = c.names ++ [s.nameAt (c.count s.type)] := by
  apply List.ext_getElem?
  intro i
  have hpush : (c.push s).sections = c.sections ++ [s] := rfl
  rcases Nat.lt_trichotomy i c.sections.length with hi | rfl | hi
  · have htake := @names_take_congr (c.push s) c (i + 1) (by
      rw [hpush, List.take_append_of_le_length hi])
    have hget := congrArg (·[i]?) htake
    simp only [List.getElem?_take, Nat.lt_succ_self, if_true] at hget
    rw [hget, List.getElem?_append_left (by rwa [length_names])]
  · rw [names_getElem?, hpush, List.getElem?_concat_length, ← length_names,
      List.getElem?_concat_length, length_names]
    simp [countBefore, count, hpush]
  · rw [List.getElem?_eq_none (by simp [length_names, hpush]; omega),
      List.getElem?_eq_none (by simp [length_names]; omega)]

/-- A change that keeps types and names keeps all headings. -/
theorem headings_changeAt (c : Config) (i : Nat) {change : Section → Section}
    (h : ∀ s, (change s).heading = s.heading) :
    (c.changeAt i change).sections.map Section.heading = c.sections.map Section.heading := by
  apply List.ext_getElem?
  intro j
  simp only [changeAt, List.getElem?_map, List.getElem?_modify]
  cases c.sections[j]? with
  | none => rfl
  | some s =>
    simp only [Option.map_some]
    split <;> simp [h]

/-- What holds of all sections holds of them after a change of one that keeps it up. -/
theorem forall_changeAt {c : Config} {P : Section → Prop} (h : ∀ s ∈ c.sections, P s) (i : Nat)
    {change : Section → Section} (hchange : ∀ s, P s → P (change s)) :
    ∀ s ∈ (c.changeAt i change).sections, P s := by
  intro t ht
  obtain ⟨j, hj⟩ := List.getElem?_of_mem ht
  simp only [changeAt, List.getElem?_modify] at hj
  obtain ⟨s, hs, rfl⟩ := Option.map_eq_some_iff.1 hj
  have hold := h s (List.mem_of_getElem? hs)
  split
  · exact hchange s hold
  · exact hold

theorem forall_push {c : Config} {P : Section → Prop} (h : ∀ s ∈ c.sections, P s) {s : Section}
    (hs : P s) : ∀ t ∈ (c.push s).sections, P t := by
  intro t ht
  rcases List.mem_append.1 ht with ht | ht
  · exact h t ht
  · rwa [List.mem_singleton.1 ht]

/-- A named section goes by its own name. -/
theorem mem_names_of_mem {c : Config} {s : Section} (hs : s ∈ c.sections) (hname : s.name ≠ "") :
    s.name ∈ c.names := by
  obtain ⟨i, hi⟩ := List.getElem?_of_mem hs
  apply List.mem_of_getElem? (i := i)
  rw [names_getElem?, hi]
  simp [Section.nameAt, Section.isUnnamed, hname]

/-! ## Merges -/

theorem findIdx?_names_eq_none_iff {c : Config} {name : String} :
    c.names.findIdx? (· == name) = none ↔ name ∉ c.names := by
  rw [List.findIdx?_eq_none_iff]
  constructor
  · intro h hmem
    simpa using h name hmem
  · intro h other hmem
    have hne : other ≠ name := fun heq => h (heq ▸ hmem)
    simpa using hne

/-- There is a section at the place of a name, and it goes by it. -/
theorem exists_of_findIdx?_names {c : Config} {name : String} {i : Nat}
    (h : c.names.findIdx? (· == name) = some i) :
    ∃ s, c.sections[i]? = some s ∧ s.nameAt (c.countBefore s.type i) = name := by
  obtain ⟨hlt, hhere, -⟩ := List.findIdx?_eq_some_iff_getElem.1 h
  have hget := c.names_getElem? i
  rw [List.getElem?_eq_getElem hlt, beq_iff_eq.1 hhere] at hget
  exact Option.map_eq_some_iff.1 hget.symm

/-- A merge appends the section, or changes the first one that goes by its name. -/
theorem mergeAt_cases (c : Config) (s : Section) (ordinal : Nat) :
    (s.nameAt ordinal ∉ c.names ∧ c.mergeAt s ordinal = (c.push s, c.sections.length)) ∨
    ∃ i t, c.names.findIdx? (· == s.nameAt ordinal) = some i ∧ c.sections[i]? = some t ∧
      t.nameAt (c.countBefore t.type i) = s.nameAt ordinal ∧
      c.mergeAt s ordinal = ((c.changeAt i (·.mergeAll s.settings)).taint, i) := by
  unfold mergeAt
  cases hfound : c.names.findIdx? (· == s.nameAt ordinal) with
  | none => exact .inl ⟨findIdx?_names_eq_none_iff.1 hfound, rfl⟩
  | some i =>
    obtain ⟨t, ht, hgoes⟩ := exists_of_findIdx?_names hfound
    exact .inr ⟨i, t, rfl, ht, hgoes, rfl⟩

/-! ## Names that are fresh -/

/-- Whether no section has the name that a section before it goes by. -/
def Fresh (c : Config) : Prop :=
  ∀ i s, c.sections[i]? = some s → s.name ≠ "" → s.name ∉ c.names.take i

/-- Where no section has the name that one before it goes by, no two sections have the same name. -/
theorem Fresh.distinct {c : Config} (h : c.Fresh) :
    (c.sections.map (·.name)).Pairwise fun a b => b ≠ "" → a ≠ b := by
  refine List.pairwise_iff_getElem.2 ?_
  intro i j hi hj hij hne heq
  rw [List.length_map] at hi hj
  simp only [List.getElem_map] at hne heq
  refine h j _ (List.getElem?_eq_getElem hj) hne ?_
  rw [← heq, List.mem_take_iff_getElem]
  refine ⟨i, by rw [length_names]; omega, ?_⟩
  have hget := c.names_getElem? i
  rw [List.getElem?_eq_getElem hi, List.getElem?_eq_getElem (by rwa [length_names])] at hget
  rw [Option.some.inj hget]
  simp [Section.nameAt, Section.isUnnamed, heq, hne]

theorem fresh_nil {c : Config} (h : c.sections = []) : c.Fresh := by
  intro i s hs
  simp [h] at hs

/-- A section whose name no section goes by can be put at the end. -/
theorem fresh_push {c : Config} {s : Section} (h : c.Fresh) (hs : s.name = "" ∨ s.name ∉ c.names) :
    (c.push s).Fresh := by
  intro i t ht hname
  have hpush : (c.push s).sections = c.sections ++ [s] := rfl
  rw [hpush, List.getElem?_append] at ht
  split at ht
  · next hi =>
    rw [names_push, List.take_append_of_le_length (by rw [length_names]; omega)]
    exact h i t ht hname
  · next hi =>
    have hst : t = s := by
      rw [List.getElem?_singleton] at ht
      split at ht
      · exact (Option.some.inj ht).symm
      · cases ht
    have hi : i = c.sections.length := by
      rw [List.getElem?_singleton] at ht
      split at ht
      · omega
      · cases ht
    subst hst hi
    rw [names_push, List.take_left' (length_names c)]
    exact hs.resolve_left hname

/-- Freshness follows from the headings. -/
theorem fresh_congr {c d : Config}
    (h : c.sections.map Section.heading = d.sections.map Section.heading) (hc : c.Fresh) :
    d.Fresh := by
  intro i s hs hname
  have hget := congrArg (·[i]?) h
  simp only [List.getElem?_map, hs, Option.map_some] at hget
  obtain ⟨t, ht, hheading⟩ := Option.map_eq_some_iff.1 hget
  have hst : t.name = s.name := congrArg Prod.snd hheading
  rw [← names_congr h, ← hst]
  exact hc i t ht (hst ▸ hname)

end Config

end UnifiedConfig
