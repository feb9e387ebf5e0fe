import UnifiedConfig.Proofs.Lookups
import UnifiedConfig.Proofs.Overlays
import UnifiedConfig.Proofs.Receivers

/-!
# Overlays slot by slot

An unnamed section of a fragment is meant for the section of its type at the same ordinal. Where all
sections of the type are unnamed, an overlay patches the ones that are there, from the first one on,
and appends those that are left. Each section that it appends takes the next ordinal, so no slot is
shifted.

A section that has taken up another one holds its settings from then on, and goes by its name. So
the same overlay changes no section the second time.

* `Section.mergeAll_of_absorbs`: settings that are there already change nothing.
* `slots_mergeAt`: a merge changes one slot of a type, or appends one.
* `slots_overlayFrom`: the slots of a type after sections have been laid over them.
* `holdsAll_overlayFrom`: whatever has been laid over a configuration is held by it.
* `overlay_slots`: what a fragment does to slots, and that it does so once.
-/

namespace UnifiedConfig

/-! ## Settings that are there already -/

namespace Section

variable {s : Section} {o : Setting}

/-- Whether a section has the values of a setting already, under its name. -/
def Absorbs (s : Section) (o : Setting) : Prop :=
  ∃ p, s.find? o.name = some p ∧ ∀ v ∈ o.values, v ∈ p.values

theorem find?_merge (s : Section) (o : Setting) : (s.merge o).find? o.name =
    some (((s.find? o.name).map (·.merge o.values)).getD o) := by
  rcases changeFirstOr_cases o.name (·.merge o.values) o s.settings with ⟨hname, heq⟩ |
    ⟨before, p, after, hsettings, hp, hname, heq⟩
  · have hmerged : (s.merge o).settings = s.settings ++ [o] := heq
    rw [find?, find?, hmerged, List.find?_append, find?_eq_none hname]
    simp
  · have hmerged : (s.merge o).settings = before ++ p.merge o.values :: after := heq
    have hchanged : (p.merge o.values).name = o.name := hp
    rw [find?, find?, hmerged, hsettings, List.find?_append, List.find?_append,
      find?_eq_none hname]
    simp [hchanged, hp]

theorem absorbs_merge (s : Section) (o : Setting) : (s.merge o).Absorbs o := by
  refine ⟨_, find?_merge s o, fun v hv => ?_⟩
  cases s.find? o.name with
  | none => exact hv
  | some p => exact mem_mergeValues.2 (.inr hv)

/-- A merge takes nothing away. -/
theorem Absorbs.merge (h : s.Absorbs o) (q : Setting) : (s.merge q).Absorbs o := by
  obtain ⟨p, hp, hvalues⟩ := h
  by_cases hname : q.name = o.name
  · refine ⟨p.merge q.values, ?_, fun v hv => mem_mergeValues.2 (.inl (hvalues v hv))⟩
    rw [← hname, find?_merge, hname, hp]
    rfl
  · exact ⟨p, by rw [find?_merge_of_ne hname, hp], hvalues⟩

theorem Absorbs.mergeAll (h : s.Absorbs o) (settings : List Setting) :
    (s.mergeAll settings).Absorbs o := by
  induction settings generalizing s with
  | nil => exact h
  | cons q rest ih => exact ih (h.merge q)

theorem absorbs_mergeAll (s : Section) (settings : List Setting) :
    ∀ o ∈ settings, (s.mergeAll settings).Absorbs o := by
  induction settings generalizing s with
  | nil => simp
  | cons q rest ih =>
    intro o ho
    rcases List.mem_cons.1 ho with rfl | ho
    · exact (absorbs_merge s o).mergeAll rest
    · exact ih (s.merge q) o ho

/-- Settings of different names are found as they are. -/
theorem absorbs_of_nodup (h : (s.settings.map (·.name)).Nodup) : ∀ o ∈ s.settings, s.Absorbs o := by
  intro o ho
  obtain ⟨before, after, hsettings⟩ := List.append_of_mem ho
  have hname := Assignment.name_notMem_of_nodup (hsettings ▸ h)
  exact ⟨o, find?_eq_some hsettings hname, fun v hv => hv⟩

theorem merge_of_absorbs (h : s.Absorbs o) : s.merge o = s := by
  obtain ⟨p, hp, hvalues⟩ := h
  have hsettings : (s.merge o).settings = s.settings := by
    rcases merge_cases s o with ⟨hfind, -⟩ | ⟨before, q, after, hsettings, -, hfind, heq⟩
    · rw [hfind] at hp
      cases hp
    · obtain rfl : q = p := Option.some.inj (hfind.symm.trans hp)
      have hsame : q.merge o.values = q := by rw [Setting.merge, mergeValues_of_subset hvalues]
      rw [heq, hsame, hsettings]
  have hmerge : s.merge o = { s with settings := (s.merge o).settings } := rfl
  rw [hmerge, hsettings]

theorem mergeAll_of_absorbs {settings : List Setting} (h : ∀ o ∈ settings, s.Absorbs o) :
    s.mergeAll settings = s := by
  induction settings with
  | nil => rfl
  | cons o rest ih =>
    have hcons : s.mergeAll (o :: rest) = (s.merge o).mergeAll rest := rfl
    rw [hcons, merge_of_absorbs (h o (by simp)), ih fun p hp => h p (by simp [hp])]

end Section

/-! ## Slots -/

/-- Whether a section leaves the synthetic names of a type to the order of sections: it has no name
that could be one, and none at all if it is of the type. -/
def Section.FitsSlots (type : String) (s : Section) : Prop :=
  s.name.toList.head? ≠ some '@' ∧ (s.type = type → s.name = "")

theorem Section.nameAt_eq_text_iff {s : Section} (hat : s.name.toList.head? ≠ some '@')
    {type : String} {k ordinal : Nat} : s.nameAt k = SyntheticName.text type ordinal ↔
      s.name = "" ∧ s.type = type ∧ k = ordinal := by
  by_cases hname : s.name = ""
  · simp [nameAt, isUnnamed, hname, SyntheticName.text_inj]
  · simp only [nameAt, isUnnamed, beq_iff_eq, hname, if_false, false_and, iff_false]
    intro heq
    exact hat (heq ▸ SyntheticName.head?_text type ordinal)

namespace Config

variable {c : Config} {s : Section} {type : String}

/-- The sections of a type, in order. -/
def slots (c : Config) (type : String) : List Section :=
  c.sections.filter (·.type == type)

theorem length_slots (c : Config) (type : String) : (c.slots type).length = c.count type :=
  List.countP_eq_length_filter.symm

theorem slots_push (c : Config) (s : Section) (type : String) : (c.push s).slots type =
    if s.type = type then c.slots type ++ [s] else c.slots type := by
  rw [slots, push, List.filter_append]
  by_cases htype : s.type = type
  · rw [if_pos htype, List.filter_cons_of_pos (by simpa using htype), List.filter_nil]
    rfl
  · rw [if_neg htype, List.filter_cons_of_neg (by simpa using htype), List.filter_nil,
      List.append_nil]
    rfl

/-- A change of one section is a change of the slot at its ordinal. -/
theorem slots_changeAt {i : Nat} {t : Section} (ht : c.sections[i]? = some t)
    {change : Section → Section} (hheading : ∀ s, (change s).heading = s.heading) (type : String) :
    (c.changeAt i change).slots type =
      if t.type = type then (c.slots type).modify (c.countBefore type i) change
      else c.slots type := by
  obtain ⟨before, after, hsections, rfl⟩ := exists_around ht
  have htype : (change t).type = t.type := congrArg Prod.fst (hheading t)
  have hcount : c.countBefore type before.length = (before.filter (·.type == type)).length := by
    rw [countBefore, hsections, List.take_left, List.countP_eq_length_filter]
  simp only [slots, changeAt, hsections, modify_append_cons, List.filter_append, List.filter_cons,
    htype, beq_iff_eq, hcount]
  split
  · rw [modify_append_cons]
  · rfl

/-- Where all sections of a type are unnamed, the name at an ordinal is that of the slot there. -/
theorem findIdx?_names_text (hc : ∀ s ∈ c.sections, s.FitsSlots type) (ordinal : Nat) :
    c.names.findIdx? (· == SyntheticName.text type ordinal) =
      placeOf? type ordinal c.sections := by
  have hplace (i : Nat) : c.names[i]? = some (SyntheticName.text type ordinal) ↔
      placeOf? type ordinal c.sections = some i := by
    rw [names_getElem?, placeOf?_eq_some_iff, Option.map_eq_some_iff]
    refine exists_congr fun s => and_congr_right fun hs => ?_
    obtain ⟨hat, hunnamed⟩ := hc s (List.mem_of_getElem? hs)
    rw [Section.nameAt_eq_text_iff hat]
    constructor
    · rintro ⟨-, rfl, hordinal⟩
      exact ⟨rfl, hordinal⟩
    · rintro ⟨rfl, hordinal⟩
      exact ⟨hunnamed rfl, rfl, hordinal⟩
  cases hfound : placeOf? type ordinal c.sections with
  | none =>
    rw [findIdx?_names_eq_none_iff]
    intro hmem
    obtain ⟨i, hi⟩ := List.getElem?_of_mem hmem
    rw [(hplace i).1 hi] at hfound
    cases hfound
  | some i =>
    obtain ⟨hlt, hi⟩ := List.getElem?_eq_some_iff.1 ((hplace i).2 hfound)
    refine List.findIdx?_eq_some_iff_getElem.2 ⟨hlt, by simp [hi], fun j hj heq => ?_⟩
    -- A place before it with the same name would be the one that is found.
    have hother := (hplace j).1 (by rw [List.getElem?_eq_getElem (by omega)]; simpa using heq)
    rw [hfound] at hother
    cases hother
    omega

theorem length_slots_le {ordinal : Nat} (h : placeOf? type ordinal c.sections = none) :
    (c.slots type).length ≤ ordinal := by
  rw [length_slots]
  apply Nat.le_of_not_lt
  intro hlt
  obtain ⟨i, hi⟩ := exists_placeOf? hlt
  rw [h] at hi
  cases hi

/-- What holds of all sections holds of them after a merge that keeps it up. -/
theorem forall_mergeAt {P : Section → Prop} (h : ∀ t ∈ c.sections, P t) (hs : P s)
    (hmerge : ∀ t, P t → P (t.mergeAll s.settings)) (ordinal : Nat) :
    ∀ t ∈ (c.mergeAt s ordinal).1.sections, P t := by
  rcases mergeAt_cases c s ordinal with ⟨-, hmerged⟩ | ⟨i, _, -, -, -, hmerged⟩
  · rw [hmerged]
    exact forall_push h hs
  · rw [hmerged]
    exact forall_changeAt h i hmerge

theorem fitsSlots_mergeAt (hc : ∀ t ∈ c.sections, t.FitsSlots type) (hs : s.FitsSlots type)
    (ordinal : Nat) : ∀ t ∈ (c.mergeAt s ordinal).1.sections, t.FitsSlots type := by
  refine forall_mergeAt hc hs (fun t ht => ?_) ordinal
  have hheading := heading_mergeAll t s.settings
  rw [Section.heading, Section.heading, Prod.mk.injEq] at hheading
  rwa [Section.FitsSlots, hheading.1, hheading.2]

/-- A merge does not touch the slots of another type. -/
theorem slots_mergeAt_of_ne (hc : ∀ t ∈ c.sections, t.FitsSlots type) (hs : s.FitsSlots type)
    (hne : s.type ≠ type) (ordinal : Nat) :
    (c.mergeAt s ordinal).1.slots type = c.slots type := by
  rcases mergeAt_cases c s ordinal with ⟨-, hmerged⟩ | ⟨i, t, -, ht, hgoes, hmerged⟩
  · rw [hmerged, slots_push, if_neg hne]
  · obtain ⟨hat, hunnamed⟩ := hc t (List.mem_of_getElem? ht)
    -- An unnamed section of the type would have the type and the ordinal in its name.
    have htype : t.type ≠ type := by
      intro heq
      rw [(Section.nameAt_eq_text_iff hat).2 ⟨hunnamed heq, heq, rfl⟩] at hgoes
      exact hne ((Section.nameAt_eq_text_iff hs.1).1 hgoes.symm).2.1
    have hchanged := slots_changeAt ht (fun t => heading_mergeAll t s.settings) type
    rw [if_neg htype] at hchanged
    rw [hmerged]
    exact hchanged

/-- A merge changes the slot at the ordinal, or puts a new one at the end. -/
theorem slots_mergeAt (hc : ∀ t ∈ c.sections, t.FitsSlots type) (hs : s.FitsSlots type)
    (htype : s.type = type) (ordinal : Nat) : (c.mergeAt s ordinal).1.slots type =
      if ordinal < (c.slots type).length then
        (c.slots type).modify ordinal (·.mergeAll s.settings)
      else c.slots type ++ [s] := by
  have hgoes := (Section.nameAt_eq_text_iff (k := ordinal) hs.1).2 ⟨hs.2 htype, htype, rfl⟩
  unfold mergeAt
  rw [hgoes, findIdx?_names_text hc]
  cases hplace : placeOf? type ordinal c.sections with
  | none =>
    rw [if_neg (Nat.not_lt.2 (length_slots_le hplace))]
    simp only [slots_push, if_pos htype]
  | some i =>
    obtain ⟨t, ht, rfl, hordinal⟩ := placeOf?_eq_some_iff.1 hplace
    have hbefore : c.countBefore t.type i = ordinal := hordinal
    have hlt := countBefore_lt_count ht
    rw [← length_slots, hbefore] at hlt
    have hchanged := slots_changeAt ht (fun t => heading_mergeAll t s.settings) t.type
    rw [if_pos rfl, hbefore] at hchanged
    rw [if_pos hlt]
    exact hchanged

/-- Slots patched by those of a fragment, one after the other. -/
def patch : List Section → List Section → List Section
  | [], fragment => fragment
  | base, [] => base
  | b :: base, f :: fragment => b.mergeAll f.settings :: patch base fragment

theorem length_patch (base fragment : List Section) :
    (patch base fragment).length = max base.length fragment.length := by
  induction base, fragment using patch.induct with
  | case1 fragment => simp [patch]
  | case2 base hne =>
    cases base with
    | nil => exact absurd rfl hne
    | cons b base => simp [patch]
  | case3 b base f fragment ih => simp [patch, ih, Nat.add_max_add_right]

theorem getElem?_patch (base fragment : List Section) (p : Nat) : (patch base fragment)[p]? =
    match base[p]?, fragment[p]? with
    | some b, some f => some (b.mergeAll f.settings)
    | none, f => f
    | b, none => b := by
  induction base, fragment using patch.induct generalizing p with
  | case1 fragment => simp [patch]
  | case2 base hne =>
    cases base with
    | nil => exact absurd rfl hne
    | cons b base => cases hget : (b :: base)[p]? <;> simp [patch, hget]
  | case3 b base f fragment ih =>
    cases p with
    | zero => simp [patch]
    | succ p => simpa [patch] using ih p

/-- The slots that have been reached are done, as many as sections of the type have come before. -/
theorem slots_overlayFrom {before rest done todo : List Section}
    (hc : ∀ s ∈ c.sections, s.FitsSlots type) (hrest : ∀ s ∈ rest, s.FitsSlots type)
    (hslots : c.slots type = done ++ todo) (hdone : done.length = before.countP (·.type == type)) :
    (c.overlayFrom before rest).slots type = done ++ patch todo (rest.filter (·.type == type)) := by
  induction rest generalizing c before done todo with
  | nil =>
    rw [overlayFrom, hslots]
    cases todo <;> rfl
  | cons s rest ih =>
    have hs := hrest s (by simp)
    have hrest : ∀ t ∈ rest, t.FitsSlots type := fun t ht => hrest t (by simp [ht])
    have hmerged := fitsSlots_mergeAt hc hs (before.countP (·.type == s.type))
    rw [overlayFrom]
    by_cases htype : s.type = type
    · have hslot := slots_mergeAt hc hs htype (before.countP (·.type == s.type))
      have hordinal : before.countP (·.type == s.type) = done.length := by rw [htype, hdone]
      have hnext (t : Section) :
          (done ++ [t]).length = (before ++ [s]).countP (·.type == type) := by
        simp [hdone, htype]
      rw [hordinal, hslots] at hslot
      rw [hordinal] at hmerged ⊢
      rw [List.filter_cons_of_pos (by simpa using htype)]
      cases todo with
      | nil =>
        -- All slots are done, so the section is a new one.
        rw [if_neg (by simp), List.append_nil, ← List.append_nil (done ++ [s])] at hslot
        rw [ih hmerged hrest hslot (hnext s), List.append_assoc]
        rfl
      | cons b todo =>
        rw [if_pos (by simp), modify_append_cons, List.append_cons] at hslot
        rw [ih hmerged hrest hslot (hnext _), List.append_assoc]
        rfl
    · have hslot := slots_mergeAt_of_ne hc hs htype (before.countP (·.type == s.type))
      rw [List.filter_cons_of_neg (by simpa using htype)]
      exact ih hmerged hrest (hslot.trans hslots) (by simp [hdone, htype])

/-! ## What has been taken up -/

/-- Whether the section that is meant for a place has been taken up: the first section that goes by
its name there has its settings already. -/
def Holds (c : Config) (s : Section) (ordinal : Nat) : Prop :=
  ∃ i t, c.names.findIdx? (· == s.nameAt ordinal) = some i ∧ c.sections[i]? = some t ∧
    ∀ o ∈ s.settings, t.Absorbs o

/-- Whether all of the sections that are laid over a configuration have been taken up, given how
often each type has come before. -/
def HoldsAll (c : Config) (before : List Section) : List Section → Prop
  | [] => True
  | s :: rest => c.Holds s (before.countP (·.type == s.type)) ∧ c.HoldsAll (before ++ [s]) rest

theorem grows_mergeAt (c : Config) (s : Section) (ordinal : Nat) :
    c.Grows (c.mergeAt s ordinal).1 := by
  rcases mergeAt_cases c s ordinal with ⟨-, hmerged⟩ | ⟨i, _, -, -, -, hmerged⟩
  · exact ⟨[s.heading], by simp [hmerged, push]⟩
  · refine ⟨[], ?_⟩
    rw [hmerged, List.append_nil]
    exact (headings_changeAt c i fun t => heading_mergeAll t s.settings).symm

/-- A merge takes no setting away from a section. -/
theorem getElem?_mergeAt {i : Nat} {t : Section} (ht : c.sections[i]? = some t) (s : Section)
    (ordinal : Nat) : ∃ t', (c.mergeAt s ordinal).1.sections[i]? = some t' ∧
      ∀ o, t.Absorbs o → t'.Absorbs o := by
  rcases mergeAt_cases c s ordinal with ⟨-, hmerged⟩ | ⟨j, _, -, -, -, hmerged⟩
  · obtain ⟨hi, -⟩ := List.getElem?_eq_some_iff.1 ht
    rw [hmerged]
    exact ⟨t, by simpa [push, List.getElem?_append_left hi] using ht, fun o ho => ho⟩
  · simp only [hmerged, taint, changeAt, List.getElem?_modify, ht]
    split
    · exact ⟨_, rfl, fun o ho => ho.mergeAll s.settings⟩
    · exact ⟨t, rfl, fun o ho => ho⟩

theorem Holds.mergeAt {k : Nat} (h : c.Holds s k) (t : Section) (ordinal : Nat) :
    (c.mergeAt t ordinal).1.Holds s k := by
  obtain ⟨i, u, hi, hu, habsorbs⟩ := h
  obtain ⟨v, hv, hkeeps⟩ := getElem?_mergeAt hu t ordinal
  exact ⟨i, v, (grows_mergeAt c t ordinal).names.findIdx?_eq_some hi, hv,
    fun o ho => hkeeps o (habsorbs o ho)⟩

theorem Holds.overlayFrom {k : Nat} (h : c.Holds s k) (before rest : List Section) :
    (c.overlayFrom before rest).Holds s k := by
  induction rest generalizing c before with
  | nil => exact h
  | cons t rest ih => exact ih (h.mergeAt t _) _

/-- An unnamed section that is appended goes by the name at the ordinal that it is meant for, if at
least as many sections of its type are there. -/
theorem nameAt_count {ordinal : Nat} (hnot : s.nameAt ordinal ∉ c.names)
    (hc : s.name = "" → (∀ t ∈ c.sections, t.FitsSlots s.type) ∧
      ordinal ≤ (c.slots s.type).length) : s.nameAt (c.count s.type) = s.nameAt ordinal := by
  by_cases hname : s.name = ""
  · obtain ⟨hfits, hle⟩ := hc hname
    have hgoes := (Section.nameAt_eq_text_iff (s := s) (k := ordinal) (by simp [hname])).2
      ⟨hname, rfl, rfl⟩
    have hnone : placeOf? s.type ordinal c.sections = none := by
      rw [← findIdx?_names_text hfits, ← hgoes]
      exact findIdx?_names_eq_none_iff.2 hnot
    rw [← length_slots, Nat.le_antisymm (length_slots_le hnone) hle]
  · simp [Section.nameAt, Section.isUnnamed, hname]

/-- A section is held once it is merged. -/
theorem holds_mergeAt {ordinal : Nat} (hdistinct : (s.settings.map (·.name)).Nodup)
    (hc : s.name = "" → (∀ t ∈ c.sections, t.FitsSlots s.type) ∧
      ordinal ≤ (c.slots s.type).length) : (c.mergeAt s ordinal).1.Holds s ordinal := by
  rcases mergeAt_cases c s ordinal with ⟨hnot, hmerged⟩ | ⟨i, t, hi, ht, -, hmerged⟩
  · rw [hmerged]
    have hnone := findIdx?_names_eq_none_iff.2 hnot
    refine ⟨c.sections.length, s, ?_, by simp [push], Section.absorbs_of_nodup hdistinct⟩
    simp [names_push, List.findIdx?_append, hnone, nameAt_count hnot hc, length_names]
  · rw [hmerged]
    refine ⟨i, t.mergeAll s.settings, ?_, ?_, Section.absorbs_mergeAll t s.settings⟩
    · rw [← hi]
      exact congrArg _ (names_congr (headings_changeAt c i fun t => heading_mergeAll t s.settings))
    · simp [taint, changeAt, ht]

/-- Whatever has been laid over a configuration is held by it. At each step there are at least as
many sections of a type as have come before, as each of these has been merged into one of them or
was appended. -/
theorem holdsAll_overlayFrom {before rest : List Section}
    (hdistinct : ∀ s ∈ rest, (s.settings.map (·.name)).Nodup)
    (hrest : ∀ f ∈ rest, f.name = "" → ∀ s ∈ rest, s.FitsSlots f.type)
    (hc : ∀ f ∈ rest, f.name = "" → (∀ s ∈ c.sections, s.FitsSlots f.type) ∧
      before.countP (·.type == f.type) ≤ (c.slots f.type).length) :
    (c.overlayFrom before rest).HoldsAll before rest := by
  induction rest generalizing c before with
  | nil => trivial
  | cons s rest ih =>
    have hmerged := holds_mergeAt (hdistinct s (by simp)) (hc s (by simp))
    refine ⟨hmerged.overlayFrom _ _, ih (fun t ht => hdistinct t (by simp [ht])) ?_ ?_⟩
    · exact fun f hf hname t ht => hrest f (by simp [hf]) hname t (by simp [ht])
    · intro f hf hname
      obtain ⟨hfits, hle⟩ := hc f (by simp [hf]) hname
      have hs := hrest f (by simp [hf]) hname s (by simp)
      refine ⟨fitsSlots_mergeAt hfits hs _, ?_⟩
      by_cases htype : s.type = f.type
      · rw [slots_mergeAt hfits hs htype, htype]
        split
        · next hlt => simpa [htype] using Nat.succ_le_of_lt hlt
        · simpa [htype] using hle
      · rw [slots_mergeAt_of_ne hfits hs htype]
        simpa [htype] using hle

theorem mergeAt_of_holds {ordinal : Nat} (h : c.Holds s ordinal) :
    (c.mergeAt s ordinal).1.sections = c.sections := by
  obtain ⟨i, t, hi, ht, habsorbs⟩ := h
  obtain ⟨before, after, hsections, rfl⟩ := exists_around ht
  simp only [mergeAt, hi, taint, changeAt]
  rw [hsections, modify_append_cons, Section.mergeAll_of_absorbs habsorbs]

/-- Only the sections of a configuration matter for what it holds. -/
theorem Holds.congr {d : Config} {k : Nat} (h : c.Holds s k) (hd : d.sections = c.sections) :
    d.Holds s k := by
  unfold Holds at h ⊢
  rwa [names_congr (congrArg (List.map Section.heading) hd), hd]

/-- Sections that are held already change nothing. -/
theorem overlayFrom_of_holdsAll {d : Config} {before rest : List Section}
    (h : c.HoldsAll before rest) (hd : d.sections = c.sections) :
    (d.overlayFrom before rest).sections = c.sections := by
  induction rest generalizing d before with
  | nil => exact hd
  | cons s rest ih => exact ih h.2 ((mergeAt_of_holds (h.1.congr hd)).trans hd)

/-! ## Overlays -/

/-- Where no name begins with `@`, the settings of a section of the fragment have different names,
and its unnamed sections are of types that have only unnamed ones, the slots of such a type are
patched by those of the fragment, and those that are left are appended. Any such overlay is
idempotent. -/
theorem overlay_slots {base fragment : Config}
    (hnames : ∀ s ∈ base.sections ++ fragment.sections, s.name.toList.head? ≠ some '@')
    (hdistinct : ∀ f ∈ fragment.sections, (f.settings.map (·.name)).Nodup)
    (hunnamed : ∀ f ∈ fragment.sections, f.name = "" →
      ∀ s ∈ base.sections ++ fragment.sections, s.type = f.type → s.name = "") :
    (∀ f ∈ fragment.sections, f.name = "" →
      ((base.overlay fragment).slots f.type).length =
        max (base.slots f.type).length (fragment.slots f.type).length ∧
      ∀ p,
        (∀ b g, (base.slots f.type)[p]? = some b → (fragment.slots f.type)[p]? = some g →
          ((base.overlay fragment).slots f.type)[p]? = some (b.mergeAll g.settings)) ∧
        (∀ g, (base.slots f.type).length ≤ p → (fragment.slots f.type)[p]? = some g →
          ((base.overlay fragment).slots f.type)[p]? = some g) ∧
        (∀ b, (base.slots f.type)[p]? = some b → (fragment.slots f.type).length ≤ p →
          ((base.overlay fragment).slots f.type)[p]? = some b)) ∧
    ((base.overlay fragment).overlay fragment).sections = (base.overlay fragment).sections := by
  have hfits (f : Section) (hf : f ∈ fragment.sections) (hname : f.name = "") :
      ∀ s ∈ base.sections ++ fragment.sections, s.FitsSlots f.type :=
    fun s hs => ⟨hnames s hs, hunnamed f hf hname s hs⟩
  constructor
  · intro f hf hname
    obtain ⟨hbase, hfragment⟩ := List.forall_mem_append.1 (hfits f hf hname)
    have hslots : (base.overlay fragment).slots f.type =
        patch (base.slots f.type) (fragment.slots f.type) :=
      slots_overlayFrom hbase hfragment (List.nil_append _).symm rfl
    rw [hslots]
    refine ⟨length_patch _ _, fun p => ⟨?_, ?_, ?_⟩⟩
    · intro b g hb hg
      rw [getElem?_patch, hb, hg]
    · intro g hb hg
      rw [getElem?_patch, List.getElem?_eq_none hb, hg]
    · intro b hb hg
      rw [getElem?_patch, hb, List.getElem?_eq_none hg]
  · apply overlayFrom_of_holdsAll (holdsAll_overlayFrom hdistinct ?_ ?_) rfl
    · exact fun f hf hname => (List.forall_mem_append.1 (hfits f hf hname)).2
    · exact fun f hf hname => ⟨(List.forall_mem_append.1 (hfits f hf hname)).1, Nat.zero_le _⟩

/-- The rule that is there is patched, and a second one is appended behind the zone. -/
theorem overlay_slots_rule :
    let ports (values : List String) : Section :=
      { type := "rule", settings := [{ name := "port", kind := .list, values }] }
    let zone : Section := { type := "zone", name := "lan" }
    let base : Config := { name := "firewall", sections := [ports ["22"], zone] }
    let fragment : Config :=
      { name := "firewall", sections := [ports ["443", "22"], zone, ports ["80"]] }
    ((base.overlay fragment).slots "rule")[0]? = some (ports ["22", "443"]) ∧
      ((base.overlay fragment).slots "rule")[1]? = some (ports ["80"]) ∧
      ((base.overlay fragment).overlay fragment).sections = (base.overlay fragment).sections := by
  intro ports zone base fragment
  obtain ⟨hslots, hagain⟩ := @overlay_slots base fragment (by decide) (by decide) (by decide)
  obtain ⟨-, hslot⟩ := hslots (ports ["443", "22"]) (by decide) rfl
  obtain ⟨hpatched, -, -⟩ := hslot 0
  obtain ⟨-, hcopied, -⟩ := hslot 1
  exact ⟨hpatched (ports ["22"]) (ports ["443", "22"]) rfl rfl,
    hcopied (ports ["80"]) (by decide) rfl, hagain⟩

end Config

end UnifiedConfig
