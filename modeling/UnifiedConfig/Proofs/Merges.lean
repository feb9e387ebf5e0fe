import UnifiedConfig.Proofs.Addresses
import UnifiedConfig.Proofs.Slots

/-!
# Merging one section

A section is merged into the first one that goes by its name, which can be found by one pass over
the sections that counts those of each type as they come. The section that takes it up keeps its
heading and all of its settings where they are, each with its kind and its values before any new
ones. What it did not have is appended. So merging the same section again changes nothing.

* `placeCounting?_eq`: the pass that counts finds the first section that goes by the name.
* `Section.names_mergeAll`: which settings are appended, and in which order.
* `takesUp_mergeAll`: what a section has become once it has taken up another one.
* `mergeAt_takes_up`: what a merge does to a configuration.
-/

namespace UnifiedConfig

/-! ## Finding a section in one pass -/

namespace Config

/-- The place of the first section that goes by a name, given how many sections of each type have
come before. -/
def placeCountingFrom? (name : String) (seen : String → Nat) : List Section → Option Nat
  | [] => none
  | s :: rest =>
    if s.nameAt (seen s.type) = name then some 0
    else (placeCountingFrom? name (fun type => if type = s.type then seen type + 1 else seen type)
      rest).map (· + 1)

/-- The place of the first section that goes by a name, found in one pass. -/
def placeCounting? (c : Config) (name : String) : Option Nat :=
  placeCountingFrom? name (fun _ => 0) c.sections

/-- As long as the counts are those of the sections that have come before, the pass gives each
section the name that it goes by. -/
theorem placeCountingFrom?_eq {c : Config} {name : String} {seen : String → Nat}
    {before rest : List Section} (hsections : c.sections = before ++ rest)
    (hseen : ∀ type, seen type = before.countP (·.type == type)) :
    placeCountingFrom? name seen rest =
      (c.names.drop before.length).findIdx? (· == name) := by
  induction rest generalizing before seen with
  | nil =>
    have hlength : c.names.length = before.length := by
      rw [length_names, hsections, List.append_nil]
    rw [List.drop_of_length_le (Nat.le_of_eq hlength)]
    rfl
  | cons s rest ih =>
    have hcount : c.countBefore s.type before.length = seen s.type := by
      rw [hseen, countBefore, hsections, List.take_left]
    have hhere : c.names[before.length]? = some (s.nameAt (seen s.type)) := by
      rw [names_getElem?, hsections, ← hcount]
      simp
    have hnext := @ih (fun type => if type = s.type then seen type + 1 else seen type)
      (before ++ [s]) (by simp [hsections]) (fun type => by
        by_cases htype : type = s.type
        · simp [htype, hseen]
        · simp [htype, hseen, Ne.symm htype])
    obtain ⟨hlt, hget⟩ := List.getElem?_eq_some_iff.1 hhere
    rw [placeCountingFrom?, List.drop_eq_getElem_cons hlt, hget, List.findIdx?_cons, hnext]
    simp

theorem placeCounting?_eq (c : Config) (name : String) :
    c.placeCounting? name = c.names.findIdx? (· == name) := by
  have hsections : c.sections = [] ++ c.sections := rfl
  exact placeCountingFrom?_eq hsections fun _ => rfl

end Config

/-! ## What is appended -/

namespace Section

variable {s t u : Section} {o : Setting}

theorem names_merge (s : Section) (o : Setting) :
    (s.merge o).settings.map (·.name) = mergeValues (s.settings.map (·.name)) [o.name] := by
  rw [mergeValues_singleton]
  rcases merge_cases s o with ⟨hfind, heq⟩ | ⟨before, p, after, hsettings, hp, -, heq⟩
  · have hnot : o.name ∉ s.settings.map (·.name) := by
      intro hmem
      rcases List.mem_map.1 hmem with ⟨q, hq, hname⟩
      rw [find?, List.find?_eq_none] at hfind
      exact hfind q hq (by simpa using hname)
    rw [if_neg hnot, heq, List.map_append]
    rfl
  · rw [if_pos (by simp [hsettings, hp]), heq, hsettings]
    simp [Setting.merge]

/-- The names of the settings are merged as values are. -/
theorem names_mergeAll (s : Section) (settings : List Setting) :
    (s.mergeAll settings).settings.map (·.name) =
      mergeValues (s.settings.map (·.name)) (settings.map (·.name)) := by
  induction settings generalizing s with
  | nil => rfl
  | cons o rest ih =>
    have hcons : s.mergeAll (o :: rest) = (s.merge o).mergeAll rest := rfl
    rw [hcons, ih, names_merge]
    rfl

/-! ## What stays -/

/-- Whether each setting of a section is still at its place in another one, under its name and with
its kind, its values before any others. -/
def KeepsSettings (s t : Section) : Prop :=
  ∀ (k : Nat) (o : Setting), s.settings[k]? = some o →
    ∃ p : Setting, t.settings[k]? = some p ∧ p.name = o.name ∧ p.kind = o.kind ∧
      o.values <+: p.values

theorem KeepsSettings.trans (h : s.KeepsSettings t) (h' : t.KeepsSettings u) :
    s.KeepsSettings u := by
  intro k o ho
  rcases h k o ho with ⟨p, hp, hname, hkind, hvalues⟩
  rcases h' k p hp with ⟨q, hq, hname', hkind', hvalues'⟩
  exact ⟨q, hq, hname'.trans hname, hkind'.trans hkind, hvalues.trans hvalues'⟩

theorem keepsSettings_merge (s : Section) (o : Setting) : s.KeepsSettings (s.merge o) := by
  intro k q hq
  rcases merge_cases s o with ⟨-, heq⟩ | ⟨before, p, after, hsettings, -, -, heq⟩
  · rcases List.getElem?_eq_some_iff.1 hq with ⟨hk, -⟩
    exact ⟨q, by rw [heq, List.getElem?_append_left hk, hq], rfl, rfl, List.prefix_rfl⟩
  · rw [hsettings] at hq
    rw [heq]
    rcases Nat.lt_trichotomy k before.length with hk | rfl | hk
    · rw [List.getElem?_append_left hk] at hq ⊢
      exact ⟨q, hq, rfl, rfl, List.prefix_rfl⟩
    · -- The setting that takes the values up, before which they were all there.
      obtain rfl : p = q := by simpa using hq
      exact ⟨p.merge o.values, by simp, rfl, rfl, by
        rw [Setting.merge, mergeValues_eq_append]
        exact List.prefix_append ..⟩
    · obtain ⟨m, rfl⟩ : ∃ m, k = before.length + 1 + m := ⟨k - before.length - 1, by omega⟩
      rw [List.append_cons, List.getElem?_append_right (by simp)] at hq ⊢
      exact ⟨q, by simpa using hq, rfl, rfl, List.prefix_rfl⟩

theorem keepsSettings_mergeAll (s : Section) (settings : List Setting) :
    s.KeepsSettings (s.mergeAll settings) := by
  induction settings generalizing s with
  | nil => exact fun k o ho => ⟨o, ho, rfl, rfl, List.prefix_rfl⟩
  | cons o rest ih => exact (keepsSettings_merge s o).trans (ih (s.merge o))

/-- Whether a section is what another one, `t`, has become as it took up the settings of `s`: it is
of the same type and name, has every setting of `t` where it was, then the settings of `s` that were
not there in the order in which they first come, and all values of those of `s`. -/
structure TakesUp (t s t' : Section) : Prop where
  type : t'.type = t.type
  name : t'.name = t.name
  keeps : t.KeepsSettings t'
  appended : (t'.settings.drop t.settings.length).map (·.name) =
    ((s.settings.map (·.name)).filter fun name => name ∉ t.settings.map (·.name)).eraseDups
  absorbs : ∀ o ∈ s.settings, t'.Absorbs o

theorem takesUp_mergeAll (t s : Section) : t.TakesUp s (t.mergeAll s.settings) where
  type := congrArg Prod.fst (Config.heading_mergeAll t s.settings)
  name := congrArg Prod.snd (Config.heading_mergeAll t s.settings)
  keeps := keepsSettings_mergeAll t s.settings
  appended := by
    rw [List.map_drop, names_mergeAll, mergeValues_eq_append]
    exact List.drop_left' (by simp)
  absorbs := absorbs_mergeAll t s.settings

end Section

/-! ## Merging into a configuration -/

namespace Config

variable {c : Config} {s : Section}

/-- Whether a section is the first one that goes by a name. -/
def IsFirstGoingBy (c : Config) (name : String) (i : Nat) (s : Section) : Prop :=
  c.sections[i]? = some s ∧ c.nameOf s i = .ok name ∧
    ∀ j t, j < i → c.sections[j]? = some t → c.nameOf t j ≠ .ok name

theorem findIdx?_names_iff {name : String} {i : Nat} :
    c.names.findIdx? (· == name) = some i ↔ ∃ t, c.IsFirstGoingBy name i t := by
  have hgoes (j : Nat) (u : Section) (hu : c.sections[j]? = some u) :
      c.nameOf u j = .ok name ↔ c.names[j]? = some name := by
    simp [nameOf_eq hu, names_getElem?, hu]
  constructor
  · intro hfound
    rcases List.findIdx?_eq_some_iff_getElem.1 hfound with ⟨hlt, hhere, hbefore⟩
    rcases exists_of_findIdx?_names hfound with ⟨t, ht, -⟩
    refine ⟨t, ht, (hgoes i t ht).2 ?_, fun j u hj hu hname => ?_⟩
    · rw [List.getElem?_eq_getElem hlt, beq_iff_eq.1 hhere]
    · rcases List.getElem?_eq_some_iff.1 ((hgoes j u hu).1 hname) with ⟨hjlt, hjname⟩
      exact hbefore j hj (by simpa using hjname)
  · rintro ⟨t, ht, hname, hfirst⟩
    rcases List.getElem?_eq_some_iff.1 ((hgoes i t ht).1 hname) with ⟨hlt, hhere⟩
    refine List.findIdx?_eq_some_iff_getElem.2 ⟨hlt, by simpa using hhere, fun j hj heq => ?_⟩
    have hjlt : j < c.names.length := by omega
    rw [length_names] at hjlt
    refine hfirst j _ hj (List.getElem?_eq_getElem hjlt) ((hgoes j _ (by simp)).2 ?_)
    rw [List.getElem?_eq_getElem (by omega)]
    exact congrArg some (by simpa using heq)

/-- A section that is taken up by the first one that goes by its name is held by it. -/
theorem holds_of_goesBy {ordinal i : Nat} {t : Section}
    (ht : c.IsFirstGoingBy (s.nameAt ordinal) i t) : (c.mergeAt s ordinal).1.Holds s ordinal := by
  have hfound := findIdx?_names_iff.2 ⟨t, ht⟩
  refine ⟨i, t.mergeAll s.settings, ?_, ?_, Section.absorbs_mergeAll t s.settings⟩
  · exact (grows_mergeAt c s ordinal).names.findIdx?_eq_some hfound
  · simp [mergeAt, hfound, taint, changeAt, ht.1]

/-- The first section that goes by the name of a merged section takes it up, at its place and with
all other sections as they are, and merging it again changes no section. If no section goes by the
name, the merged one is appended as it is. The configuration is tainted, and the place is that of
the section that has the settings. -/
theorem mergeAt_takes_up (c : Config) (s : Section) (ordinal : Nat) :
    (∀ i t, c.IsFirstGoingBy (s.nameAt ordinal) i t →
      c.placeCounting? (s.nameAt ordinal) = some i ∧
      ∃ t', t.TakesUp s t' ∧
        c.mergeAt s ordinal =
          ({ c with sections := c.sections.set i t', tainted := true }, i) ∧
        ((c.mergeAt s ordinal).1.mergeAt s ordinal).1.sections =
          (c.mergeAt s ordinal).1.sections) ∧
    ((∀ i t, c.sections[i]? = some t → c.nameOf t i ≠ .ok (s.nameAt ordinal)) →
      c.placeCounting? (s.nameAt ordinal) = none ∧
      c.mergeAt s ordinal =
        ({ c with sections := c.sections ++ [s], tainted := true }, c.sections.length)) := by
  constructor
  · intro i t ht
    have hfound := findIdx?_names_iff.2 ⟨t, ht⟩
    refine ⟨by rw [placeCounting?_eq, hfound], _, Section.takesUp_mergeAll t s, ?_,
      mergeAt_of_holds (holds_of_goesBy ht)⟩
    rcases exists_around ht.1 with ⟨before, after, hsections, rfl⟩
    simp [mergeAt, hfound, taint, changeAt, hsections, modify_append_cons]
  · intro hnone
    have hnot : c.names.findIdx? (· == s.nameAt ordinal) = none := by
      rw [Option.eq_none_iff_forall_ne_some]
      intro i hfound
      rcases findIdx?_names_iff.1 hfound with ⟨t, ht⟩
      exact hnone i t ht.1 ht.2.1
    exact ⟨by rw [placeCounting?_eq, hnot], by simp [mergeAt, hnot, push]⟩

/-- The second rule takes up another one, which mentions its port twice and is meant for it. The
same section meant for a third rule is appended. -/
theorem mergeAt_takes_up_rule :
    let port (values : List String) : Setting := { name := "port", kind := .list, values }
    let proto : Setting := { name := "proto", kind := .scalar, values := ["tcp"] }
    let c : Config :=
      { name := "firewall", sections :=
        [{ type := "rule", name := "ssh" }, { type := "rule", settings := [port ["22"]] }] }
    let s : Section := { type := "rule", settings := [port ["443", "22"], proto, port ["80"]] }
    (c.mergeAt s 1).2 = 1 ∧ (c.mergeAt s 1).1.sections.length = 2 ∧
      (c.mergeAt s 2).1.sections = c.sections ++ [s] := by
  intro port proto c s
  have hfirst : c.IsFirstGoingBy (s.nameAt 1) 1 { type := "rule", settings := [port ["22"]] } := by
    refine ⟨rfl, by decide, fun j t hj ht => ?_⟩
    obtain rfl : j = 0 := by omega
    cases ht
    decide
  obtain ⟨-, t', -, hmerged, -⟩ := (mergeAt_takes_up c s 1).1 _ _ hfirst
  have hnone : ∀ i t, c.sections[i]? = some t → c.nameOf t i ≠ .ok (s.nameAt 2) := by
    intro i t ht hname
    have hmem := (nameOf_eq ht).symm.trans hname
    have hnames : s.nameAt 2 ∉ c.names := by decide
    refine hnames (List.mem_of_getElem? (i := i) ?_)
    rw [names_getElem?, ht]
    exact congrArg some (Except.ok.inj hmem)
  obtain ⟨-, happended⟩ := (mergeAt_takes_up c s 2).2 hnone
  exact ⟨by rw [hmerged], by rw [hmerged]; rfl, by rw [happended]⟩

end Config

end UnifiedConfig
