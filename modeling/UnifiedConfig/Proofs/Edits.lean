import UnifiedConfig.Proofs.Changes
import UnifiedConfig.Proofs.RoundTrip

/-!
# Edits of durable configurations

A configuration is durable if it is writable and none of its names begins with `@`. The names of
sections then say nothing about their order, and a configuration that an edit has changed can still
be written, whatever sections were added before or deleted.

* `findNamed?_of_mem_names`: a section is found by the name that one goes by.
* `isDurable_iff`: among names without `@`, only those of other sections matter.
* `setValues_keepsUp`, `addToList_keepsUp`, `addSection_keepsUp`, `delete_keepsUp`,
  `deleteSetting_keepsUp`: an edit leaves a durable configuration durable, and tainted or as it was.
-/

namespace UnifiedConfig

open Text

/-! ## Durable configurations -/

/-- Whether a configuration can be written and stays so under edits: none of its names begins with
`@`. -/
structure Config.IsDurable (c : Config) : Prop where
  writable : c.IsWritable
  names : ∀ s ∈ c.sections, s.name.toList.head? ≠ some '@'

/-- A name without `@` is not synthetic. -/
theorem SyntheticName.isFor_eq_false {name : String} (h : name.toList.head? ≠ some '@')
    (type : String) : SyntheticName.isFor name type = false := by
  have hsplit : split? name = none := by
    unfold split?
    split
    · next body hname => simp [hname] at h
    · rfl
  rw [isFor, hsplit]

/-- No unnamed section goes by a name without `@`. -/
theorem Section.name_of_nameAt {s : Section} {ordinal : Nat} {name : String}
    (hname : name.toList.head? ≠ some '@') (h : s.nameAt ordinal = name) : s.name = name := by
  unfold nameAt at h
  split at h
  · rw [← h] at hname
    simp [SyntheticName.text, toString] at hname
  · exact h

/-- Where a section goes by a name without `@`, a section is found that has it. -/
theorem Config.findNamed?_of_mem_names {c : Config} {name : String} (hne : name ≠ "")
    (hat : name.toList.head? ≠ some '@') (h : name ∈ c.names) :
    ∃ s, c.findNamed? name = some s := by
  obtain ⟨i, hi⟩ := List.getElem?_of_mem h
  rw [names_getElem?] at hi
  obtain ⟨s, hs, hgoes⟩ := Option.map_eq_some_iff.1 hi
  obtain rfl := Section.name_of_nameAt hat hgoes
  exact findNamed?_of_mem (List.mem_of_getElem? hs) hne

/-- The names of other sections are all that a name without `@` can be in conflict with. -/
theorem Config.isDurable_iff {c : Config} :
    c.IsDurable ↔ (∀ s ∈ c.sections, s.IsWritable) ∧
      (∀ s ∈ c.sections, s.name.toList.head? ≠ some '@') ∧
      (c.sections.map (·.name)).Pairwise fun a b => b ≠ "" → a ≠ b := by
  constructor
  · intro h
    exact ⟨h.writable.sections, h.names, h.writable.fresh.distinct⟩
  · rintro ⟨hsections, hnames, hdistinct⟩
    refine ⟨⟨hsections, ?_⟩, hnames⟩
    intro j s hs hne hmem
    -- An earlier section goes by the name, so it has the name.
    obtain ⟨i, hi, hname⟩ := List.mem_take_iff_getElem.1 hmem
    have hi : i < j ∧ i < c.sections.length := by
      rw [length_names] at hi
      omega
    have hget := c.names_getElem? i
    rw [List.getElem?_eq_getElem hi.2, List.getElem?_eq_getElem (by rw [length_names]; exact hi.2),
      hname] at hget
    have hother := Section.name_of_nameAt (hnames s (List.mem_of_getElem? hs))
      (Option.some.inj hget).symm
    obtain ⟨hj, rfl⟩ := List.getElem?_eq_some_iff.1 hs
    have hpair := List.pairwise_iff_getElem.1 hdistinct i j (by simpa using hi.2)
      (by simpa using hj) hi.1
    simp only [List.getElem_map] at hpair
    exact hpair hne hother

instance (c : Config) : Decidable c.IsDurable :=
  decidable_of_iff _ Config.isDurable_iff.symm

/-! ## Settings of writable sections -/

namespace Section

/-- A change of the setting of a name leaves a section writable, if it does so with settings. -/
theorem changeOr_isWritable {s : Section} (hs : s.IsWritable) {change : Setting → Setting}
    {new : Setting} (hnew : new.IsWritable) (hname : ∀ o, (change o).name = o.name)
    (hchange : ∀ o, o.IsWritable → o.name = new.name → (change o).IsWritable) :
    (s.changeOr change new).IsWritable where
  type := hs.type
  name := hs.name
  notSynthetic := hs.notSynthetic
  distinct := nodup_changeFirstOr hs.distinct rfl hname
  settings := forall_changeFirstOr hs.settings hnew hchange

theorem set_isWritable {s : Section} (hs : s.IsWritable) {name : String} {kind : Setting.Kind}
    {values : List String} (h : ({ name, kind, values } : Setting).IsWritable) :
    (s.set name kind values).IsWritable := by
  refine changeOr_isWritable hs h (fun _ => rfl) ?_
  intro o ho hname
  exact ⟨ho.name, h.values, h.shape⟩

theorem addToList_isWritable {s : Section} (hs : s.IsWritable) {name value : String}
    (hname : IsPlain name.toList) (hvalue : IsQuotable value.toList) :
    (s.addToList name value).IsWritable := by
  have hnew : ({ name, kind := .list, values := [value] } : Setting).IsWritable :=
    ⟨hname, by simpa using hvalue, by simp [Setting.HasShape]⟩
  refine changeOr_isWritable hs hnew (fun _ => rfl) ?_
  intro o ho _
  have hshape := Assignment.change_hasShape { kind := .list, name, value } ho.shape
  refine ⟨ho.name, ?_, hshape⟩
  intro v hv
  rcases mem_mergeValues.1 hv with hv | hv
  · exact ho.values v hv
  · rw [List.mem_singleton.1 hv]
    exact hvalue

theorem erase_isWritable {s : Section} (hs : s.IsWritable) (name : String) :
    (s.erase name).IsWritable where
  type := hs.type
  name := hs.name
  notSynthetic := hs.notSynthetic
  distinct := hs.distinct.sublist (List.eraseP_sublist.map _)
  settings o ho := hs.settings o (List.mem_of_mem_eraseP ho)

end Section

/-! ## Edits -/

namespace Config

/-- A configuration without a section. -/
theorem isDurable_nil (name : String) : ({ name } : Config).IsDurable :=
  ⟨⟨by simp, fresh_nil rfl⟩, by simp⟩

/-- That no section has the name of another is so of whatever is read. -/
theorem isDurable_of_parse {c : Config} {name text : String} (h : parse name text = .ok c)
    (hsections : ∀ s ∈ c.sections, s.IsWritable ∧ s.name.toList.head? ≠ some '@') : c.IsDurable :=
  ⟨⟨fun s hs => (hsections s hs).1, (parse_isRegular h).fresh⟩, fun s hs => (hsections s hs).2⟩

/-- Only the sections of a configuration matter. -/
theorem isDurable_congr {c c' : Config} (h : c.IsDurable) (hsections : c'.sections = c.sections) :
    c'.IsDurable := by
  refine ⟨⟨?_, fresh_congr (by rw [hsections]) h.writable.fresh⟩, ?_⟩ <;> rw [hsections]
  · exact h.writable.sections
  · exact h.names

theorem isDurable_taint {c : Config} (h : c.IsDurable) : c.taint.IsDurable :=
  isDurable_congr h rfl

/-- A change of one section that keeps its heading and leaves it writable. -/
theorem isDurable_changeAt {c : Config} (h : c.IsDurable) (i : Nat) {change : Section → Section}
    (hheading : ∀ s, (change s).heading = s.heading)
    (hchange : ∀ s, s.IsWritable → (change s).IsWritable) : (c.changeAt i change).IsDurable := by
  have hfresh := fresh_congr (headings_changeAt c i hheading).symm h.writable.fresh
  refine ⟨⟨forall_changeAt h.writable.sections i hchange, hfresh⟩, ?_⟩
  refine forall_changeAt h.names i fun s hs => ?_
  have hname : (change s).name = s.name := congrArg Prod.snd (hheading s)
  rwa [hname]

theorem isDurable_push {c : Config} (h : c.IsDurable) {s : Section} (hs : s.IsWritable)
    (hat : s.name.toList.head? ≠ some '@') (hname : s.name = "" ∨ s.name ∉ c.names) :
    (c.push s).IsDurable :=
  ⟨⟨forall_push h.writable.sections hs, fresh_push h.writable.fresh hname⟩, forall_push h.names hat⟩

theorem isDurable_eraseIdx {c : Config} (h : c.IsDurable) (i : Nat) (tainted : Bool) :
    ({ c with sections := c.sections.eraseIdx i, tainted } : Config).IsDurable := by
  -- Names without `@` are distinct whatever the places are, so a section can go.
  obtain ⟨hsections, hnames, hdistinct⟩ := isDurable_iff.1 h
  have hsub := List.eraseIdx_sublist c.sections i
  exact isDurable_iff.2 ⟨fun s hs => hsections s (hsub.subset hs),
    fun s hs => hnames s (hsub.subset hs), hdistinct.sublist (hsub.map _)⟩

/-- What an edit comes to: a durable configuration that is tainted, or the one there was. -/
def KeepsUp (c c' : Config) : Prop :=
  c'.IsDurable ∧ (c'.tainted = true ∨ c' = c)

theorem keepsUp_self {c : Config} (h : c.IsDurable) : c.KeepsUp c :=
  ⟨h, .inr rfl⟩

/-- A section that has been handed out keeps its heading and can still be written. -/
theorem Edited.keepsUp {c c' : Config} {change : Section → Section} (h : c.Edited change c')
    (hc : c.IsDurable) (hheading : ∀ s, (change s).heading = s.heading)
    (hchange : ∀ s, s.IsWritable → (change s).IsWritable) : c.KeepsUp c' := by
  rcases h with rfl | ⟨i, rfl⟩
  · exact keepsUp_self hc
  · exact ⟨isDurable_taint (isDurable_changeAt hc i hheading hchange), .inl rfl⟩

theorem setValues_keepsUp {c c' : Config} {selector setting : String} {kind : Setting.Kind}
    {values : List String} {u : Unit} (hc : c.IsDurable)
    (hnew : ({ name := setting, kind, values } : Setting).IsWritable)
    (h : c.setValues selector setting kind values = .ok (u, c')) : c.KeepsUp c' := by
  refine (editSection_eq_ok h).keepsUp hc ?_ ?_
  · exact fun _ => rfl
  · exact fun s hs => Section.set_isWritable hs hnew

theorem addToList_keepsUp {c c' : Config} {selector setting value : String} {u : Unit}
    (hc : c.IsDurable) (hname : IsPlain setting.toList) (hvalue : IsQuotable value.toList)
    (h : c.addToList selector setting value = .ok (u, c')) : c.KeepsUp c' := by
  refine (editSection_eq_ok h).keepsUp hc ?_ ?_
  · exact fun _ => rfl
  · exact fun s hs => Section.addToList_isWritable hs hname hvalue

theorem deleteSetting_keepsUp {c c' : Config} {selector setting : String} {removed : Bool}
    (hc : c.IsDurable) (h : c.deleteSetting selector setting = .ok (removed, c')) :
    c.KeepsUp c' := by
  refine (deleteSetting_eq_ok h).keepsUp hc ?_ ?_
  · exact fun _ => rfl
  · exact fun s hs => Section.erase_isWritable hs setting

theorem addSection_keepsUp {c c' : Config} {type added : String} {name : Option String}
    (hc : c.IsDurable) (htype : IsPlain type.toList)
    (hname : ∀ n, name = some n → IsQuotable n.toList)
    (h : c.addSection type name = .ok (added, c')) : c.KeepsUp c' := by
  cases name with
  | none =>
    cases h
    have hs : ({ type } : Section).IsWritable :=
      ⟨htype, by simp [IsQuotable], by simp, by simp, by simp⟩
    exact ⟨isDurable_push hc hs (by simp) (.inl rfl), .inl rfl⟩
  | some n =>
    rcases addSection_named_cases h with ⟨-, hne, hat, ⟨s, -, -, rfl⟩ | ⟨hnone, rfl⟩⟩
    · exact keepsUp_self hc
    · have hs : ({ type, name := n } : Section).IsWritable :=
        ⟨htype, hname n rfl, fun _ => SyntheticName.isFor_eq_false hat type, by simp, by simp⟩
      have hfresh : n ∉ c.names := by
        intro hmem
        obtain ⟨t, ht⟩ := findNamed?_of_mem_names hne hat hmem
        rw [hnone] at ht
        cases ht
      exact ⟨isDurable_push hc hs hat (.inr hfresh), .inl rfl⟩

theorem delete_keepsUp {c : Config} (hc : c.IsDurable) (selector : String) :
    c.KeepsUp (c.delete selector).2 := by
  rcases delete_cases c selector with hsame | ⟨i, heq⟩
  · rw [hsame]
    exact keepsUp_self hc
  · rw [heq]
    exact ⟨isDurable_eraseIdx hc i true, .inl rfl⟩

end Config

end UnifiedConfig
