import UnifiedConfig.Proofs.Edits

/-!
# What an overlay leaves on disk

When a configuration is laid over another one, the values of two settings of a name are put
together, and the setting keeps the kind that it has. So a scalar can come to have several values:
the last of them is what is looked up, and the first of them is what is written. Nothing else is
lost, and the text of the overlay can always be read.

* `written`: what the text of a configuration shows of it.
* `isDurable_written_mergeAt`: what is written can be read back, whatever is merged.
* `isFaithful_mergeAt_iff`: a value is lost if and only if a scalar is merged with a new value.
* `lastValueAt?_of_overlay_iff`: the same for an overlay and the text of it.
-/

namespace UnifiedConfig

open Text

/-! ## What is written -/

/-- What is written of a setting: one value of a scalar. -/
def Setting.written (o : Setting) : Setting :=
  match o.kind with
  | .scalar => { o with values := o.values.take 1 }
  | .list => o

/-- What is written of a section. -/
def Section.written (s : Section) : Section :=
  { s with settings := s.settings.map Setting.written }

/-- What is written of a configuration. -/
def Config.written (c : Config) : Config :=
  { c with sections := c.sections.map Section.written }

namespace Setting

variable {o : Setting}

@[simp] theorem written_name (o : Setting) : o.written.name = o.name := by
  unfold written
  split <;> rfl

theorem lines_written (o : Setting) : o.written.lines = o.lines := by
  obtain ⟨name, kind, values⟩ := o
  cases kind <;> simp [written, lines, List.take_take]

theorem written_of_hasShape (h : o.HasShape) : o.written = o := by
  obtain ⟨name, kind, values⟩ := o
  cases kind with
  | scalar => exact congrArg (Setting.mk name .scalar) (List.take_of_length_le (Nat.le_of_eq h))
  | list => rfl

theorem values_ne_nil_of_written (h : o.written.HasShape) : o.values ≠ [] := by
  intro hnil
  have hne := h.values_ne_nil
  unfold written at hne
  split at hne <;> simp [hnil] at hne

end Setting

theorem Config.render_written (c : Config) : c.written.render = c.render := by
  have hsection : ∀ s : Section, s.written.lines = s.lines := by
    intro s
    simp only [Section.lines, Section.written, List.flatMap_map, Setting.lines_written]
    rfl
  simp only [render, lines, written, List.flatMap_map, hsection]

theorem Section.written_of_isWritable {s : Section} (h : s.IsWritable) : s.written = s := by
  have hsame : ∀ o ∈ s.settings, o.written = id o := fun o ho =>
    Setting.written_of_hasShape (h.settings o ho).shape
  have hsettings := (List.map_congr_left hsame).trans (List.map_id _)
  rw [written, hsettings]

/-! ## Merging settings -/

namespace Setting

variable {o : Setting}

/-- A merge leaves the first value of a scalar as it is. -/
theorem written_merge_of_scalar (hne : o.values ≠ []) (hkind : o.kind = .scalar)
    (values : List String) : (o.merge values).written = o.written := by
  obtain ⟨added, heq⟩ := prefix_mergeValues o.values values
  obtain ⟨value, rest, hvalues⟩ := List.exists_cons_of_ne_nil hne
  rw [hvalues] at heq
  simp [written, merge, hkind, ← heq, hvalues]

theorem isWritable_written_merge (ho : o.written.IsWritable) {values : List String}
    (hvalues : ∀ v ∈ values, IsQuotable v.toList) : (o.merge values).written.IsWritable := by
  have hne := values_ne_nil_of_written ho.shape
  cases hkind : o.kind with
  | scalar => rwa [written_merge_of_scalar hne hkind]
  | list =>
    have hold : o.written = o := by simp [written, hkind]
    have hnew : (o.merge values).written = o.merge values := by simp [written, merge, hkind]
    rw [hold] at ho
    rw [hnew]
    refine ⟨ho.name, ?_, ?_⟩
    · intro v hv
      rcases mem_mergeValues.1 hv with hv | hv
      · exact ho.values v hv
      · exact hvalues v hv
    · have hfirst := (prefix_mergeValues o.values values).ne_nil hne
      have hdistinct := nodup_mergeValues ho.shape.values_nodup values
      simp [HasShape, merge, hkind, hfirst, hdistinct]

/-- Whether the last value of a setting is written. -/
def IsFaithful (o : Setting) : Prop :=
  o.written.values.getLast? = o.values.getLast?

theorem isFaithful_of_hasShape (h : o.HasShape) : o.IsFaithful := by
  rw [IsFaithful, written_of_hasShape h]

/-- A scalar loses its last value where it is merged with a new one. -/
theorem isFaithful_merge_iff (hne : o.values ≠ []) (values : List String) :
    (o.merge values).IsFaithful ↔
      o.IsFaithful ∧ (o.kind = .scalar → ∀ v ∈ values, v ∈ o.values) := by
  cases hkind : o.kind with
  | list => simp [IsFaithful, written, merge, hkind]
  | scalar =>
    obtain ⟨added, heq, hadds⟩ := mergeValues_eq o.values values
    have hlast : (o.merge values).values.getLast? = added.getLast?.or o.values.getLast? := by
      rw [merge, heq, List.getLast?_append]
    rw [IsFaithful, written_merge_of_scalar hne hkind, hlast]
    cases hadded : added.getLast? with
    | none =>
      -- Each of the values is there already.
      have hnil := List.getLast?_eq_none_iff.1 hadded
      have hthere : ∀ v ∈ values, v ∈ o.values := by
        intro v hv
        apply Classical.byContradiction
        intro hnot
        have hmem := (hadds.mem v).2 ⟨hv, hnot⟩
        simp [hnil] at hmem
      exact ⟨fun h => ⟨h, fun _ => hthere⟩, fun h => h.1⟩
    | some v =>
      obtain ⟨hv, hnew⟩ := (hadds.mem v).1 (List.mem_of_getLast? hadded)
      have hfirst : o.written.values.getLast? ≠ some v := by
        intro hfirst
        have hwritten := List.mem_of_getLast? hfirst
        simp only [written, hkind] at hwritten
        exact hnew (List.mem_of_mem_take hwritten)
      simp only [Option.some_or, hfirst, false_iff, not_and]
      exact fun _ hall => hnew (hall trivial v hv)

end Setting

/-! ## Merging sections -/

namespace Section

variable {s : Section} {o : Setting}

theorem isWritable_written_iff : s.written.IsWritable ↔
    IsPlain s.type.toList ∧ IsQuotable s.name.toList ∧
      (s.name ≠ "" → SyntheticName.isFor s.name s.type = false) ∧
      (s.settings.map (·.name)).Nodup ∧ ∀ o ∈ s.settings, o.written.IsWritable := by
  have hnames : s.written.settings.map (·.name) = s.settings.map (·.name) := by
    simp [written, Function.comp_def]
  constructor
  · intro h
    exact ⟨h.type, h.name, h.notSynthetic, hnames ▸ h.distinct,
      fun o ho => h.settings _ (List.mem_map.2 ⟨o, ho, rfl⟩)⟩
  · rintro ⟨htype, hname, hsynthetic, hdistinct, hsettings⟩
    refine ⟨htype, hname, hsynthetic, hnames ▸ hdistinct, fun q hq => ?_⟩
    obtain ⟨o, ho, rfl⟩ := List.mem_map.1 hq
    exact hsettings o ho

theorem isWritable_written_merge (hs : s.written.IsWritable) (ho : o.IsWritable) :
    (s.merge o).written.IsWritable := by
  obtain ⟨htype, hname, hsynthetic, hdistinct, hsettings⟩ := isWritable_written_iff.1 hs
  refine isWritable_written_iff.2 ⟨htype, hname, hsynthetic, ?_, ?_⟩
  · exact nodup_changeFirstOr hdistinct rfl fun _ => rfl
  · refine forall_changeFirstOr hsettings ?_ fun p hp _ => ?_
    · rwa [Setting.written_of_hasShape ho.shape]
    · exact Setting.isWritable_written_merge hp ho.values

theorem isWritable_written_mergeAll (hs : s.written.IsWritable) {settings : List Setting}
    (hsettings : ∀ o ∈ settings, o.IsWritable) : (s.mergeAll settings).written.IsWritable := by
  induction settings generalizing s with
  | nil => exact hs
  | cons o rest ih =>
    exact ih (isWritable_written_merge hs (hsettings o (by simp))) fun p hp =>
      hsettings p (by simp [hp])

/-- Whether the last value of each setting is written. -/
def IsFaithful (s : Section) : Prop :=
  ∀ o ∈ s.settings, o.IsFaithful

theorem isFaithful_of_isWritable (hs : s.IsWritable) : s.IsFaithful :=
  fun o ho => Setting.isFaithful_of_hasShape (hs.settings o ho).shape

/-- Whether a setting has a new value for a scalar. -/
def Clashes (s : Section) (o : Setting) : Prop :=
  ∃ p, s.find? o.name = some p ∧ p.kind = .scalar ∧ ∃ v ∈ o.values, v ∉ p.values

theorem find?_eq_none {settings : List Setting} {name : String}
    (h : name ∉ settings.map (·.name)) : settings.find? (·.name == name) = none := by
  rw [List.find?_eq_none]
  intro p hp heq
  exact h (List.mem_map.2 ⟨p, hp, by simpa using heq⟩)

theorem find?_eq_some {before after : List Setting} (hsettings : s.settings = before ++ o :: after)
    (hname : o.name ∉ before.map (·.name)) : s.find? o.name = some o := by
  simp [find?, hsettings, List.find?_append, find?_eq_none hname]

/-- A merge changes the setting that is found, or appends one. -/
theorem merge_cases (s : Section) (o : Setting) :
    (s.find? o.name = none ∧ (s.merge o).settings = s.settings ++ [o]) ∨
    ∃ before p after, s.settings = before ++ p :: after ∧ p.name = o.name ∧
      s.find? o.name = some p ∧ (s.merge o).settings = before ++ p.merge o.values :: after := by
  rcases changeFirstOr_cases o.name (·.merge o.values) o s.settings with ⟨hname, heq⟩ |
    ⟨before, p, after, hsettings, hp, hname, heq⟩
  · exact .inl ⟨find?_eq_none hname, heq⟩
  · rw [← hp] at hname
    exact .inr ⟨before, p, after, hsettings, hp, hp ▸ find?_eq_some hsettings hname, heq⟩

theorem find?_merge_of_ne {name : String} (h : o.name ≠ name) :
    (s.merge o).find? name = s.find? name := by
  have hne : (o.name == name) = false := by simpa using h
  rcases merge_cases s o with ⟨-, heq⟩ | ⟨before, p, after, hsettings, hp, -, heq⟩
  · simp [find?, heq, List.find?_append, hne]
  · have hmerged : (p.merge o.values).name = o.name := hp
    simp [find?, heq, hsettings, List.find?_append, hmerged, hp, hne]

theorem clashes_congr {t : Section} (h : t.find? o.name = s.find? o.name) :
    t.Clashes o ↔ s.Clashes o := by
  rw [Clashes, Clashes, h]

theorem isFaithful_merge_iff (hs : s.written.IsWritable) (ho : o.IsWritable) :
    (s.merge o).IsFaithful ↔ s.IsFaithful ∧ ¬ s.Clashes o := by
  obtain ⟨-, -, -, -, hsettings⟩ := isWritable_written_iff.1 hs
  rcases merge_cases s o with ⟨hfind, heq⟩ | ⟨before, p, after, hsplit, -, hfind, heq⟩
  · have hfaithful := Setting.isFaithful_of_hasShape ho.shape
    simp [IsFaithful, heq, Clashes, hfind, or_imp, forall_and, hfaithful]
  · have hne := Setting.values_ne_nil_of_written (hsettings p (by simp [hsplit])).shape
    have hclashes : ¬ s.Clashes o ↔ (p.kind = .scalar → ∀ v ∈ o.values, v ∈ p.values) := by
      simp [Clashes, hfind]
    simp only [IsFaithful, heq, hsplit, List.forall_mem_append, List.forall_mem_cons, hclashes,
      Setting.isFaithful_merge_iff hne o.values]
    grind

/-- Settings of different names concern different settings, so what they are merged with is what
was there before. -/
theorem isFaithful_mergeAll_iff (hs : s.written.IsWritable) {settings : List Setting}
    (hsettings : ∀ o ∈ settings, o.IsWritable) (hnames : (settings.map (·.name)).Nodup) :
    (s.mergeAll settings).IsFaithful ↔ s.IsFaithful ∧ ∀ o ∈ settings, ¬ s.Clashes o := by
  induction settings generalizing s with
  | nil => simp [mergeAll]
  | cons o rest ih =>
    obtain ⟨hname, hrest⟩ := List.nodup_cons.1 hnames
    have ho := hsettings o (by simp)
    have ih := @ih (s.merge o) (isWritable_written_merge hs ho)
      (fun p hp => hsettings p (by simp [hp])) hrest
    have hsame : ∀ p ∈ rest, ((s.merge o).Clashes p ↔ s.Clashes p) := by
      intro p hp
      apply clashes_congr
      apply find?_merge_of_ne
      exact fun heq => hname (List.mem_map.2 ⟨p, hp, heq.symm⟩)
    have hclashes : (∀ p ∈ rest, ¬ (s.merge o).Clashes p) ↔ ∀ p ∈ rest, ¬ s.Clashes p :=
      forall₂_congr fun p hp => not_congr (hsame p hp)
    have hall : s.mergeAll (o :: rest) = (s.merge o).mergeAll rest := rfl
    rw [hall, ih, isFaithful_merge_iff hs ho, hclashes, List.forall_mem_cons, and_assoc]

theorem lastValue?_written (s : Section) (name : String) :
    s.written.lastValue? name = (s.find? name).bind (·.written.values.getLast?) := by
  have hfind : s.written.find? name = (s.find? name).map Setting.written := by
    simp only [find?, written, List.find?_map, Function.comp_def, Setting.written_name]
  rw [lastValue?, hfind, Option.bind_map]
  rfl

theorem lastValue?_written_iff (hnames : (s.settings.map (·.name)).Nodup) :
    (∀ name, s.written.lastValue? name = s.lastValue? name) ↔ s.IsFaithful := by
  constructor
  · intro hall o ho
    obtain ⟨before, after, hsettings⟩ := List.append_of_mem ho
    have hfind := find?_eq_some hsettings (Assignment.name_notMem_of_nodup (hsettings ▸ hnames))
    have hlast := hall o.name
    rw [lastValue?_written, lastValue?, hfind] at hlast
    exact hlast
  · intro hs name
    rw [lastValue?_written, lastValue?]
    cases hfind : s.find? name with
    | none => rfl
    | some o => exact hs o (List.mem_of_find?_eq_some hfind)

end Section

/-! ## Merging configurations -/

namespace Config

variable {c : Config} {s : Section}

theorem isDurable_written_of_isDurable (h : c.IsDurable) : c.written.IsDurable := by
  refine isDurable_congr h ?_
  have hsame : ∀ s ∈ c.sections, s.written = id s := fun s hs =>
    Section.written_of_isWritable (h.writable.sections s hs)
  exact (List.map_congr_left hsame).trans (List.map_id _)

theorem mem_written (hs : s ∈ c.sections) : s.written ∈ c.written.sections :=
  List.mem_map.2 ⟨s, hs, rfl⟩

theorem headings_written (c : Config) :
    c.written.sections.map Section.heading = c.sections.map Section.heading := by
  simp [written, Section.written, Section.heading, Function.comp_def]

/-- What is written after a change of one section that keeps the heading and what can be written. -/
theorem isDurable_written_changeAt (h : c.written.IsDurable) (i : Nat)
    {change : Section → Section} (hheading : ∀ s, (change s).heading = s.heading)
    (hchange : ∀ s, s.written.IsWritable → (change s).written.IsWritable) :
    (c.changeAt i change).written.IsDurable := by
  have hheadings : (c.changeAt i change).written.sections.map Section.heading =
      c.written.sections.map Section.heading := by
    rw [headings_written, headings_changeAt c i hheading, headings_written]
  have hwritable : ∀ s ∈ c.sections, s.written.IsWritable :=
    fun _ hs => h.writable.sections _ (mem_written hs)
  have hnames : ∀ s ∈ c.sections, s.name.toList.head? ≠ some '@' :=
    fun s hs => h.names s.written (mem_written hs)
  refine ⟨⟨fun q hq => ?_, fresh_congr hheadings.symm h.writable.fresh⟩, fun q hq => ?_⟩
  · obtain ⟨t, ht, rfl⟩ := List.mem_map.1 hq
    exact forall_changeAt hwritable i hchange t ht
  · obtain ⟨t, ht, rfl⟩ := List.mem_map.1 hq
    refine forall_changeAt hnames i (fun s hs => ?_) t ht
    have hname : (change s).name = s.name := congrArg Prod.snd (hheading s)
    rwa [hname]

theorem isDurable_written_push (h : c.written.IsDurable) (hs : s.IsWritable)
    (hat : s.name.toList.head? ≠ some '@') (hname : s.name = "" ∨ s.name ∉ c.names) :
    (c.push s).written.IsDurable := by
  have hpush : (c.push s).written = c.written.push s := by
    simp [written, push, Section.written_of_isWritable hs]
  rw [hpush]
  exact isDurable_push h hs hat (names_congr (headings_written c) ▸ hname)

theorem heading_mergeAll (s : Section) (settings : List Setting) :
    (s.mergeAll settings).heading = s.heading := by
  induction settings generalizing s with
  | nil => rfl
  | cons o rest ih => exact ih (s.merge o)

/-- What is written of a configuration can be read back, also after a merge. -/
theorem isDurable_written_mergeAt (h : c.written.IsDurable) (hs : s.IsWritable)
    (hat : s.name.toList.head? ≠ some '@') (ordinal : Nat) :
    (c.mergeAt s ordinal).1.written.IsDurable := by
  rcases mergeAt_cases c s ordinal with ⟨hnot, hmerged⟩ | ⟨i, _, -, -, -, hmerged⟩
  · rw [hmerged]
    refine isDurable_written_push h hs hat (Classical.or_iff_not_imp_left.2 fun hne => ?_)
    have hgoes : s.nameAt ordinal = s.name := by simp [Section.nameAt, Section.isUnnamed, hne]
    rwa [hgoes] at hnot
  · rw [hmerged]
    have hchanged := isDurable_written_changeAt h i (heading_mergeAll · s.settings)
      fun t ht => Section.isWritable_written_mergeAll ht hs.settings
    exact isDurable_congr hchanged rfl

theorem isDurable_written_overlayFrom (h : c.written.IsDurable) {before sections : List Section}
    (hsections : ∀ s ∈ sections, s.IsWritable ∧ s.name.toList.head? ≠ some '@') :
    (c.overlayFrom before sections).written.IsDurable := by
  induction sections generalizing c before with
  | nil => exact h
  | cons s rest ih =>
    obtain ⟨hs, hat⟩ := hsections s (by simp)
    exact ih (isDurable_written_mergeAt h hs hat _) fun t ht => hsections t (by simp [ht])

/-- Whether the last value of each setting is written. -/
def IsFaithful (c : Config) : Prop :=
  ∀ s ∈ c.sections, s.IsFaithful

theorem isFaithful_of_isDurable (h : c.IsDurable) : c.IsFaithful :=
  fun s hs => Section.isFaithful_of_isWritable (h.writable.sections s hs)

/-- Whether a section that is merged has a new value for a scalar of the section that takes it
up. -/
def Clashes (c : Config) (s : Section) (ordinal : Nat) : Prop :=
  ∃ i t, c.names.findIdx? (· == s.nameAt ordinal) = some i ∧ c.sections[i]? = some t ∧
    ∃ o ∈ s.settings, t.Clashes o

/-- A merge loses a value if and only if it clashes. -/
theorem isFaithful_mergeAt_iff (h : c.written.IsDurable) (hs : s.IsWritable) (ordinal : Nat) :
    (c.mergeAt s ordinal).1.IsFaithful ↔ c.IsFaithful ∧ ¬ c.Clashes s ordinal := by
  rcases mergeAt_cases c s ordinal with ⟨hnot, hmerged⟩ | ⟨i, t, hi, ht, -, hmerged⟩
  · have hnone := findIdx?_names_eq_none_iff.2 hnot
    have hs := Section.isFaithful_of_isWritable hs
    simp [hmerged, IsFaithful, push, Clashes, hnone, or_imp, forall_and, hs]
  · obtain ⟨before, after, hsections, rfl⟩ := exists_around ht
    have ht : t.written.IsWritable :=
      h.writable.sections _ (mem_written (by simp [hsections]))
    have hclashes : ¬ c.Clashes s ordinal ↔ ∀ o ∈ s.settings, ¬ t.Clashes o := by
      simp [Clashes, hi, hsections]
    have hmerged : (c.mergeAt s ordinal).1.sections =
        before ++ t.mergeAll s.settings :: after := by
      simp only [hmerged, taint, changeAt, hsections, modify_append_cons]
    simp only [IsFaithful, hmerged, hsections, List.forall_mem_append, List.forall_mem_cons,
      Section.isFaithful_mergeAll_iff ht hs.settings hs.distinct, hclashes]
    grind

/-- An overlay loses a value if and only if some merge clashes. -/
theorem isFaithful_overlayFrom_iff (h : c.written.IsDurable) {before sections : List Section}
    (hsections : ∀ s ∈ sections, s.IsWritable ∧ s.name.toList.head? ≠ some '@') :
    (c.overlayFrom before sections).IsFaithful ↔ c.IsFaithful ∧
      ∀ k s, sections[k]? = some s → ¬ (c.overlayFrom before (sections.take k)).Clashes s
        ((before ++ sections.take k).countP (·.type == s.type)) := by
  induction sections generalizing c before with
  | nil => simp [overlayFrom]
  | cons s rest ih =>
    obtain ⟨hs, hat⟩ := hsections s (by simp)
    have hmerged := isDurable_written_mergeAt h hs hat (before.countP (·.type == s.type))
    rw [overlayFrom, ih hmerged fun t ht => hsections t (by simp [ht]),
      isFaithful_mergeAt_iff h hs, and_assoc]
    refine and_congr_right fun _ => Iff.trans ?_ Nat.and_forall_add_one
    simp [overlayFrom]

/-- The last value of a setting of the section at a place. -/
def lastValueAt? (c : Config) (i : Nat) (setting : String) : Option String :=
  c.sections[i]?.bind (·.lastValue? setting)

/-- What is looked up is written if and only if the last values are. -/
theorem lastValueAt?_written_iff (h : c.written.IsDurable) :
    (∀ i setting, c.written.lastValueAt? i setting = c.lastValueAt? i setting) ↔ c.IsFaithful := by
  have hsection : ∀ s ∈ c.sections,
      ((∀ setting, s.written.lastValue? setting = s.lastValue? setting) ↔ s.IsFaithful) := by
    intro s hs
    have hwritable := h.writable.sections _ (mem_written hs)
    obtain ⟨-, -, -, hdistinct, -⟩ := Section.isWritable_written_iff.1 hwritable
    exact Section.lastValue?_written_iff hdistinct
  constructor
  · intro hall s hs
    refine (hsection s hs).1 fun setting => ?_
    obtain ⟨i, hi⟩ := List.getElem?_of_mem hs
    simpa [lastValueAt?, written, hi] using hall i setting
  · intro hc i setting
    cases hi : c.sections[i]? with
    | none => simp [lastValueAt?, written, hi]
    | some s =>
      have hs := List.mem_of_getElem? hi
      simpa [lastValueAt?, written, hi] using (hsection s hs).2 (hc s hs) setting

/-- An overlay of writable configurations can be written and read. What is looked up last is then
the same as in memory, if and only if no section of the overlay has a new value for a scalar that
is there when the section is merged. -/
theorem lastValueAt?_of_overlay_iff {base fragment : Config} (hbase : base.IsDurable)
    (hfragment : fragment.IsDurable) (name : String) :
    ∃ d, parse name (base.overlay fragment).render = .ok d ∧
      d.sections = (base.overlay fragment).written.sections ∧
      ((∀ i setting, d.lastValueAt? i setting = (base.overlay fragment).lastValueAt? i setting) ↔
        ∀ k s, fragment.sections[k]? = some s →
          ¬ (base.overlayFrom [] (fragment.sections.take k)).Clashes s
            (fragment.countBefore s.type k)) := by
  have hold := isDurable_written_of_isDurable hbase
  have hsections : ∀ s ∈ fragment.sections, s.IsWritable ∧ s.name.toList.head? ≠ some '@' :=
    fun s hs => ⟨hfragment.writable.sections s hs, hfragment.names s hs⟩
  have hwritten : (base.overlay fragment).written.IsDurable :=
    isDurable_written_overlayFrom hold hsections
  have hread := parse_render hwritten.writable name
  rw [render_written] at hread
  refine ⟨_, hread, rfl, ?_⟩
  have hfaithful := @isFaithful_overlayFrom_iff base hold [] _ hsections
  rw [and_iff_right (isFaithful_of_isDurable hbase)] at hfaithful
  exact (lastValueAt?_written_iff hwritten).trans hfaithful

/-- A list that an overlay adds to, and a setting that it brings. -/
theorem lastValueAt?_of_overlay_lan :
    let base : Config :=
      { name := "network",
        sections := [{ type := "interface", name := "lan",
                       settings := [{ name := "dns", kind := .list, values := ["a"] }] }] }
    let fragment : Config :=
      { name := "network",
        sections := [{ type := "interface", name := "lan",
                       settings := [{ name := "dns", kind := .scalar, values := ["b"] },
                                    { name := "proto", kind := .scalar, values := ["static"] }] }] }
    (base.IsDurable ∧ fragment.IsDurable) ∧
      ∃ d, parse "network" (base.overlay fragment).render = .ok d ∧
        ∀ i setting, d.lastValueAt? i setting = (base.overlay fragment).lastValueAt? i setting := by
  intro base fragment
  have hbase : base.IsDurable := by decide +kernel
  have hfragment : fragment.IsDurable := by decide +kernel
  obtain ⟨d, hparse, -, hiff⟩ := lastValueAt?_of_overlay_iff hbase hfragment "network"
  refine ⟨⟨hbase, hfragment⟩, d, hparse, hiff.2 fun k s hs => ?_⟩
  obtain ⟨rfl, rfl⟩ : k = 0 ∧ _ = s := by simpa [fragment, List.getElem?_singleton] using hs
  -- There is no scalar to clash with.
  rintro ⟨i, t, -, ht, o, -, p, hp, hscalar, -⟩
  obtain rfl := List.mem_singleton.1 (List.mem_of_getElem? ht)
  obtain rfl := List.mem_singleton.1 (List.mem_of_find?_eq_some hp)
  cases hscalar

/-- A scalar that an overlay has a new value for: the new value is looked up, but only the old one
is written. -/
theorem not_lastValueAt?_of_overlay : ¬ ∀ base fragment : Config, base.IsDurable →
    fragment.IsDurable → ∃ d, parse base.name (base.overlay fragment).render = .ok d ∧
      ∀ i setting, d.lastValueAt? i setting = (base.overlay fragment).lastValueAt? i setting := by
  intro hall
  let config := fun value => ({ name := "a", sections := [{ type := "t", name := "n", settings :=
    [{ name := "k", kind := .scalar, values := [value] }] }] } : Config)
  obtain ⟨d, hparse, hlast⟩ :=
    hall (config "x") (config "y") (by decide +kernel) (by decide +kernel)
  have hread : (parse "a" ((config "x").overlay (config "y")).render).toOption.bind
      (·.lastValueAt? 0 "k") = some "x" := by decide +kernel
  have hmemory : ((config "x").overlay (config "y")).lastValueAt? 0 "k" = some "y" := by
    decide +kernel
  have hfile : d.lastValueAt? 0 "k" = some "x" := by
    rw [show parse "a" ((config "x").overlay (config "y")).render = .ok d from hparse] at hread
    exact hread
  rw [hlast, hmemory] at hfile
  exact absurd hfile (by decide)

end Config

end UnifiedConfig
