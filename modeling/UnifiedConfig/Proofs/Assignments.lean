import UnifiedConfig.Config.Parser
import UnifiedConfig.Proofs.Blocks
import UnifiedConfig.Proofs.Values

/-!
# What assignments make of settings

The `option` and `list` lines of a section act on its list of settings, one after the other
(`Assignment.putAll`). A setting is written as the lines that make it again, and no other lines that
are written alike do.

* `changeFirstOr_cases`: a change by name appends one setting, or changes the first one of the name.
* `putAll_assignments`: the lines that settings are written as make these settings, if they have
  distinct names and one value each, or some distinct values for a list.
* `reread_eq_of_putAll`: if what the lines are read as makes the same settings, then each line is
  read as what was written.

The last one is not a matter of the settings alone, as lines of two lists can be exchanged. It goes
by the number of values: a line adds one at most, and there are as many lines as values, so each
line adds one, and nothing that is there is ever changed again (`Extends`).
-/

namespace UnifiedConfig

open Text

/-! ## Changing a setting by name -/

theorem changeFirstOr_cases (name : String) (change : Setting → Setting) (new : Setting)
    (settings : List Setting) :
    (name ∉ settings.map (·.name) ∧
      Section.changeFirstOr (·.name == name) change new settings = settings ++ [new]) ∨
    (∃ before o after, settings = before ++ o :: after ∧ o.name = name ∧
      name ∉ before.map (·.name) ∧
      Section.changeFirstOr (·.name == name) change new settings =
        before ++ change o :: after) := by
  induction settings with
  | nil => exact .inl ⟨by simp, rfl⟩
  | cons o rest ih =>
    by_cases ho : o.name = name
    · exact .inr ⟨[], o, rest, rfl, ho, by simp, by simp [Section.changeFirstOr, ho]⟩
    · have hne : (o.name == name) = false := by simpa using ho
      rcases ih with ⟨hmem, hnew⟩ | ⟨before, p, after, rfl, hp, hmem, hchange⟩
      · refine .inl ⟨?_, by simp [Section.changeFirstOr, hne, hnew]⟩
        simpa [Ne.symm ho] using hmem
      · refine .inr ⟨o :: before, p, after, rfl, hp, ?_, ?_⟩
        · simpa [Ne.symm ho] using hmem
        · simp [Section.changeFirstOr, hne, hchange]

/-- A change by name keeps what holds of all settings. -/
theorem forall_changeFirstOr {P : Setting → Prop} {name : String} {change : Setting → Setting}
    {new : Setting} {settings : List Setting} (hsettings : ∀ o ∈ settings, P o) (hnew : P new)
    (hchange : ∀ o, P o → o.name = name → P (change o)) :
    ∀ o ∈ Section.changeFirstOr (·.name == name) change new settings, P o := by
  intro o ho
  rcases changeFirstOr_cases name change new settings with ⟨-, heq⟩ |
    ⟨before, p, after, rfl, hp, -, heq⟩
  · rw [heq, List.mem_append, List.mem_singleton] at ho
    rcases ho with ho | rfl
    · exact hsettings o ho
    · exact hnew
  · rw [heq, List.mem_append, List.mem_cons] at ho
    rcases ho with ho | rfl | ho
    · exact hsettings o (by simp [ho])
    · exact hchange p (hsettings p (by simp)) hp
    · exact hsettings o (by simp [ho])

/-- A change by name keeps names distinct, if it keeps the name. -/
theorem nodup_changeFirstOr {name : String} {change : Setting → Setting} {new : Setting}
    {settings : List Setting} (h : (settings.map (·.name)).Nodup) (hnew : new.name = name)
    (hchange : ∀ o, (change o).name = o.name) :
    ((Section.changeFirstOr (·.name == name) change new settings).map (·.name)).Nodup := by
  rcases changeFirstOr_cases name change new settings with ⟨hmem, heq⟩ |
    ⟨before, p, after, rfl, -, -, heq⟩
  · rw [heq, List.map_append, List.map_singleton, hnew]
    refine List.nodup_append.2 ⟨h, by simp, ?_⟩
    intro a ha b hb hab
    rw [List.mem_singleton.1 hb] at hab
    exact hmem (hab ▸ ha)
  · simpa [heq, hchange] using h

/-! ## Assignments on settings -/

/-- The values that a setting of a file has: one for a scalar, and some distinct ones for a list. -/
def Setting.HasShape (o : Setting) : Prop :=
  match o.kind with
  | .scalar => o.values.length = 1
  | .list => o.values ≠ [] ∧ o.values.Nodup

instance (o : Setting) : Decidable o.HasShape :=
  match h : o.kind with
  | .scalar => decidable_of_iff (o.values.length = 1) (by simp [Setting.HasShape, h])
  | .list => decidable_of_iff (o.values ≠ [] ∧ o.values.Nodup) (by simp [Setting.HasShape, h])

theorem Setting.HasShape.values_ne_nil {o : Setting} (h : o.HasShape) : o.values ≠ [] := by
  unfold Setting.HasShape at h
  split at h
  · intro hnil
    simp [hnil] at h
  · exact h.1

theorem Setting.HasShape.values_nodup {o : Setting} (h : o.HasShape) : o.values.Nodup := by
  unfold Setting.HasShape at h
  split at h
  · obtain ⟨value, hvalue⟩ := List.length_eq_one_iff.1 h
    simp [hvalue]
  · exact h.2

theorem Setting.HasShape.kind_of_values {o : Setting} (h : o.HasShape) {value : String}
    {more : List String} (hvalues : o.values = value :: more) : more ≠ [] → o.kind = .list := by
  intro hmore
  unfold Setting.HasShape at h
  split at h
  · simp [hvalues, hmore] at h
  · assumption

theorem Setting.HasShape.assignments {o : Setting} (h : o.HasShape) :
    o.assignments = o.values.map o.assignment := by
  unfold Setting.HasShape at h
  unfold Setting.assignments
  cases hkind : o.kind with
  | scalar =>
    rw [hkind] at h
    exact congrArg (List.map o.assignment) (List.take_of_length_le (Nat.le_of_eq h))
  | list => rfl

/-- The assignments of settings give one value of one setting each. -/
theorem mem_flatMap_assignments {settings : List Setting} (h : ∀ o ∈ settings, o.HasShape)
    {a : Assignment} : a ∈ settings.flatMap Setting.assignments ↔
      ∃ o ∈ settings, ∃ value ∈ o.values, o.assignment value = a := by
  rw [List.mem_flatMap]
  constructor
  · rintro ⟨o, ho, ha⟩
    rw [(h o ho).assignments] at ha
    exact ⟨o, ho, List.mem_map.1 ha⟩
  · rintro ⟨o, ho, ha⟩
    refine ⟨o, ho, ?_⟩
    rw [(h o ho).assignments]
    exact List.mem_map.2 ha

namespace Assignment

/-- The setting that an assignment to a new name makes. -/
def setting (a : Assignment) : Setting :=
  { name := a.name, kind := a.kind, values := [a.value] }

/-- What an assignment makes of the setting of its name. -/
def change (a : Assignment) (o : Setting) : Setting :=
  match a.kind with
  | .scalar => { o with kind := .scalar, values := [a.value] }
  | .list => { o with kind := .list }.merge [a.value]

/-- What an assignment makes of the settings of a section. -/
def put (settings : List Setting) (a : Assignment) : List Setting :=
  Section.changeFirstOr (·.name == a.name) a.change a.setting settings

/-- What assignments make of the settings of a section. -/
def putAll (settings : List Setting) (as : List Assignment) : List Setting :=
  as.foldl put settings

theorem assign_eq (s : Section) (a : Assignment) :
    s.assign a.kind a.name a.value = { s with settings := put s.settings a } := by
  obtain ⟨kind, name, value⟩ := a
  cases kind <;> rfl

@[simp] theorem putAll_nil (settings : List Setting) : putAll settings [] = settings := rfl

@[simp] theorem putAll_cons (settings : List Setting) (a : Assignment) (as : List Assignment) :
    putAll settings (a :: as) = putAll (put settings a) as := rfl

@[simp] theorem putAll_append (settings : List Setting) (as bs : List Assignment) :
    putAll settings (as ++ bs) = putAll (putAll settings as) bs :=
  List.foldl_append

@[simp] theorem change_name (a : Assignment) (o : Setting) : (a.change o).name = o.name := by
  unfold change
  cases a.kind <;> rfl

/-- An assignment keeps the shape of settings. -/
theorem change_hasShape (a : Assignment) {o : Setting} (h : o.HasShape) :
    (a.change o).HasShape := by
  unfold change
  cases a.kind with
  | scalar => rfl
  | list =>
    have hthere : a.value ∈ mergeValues o.values [a.value] := mem_mergeValues.2 (.inr (by simp))
    exact ⟨List.ne_nil_of_mem hthere, nodup_mergeValues h.values_nodup _⟩

theorem setting_hasShape (a : Assignment) : a.setting.HasShape := by
  unfold setting Setting.HasShape
  cases a.kind <;> simp

/-- Assignments keep names distinct. -/
theorem nodup_putAll {settings : List Setting} (h : (settings.map (·.name)).Nodup)
    (as : List Assignment) : ((putAll settings as).map (·.name)).Nodup := by
  induction as generalizing settings with
  | nil => exact h
  | cons a as ih => exact ih (nodup_changeFirstOr h rfl a.change_name)

theorem put_of_notMem {settings : List Setting} {a : Assignment}
    (h : a.name ∉ settings.map (·.name)) : put settings a = settings ++ [a.setting] := by
  rcases changeFirstOr_cases a.name a.change a.setting settings with ⟨-, heq⟩ |
    ⟨before, o, after, rfl, ho, -, -⟩
  · exact heq
  · exact absurd (by simp [ho]) h

theorem put_append_of_mem {before : List Setting} (after : List Setting) {o : Setting}
    (a : Assignment) (hname : a.name = o.name) (h : o.name ∉ before.map (·.name)) :
    put (before ++ o :: after) a = before ++ a.change o :: after := by
  induction before with
  | nil => simp [put, Section.changeFirstOr, hname]
  | cons p before ih =>
    have hp : (p.name == a.name) = false := by
      simpa [hname] using fun hp => h (by simp [hp])
    have ih := ih fun hmem => h (by simp [hmem])
    unfold put at ih ⊢
    simp [Section.changeFirstOr, hp, ih]

/-! ## Settings made by the lines they are written as -/

/-- Further values of a list are appended. -/
theorem putAll_values {before : List Setting} {o : Setting} (hname : o.name ∉ before.map (·.name))
    {values more : List String} (hkind : more ≠ [] → o.kind = .list)
    (hnodup : (values ++ more).Nodup) :
    putAll (before ++ [{ o with values }]) (more.map o.assignment) =
      before ++ [{ o with values := values ++ more }] := by
  induction more generalizing values with
  | nil => simp
  | cons value more ih =>
    have hlist := hkind (by simp)
    have hmem : value ∉ values := by
      intro hmem
      exact (List.nodup_append.1 hnodup).2.2 value hmem value (by simp) rfl
    have hchange : (o.assignment value).change { o with values } =
        { o with values := values ++ [value] } := by
      simp [Setting.assignment, change, hlist, Setting.merge, mergeValues_singleton, hmem]
    have hput : put (before ++ [{ o with values }]) (o.assignment value) =
        before ++ [{ o with values := values ++ [value] }] :=
      (put_append_of_mem (o := { o with values }) [] _ rfl hname).trans (by rw [hchange])
    have ih := ih (fun _ => hlist) (by simpa using hnodup : (values ++ [value] ++ more).Nodup)
    rw [List.map_cons, putAll_cons, hput, ih]
    simp

theorem name_notMem_of_nodup {before rest : List Setting} {o : Setting}
    (h : ((before ++ o :: rest).map (·.name)).Nodup) : o.name ∉ before.map (·.name) := by
  rw [List.map_append, List.nodup_append] at h
  intro hmem
  exact h.2.2 o.name hmem o.name (by simp) rfl

/-- The lines that a setting is written as make this setting. -/
theorem putAll_setting {before : List Setting} {o : Setting} (ho : o.HasShape)
    (hname : o.name ∉ before.map (·.name)) : putAll before o.assignments = before ++ [o] := by
  cases hvalues : o.values with
  | nil => exact absurd hvalues ho.values_ne_nil
  | cons value more =>
    have hnodup : ([value] ++ more).Nodup := by simpa [hvalues] using ho.values_nodup
    have hput : put before (o.assignment value) = before ++ [{ o with values := [value] }] :=
      put_of_notMem hname
    rw [ho.assignments, hvalues, List.map_cons, putAll_cons, hput,
      putAll_values hname (ho.kind_of_values hvalues) hnodup, List.singleton_append, ← hvalues]

/-- The lines that settings are written as make these settings. -/
theorem putAll_assignments {before settings : List Setting}
    (hnames : ((before ++ settings).map (·.name)).Nodup)
    (hshape : ∀ o ∈ settings, o.HasShape) :
    putAll before (settings.flatMap Setting.assignments) = before ++ settings := by
  induction settings generalizing before with
  | nil => simp
  | cons o settings ih =>
    rw [List.flatMap_cons, putAll_append,
      putAll_setting (hshape o (by simp)) (name_notMem_of_nodup hnames),
      ih (by simpa using hnames) fun p hp => hshape p (by simp [hp])]
    simp

/-! ## Settings that only grow -/

/-- Whether settings come first among others, under the same names and with values that come first
among those of the others. -/
inductive Extends : List Setting → List Setting → Prop where
  | nil (more : List Setting) : Extends [] more
  | cons {o p : Setting} {settings more : List Setting} (hname : o.name = p.name)
      (hvalues : o.values <+: p.values) (h : Extends settings more) :
      Extends (o :: settings) (p :: more)

theorem Extends.refl (settings : List Setting) : Extends settings settings := by
  induction settings with
  | nil => exact .nil []
  | cons o settings ih => exact .cons rfl (List.prefix_refl _) ih

theorem Extends.trans {s t u : List Setting} (hst : Extends s t) (htu : Extends t u) :
    Extends s u := by
  induction hst generalizing u with
  | nil more => exact .nil u
  | cons hname hvalues _ ih =>
    cases htu with
    | cons hname' hvalues' h' =>
      exact .cons (hname.trans hname') (hvalues.trans hvalues') (ih h')

theorem Extends.append (settings more : List Setting) : Extends settings (settings ++ more) := by
  induction settings with
  | nil => exact .nil more
  | cons o settings ih => exact .cons rfl (List.prefix_refl _) ih

theorem Extends.changed (before after : List Setting) {o p : Setting} (hname : o.name = p.name)
    (hvalues : o.values <+: p.values) : Extends (before ++ o :: after) (before ++ p :: after) := by
  induction before with
  | nil => exact .cons hname hvalues (.refl after)
  | cons q before ih => exact .cons rfl (List.prefix_refl _) ih

/-- Where the settings before one are the same, that one is extended. -/
theorem Extends.at {before after more : List Setting} {o p : Setting}
    (h : Extends (before ++ o :: after) (before ++ p :: more)) :
    o.name = p.name ∧ o.values <+: p.values := by
  induction before with
  | nil =>
    cases h with
    | cons hname hvalues _ => exact ⟨hname, hvalues⟩
  | cons q before ih =>
    cases h with
    | cons _ _ h => exact ih h

/-- The number of values of settings. -/
def valueCount (settings : List Setting) : Nat :=
  (settings.flatMap (·.values)).length

@[simp] theorem valueCount_nil : valueCount [] = 0 := rfl

@[simp] theorem valueCount_cons (o : Setting) (settings : List Setting) :
    valueCount (o :: settings) = o.values.length + valueCount settings := by
  rw [valueCount, List.flatMap_cons, List.length_append]
  rfl

@[simp] theorem valueCount_append (settings more : List Setting) :
    valueCount (settings ++ more) = valueCount settings + valueCount more := by
  rw [valueCount, List.flatMap_append, List.length_append]
  rfl

/-- An assignment adds one value at most, and if it does, nothing else changes. -/
theorem valueCount_put {settings : List Setting} (h : ∀ o ∈ settings, o.values ≠ [])
    (a : Assignment) :
    valueCount (put settings a) ≤ valueCount settings + 1 ∧
      (valueCount (put settings a) = valueCount settings + 1 → Extends settings (put settings a)) ∧
      ∀ o ∈ put settings a, o.values ≠ [] := by
  unfold put
  -- Either a setting is added, with one value, or one that is there is changed.
  rcases changeFirstOr_cases a.name a.change a.setting settings with ⟨-, heq⟩ |
    ⟨before, o, after, rfl, ho, -, heq⟩
  · rw [heq]
    refine ⟨by simp [setting], fun _ => .append _ _, ?_⟩
    intro p hp
    rcases List.mem_append.1 hp with hp | hp
    · exact h p hp
    · simp [List.mem_singleton.1 hp, setting]
  · have hne : o.values ≠ [] := h o (by simp)
    have hpos := List.length_pos_iff.2 hne
    have hchange : (a.change o).values.length ≤ o.values.length + 1 ∧
        ((a.change o).values.length = o.values.length + 1 → o.values <+: (a.change o).values) ∧
        (a.change o).values ≠ [] := by
      unfold change
      cases a.kind with
      | scalar =>
        refine ⟨by simp, fun hlength => absurd ?_ hne, by simp⟩
        simpa using hlength
      | list =>
        simp only [Setting.merge, mergeValues_singleton]
        split
        · exact ⟨by omega, by omega, hne⟩
        · simp
    rw [heq]
    refine ⟨?_, ?_, ?_⟩
    · rw [valueCount_append, valueCount_append, valueCount_cons, valueCount_cons]
      omega
    · intro hcount
      refine .changed before after (a.change_name o).symm (hchange.2.1 ?_)
      rw [valueCount_append, valueCount_append, valueCount_cons, valueCount_cons] at hcount
      omega
    · intro p hp
      rw [List.mem_append, List.mem_cons] at hp
      rcases hp with hp | rfl | hp
      · exact h p (by simp [hp])
      · exact hchange.2.2
      · exact h p (by simp [hp])

theorem valueCount_putAll {settings : List Setting} (h : ∀ o ∈ settings, o.values ≠ [])
    (as : List Assignment) :
    valueCount (putAll settings as) ≤ valueCount settings + as.length ∧
      (valueCount (putAll settings as) = valueCount settings + as.length →
        Extends settings (putAll settings as)) := by
  induction as generalizing settings with
  | nil => exact ⟨by simp, fun _ => .refl _⟩
  | cons a as ih =>
    have hput := valueCount_put h a
    have ih := ih hput.2.2
    rw [putAll_cons, List.length_cons]
    refine ⟨by omega, fun hcount => ?_⟩
    exact (hput.2.1 (by omega)).trans (ih.2 (by omega))

theorem length_flatMap_assignments {settings : List Setting}
    (h : ∀ o ∈ settings, o.HasShape) :
    (settings.flatMap Setting.assignments).length = valueCount settings := by
  induction settings with
  | nil => rfl
  | cons o settings ih =>
    have ih := ih fun p hp => h p (by simp [hp])
    rw [List.flatMap_cons, List.length_append, ih, valueCount_cons, (h o (by simp)).assignments,
      List.length_map]

/-- Where there are as many assignments as values to come, the first one adds a value and changes
nothing else that lasts. -/
theorem extends_of_valueCount {settings result : List Setting} {a : Assignment}
    {as : List Assignment} (hne : ∀ o ∈ settings, o.values ≠ [])
    (h : putAll settings (a :: as) = result)
    (hcount : valueCount result = valueCount settings + (a :: as).length) :
    valueCount (put settings a) = valueCount settings + 1 ∧ Extends (put settings a) result := by
  have hput := valueCount_put hne a
  have hall := valueCount_putAll hput.2.2 as
  rw [putAll_cons] at h
  rw [h] at hall
  rw [List.length_cons] at hcount
  exact ⟨by omega, hall.2 (by omega)⟩

/-! ## Settings made by what their lines are read as -/

/-- Whether the lines of assignments can be read. -/
def AllReadable (as : List Assignment) : Prop :=
  ∀ a ∈ as, ∃ s, Statement.ofLine a.line = .ok s

/-- A line that goes on with a list, and adds a value that lasts, adds the value that comes next. -/
theorem value_eq_of_extends {before rest : List Setting} {o : Setting} {a : Assignment}
    (hlist : a.kind = .list) (hname : a.name = o.name) (hbefore : o.name ∉ before.map (·.name))
    {value : String} {more : List String}
    (hcount : valueCount (put (before ++ [o]) a) = valueCount (before ++ [o]) + 1)
    (h : Extends (put (before ++ [o]) a)
      (before ++ { o with values := o.values ++ value :: more } :: rest)) : a.value = value := by
  rw [put_append_of_mem [] a hname hbefore] at hcount h
  have hvalues : (a.change o).values = mergeValues o.values [a.value] := by
    simp [change, hlist, Setting.merge]
  -- A value that is there already would not be added.
  have hnew : a.value ∉ o.values := by
    intro hmem
    rw [mergeValues_singleton, if_pos hmem] at hvalues
    simp [hvalues] at hcount
  have hat := h.at.2
  rw [hvalues, mergeValues_singleton, if_neg hnew] at hat
  have hstart := (List.prefix_append_right_inj o.values).1 hat
  exact (List.cons_prefix_cons.1 hstart).1

/-- Lines that go on with a list, after its first one, are read as what was written. -/
theorem reread_eq_of_putAll_values {before rest : List Setting} {o : Setting}
    (hplain : IsPlain o.name.toList) (hname : o.name ∉ before.map (·.name))
    (hbefore : ∀ p ∈ before, p.values ≠ []) {values more : List String} (hvalues : values ≠ [])
    (hkind : more ≠ [] → o.kind = .list) (hnodup : (values ++ more).Nodup) {as : List Assignment}
    (hread : AllReadable (more.map o.assignment)) (hlength : as.length = valueCount rest)
    (h : putAll (before ++ [{ o with values }]) ((more.map o.assignment).map reread ++ as) =
      before ++ { o with values := values ++ more } :: rest) :
    ∀ value ∈ more, (o.assignment value).reread = o.assignment value := by
  induction more generalizing values with
  | nil => simp
  | cons value more ih =>
    have hlist := hkind (by simp)
    obtain ⟨s, hs⟩ := hread _ (List.mem_cons_self ..)
    have hne : ∀ p ∈ before ++ [{ o with values }], p.values ≠ [] := by
      intro p hp
      rcases List.mem_append.1 hp with hp | hp
      · exact hbefore p hp
      · simpa [List.mem_singleton.1 hp] using hvalues
    have hgrow := extends_of_valueCount hne h (by
      simp only [List.append_eq, valueCount_append, valueCount_cons, valueCount_nil,
        List.length_append, List.length_map, List.length_cons, hlength]
      omega)
    -- The name is plain and so is read back, and the value is the one that comes next.
    have hrekind := (ofLine_line hs).2.1
    have hrename := reread_name_of_plain hs hplain
    have hrevalue := value_eq_of_extends (o := { o with values }) (hrekind.trans hlist) hrename
      hname hgrow.1 hgrow.2
    have hreread : (o.assignment value).reread = o.assignment value :=
      Assignment.ext hrekind hrename hrevalue
    have hput : put (before ++ [{ o with values }]) (o.assignment value) =
        before ++ [{ o with values := values ++ [value] }] := by
      have hsub : (values ++ [value]).Nodup := hnodup.sublist (by simp)
      have hone := putAll_values hname (fun _ => hlist) hsub
      exact hone
    rw [List.map_cons, List.map_cons, hreread, List.cons_append, putAll_cons, hput,
      List.append_cons values value more] at h
    have ih := ih (by simp) (fun _ => hlist) (by simpa using hnodup)
      (fun a ha => hread a (by simp [ha])) h
    intro v hv
    rcases List.mem_cons.1 hv with rfl | hv
    · exact hreread
    · exact ih v hv

/-- The first line of a setting, if it adds a value that lasts, is read as what was written. -/
theorem reread_eq_of_extends {before rest : List Setting} {o : Setting} {value : String}
    {more : List String} (hvalues : o.values = value :: more) {s : Option Statement}
    (hs : Statement.ofLine (o.assignment value).line = .ok s)
    (hcount : valueCount (put before (o.assignment value).reread) = valueCount before + 1)
    (h : Extends (put before (o.assignment value).reread) (before ++ o :: rest)) :
    (o.assignment value).reread = o.assignment value := by
  unfold put at hcount h
  rcases changeFirstOr_cases (o.assignment value).reread.name
      (o.assignment value).reread.change (o.assignment value).reread.setting before with
    ⟨-, hput⟩ | ⟨front, p, back, hfront, -, -, hput⟩
  · rw [hput] at h
    have hat := h.at
    rw [hvalues] at hat
    have hvalue := (List.cons_prefix_cons.1 hat.2).1
    exact Assignment.ext (ofLine_line hs).2.1 hat.1 hvalue
  · -- A value that an earlier setting had more would not last.
    rw [hput, hfront, List.append_assoc, List.cons_append] at h
    rw [hput, hfront] at hcount
    have hlast := h.at.2.length_le
    simp only [valueCount_append, valueCount_cons] at hcount
    omega

/-- If the lines that a setting is written as make it, with other lines after them, each one is read
as what was written. -/
theorem reread_eq_of_putAll_setting {before rest : List Setting} {o : Setting}
    (hname : o.name ∉ before.map (·.name)) (hbefore : ∀ p ∈ before, p.values ≠ [])
    (ho : o.HasShape) (hempty : o.name ≠ "") (hread : AllReadable o.assignments)
    {as : List Assignment} (hlength : as.length = valueCount rest)
    (h : putAll before (o.assignments.map reread ++ as) = before ++ o :: rest) :
    ∀ a ∈ o.assignments, a.reread = a := by
  cases hvalues : o.values with
  | nil => exact absurd hvalues ho.values_ne_nil
  | cons value more =>
    have hassignments : o.assignments = o.assignment value :: more.map o.assignment := by
      rw [ho.assignments, hvalues, List.map_cons]
    have hnodup : ([value] ++ more).Nodup := by simpa [hvalues] using ho.values_nodup
    rw [hassignments] at hread h ⊢
    obtain ⟨s, hs⟩ := hread _ (List.mem_cons_self ..)
    -- There are as many lines as values, so each line adds one that lasts.
    have hgrow := extends_of_valueCount hbefore h (by
      simp only [List.append_eq, valueCount_append, valueCount_cons, List.length_append,
        List.length_map, hvalues, hlength, List.length_cons]
      omega)
    have hreread := reread_eq_of_extends hvalues hs hgrow.1 hgrow.2
    have hplain := isPlain_of_reread hs hempty hreread
    have hput : put before (o.assignment value) = before ++ [{ o with values := [value] }] :=
      put_of_notMem hname
    have hself : before ++ o :: rest = before ++ { o with values := [value] ++ more } :: rest := by
      rw [List.singleton_append, ← hvalues]
    rw [List.map_cons, List.cons_append, hreread, putAll_cons, hput] at h
    have hmore := reread_eq_of_putAll_values hplain.1 hname hbefore (by simp)
      (ho.kind_of_values hvalues) hnodup (fun a ha => hread a (by simp [ha])) hlength
      (h.trans hself)
    intro a ha
    rcases List.mem_cons.1 ha with rfl | ha
    · exact hreread
    · obtain ⟨v, hv, rfl⟩ := List.mem_map.1 ha
      exact hmore v hv

/-- If lines that settings are written as are read as lines that make the same settings, each one is
read as what was written. -/
theorem reread_eq_of_putAll {before settings : List Setting}
    (hnames : ((before ++ settings).map (·.name)).Nodup)
    (hshape : ∀ o ∈ before ++ settings, o.HasShape) (hempty : ∀ o ∈ settings, o.name ≠ "")
    (hread : AllReadable (settings.flatMap Setting.assignments))
    (h : putAll before ((settings.flatMap Setting.assignments).map reread) = before ++ settings) :
    ∀ a ∈ settings.flatMap Setting.assignments, a.reread = a := by
  induction settings generalizing before with
  | nil => simp
  | cons o settings ih =>
    have ho := hshape o (by simp)
    have hbefore : ∀ p ∈ before, p.values ≠ [] := fun p hp =>
      (hshape p (by simp [hp])).values_ne_nil
    have hname := name_notMem_of_nodup hnames
    have hsettings : ∀ p ∈ settings, p.HasShape := fun p hp => hshape p (by simp [hp])
    have hlength := length_flatMap_assignments hsettings
    rw [List.flatMap_cons] at hread h ⊢
    rw [List.map_append] at h
    have hfirst := reread_eq_of_putAll_setting hname hbefore ho (hempty o (by simp))
      (fun a ha => hread a (List.mem_append_left _ ha)) (by simpa using hlength) h
    -- The setting is made by its own lines, so the others make those that are left.
    have hmap : o.assignments.map reread = o.assignments := by
      rw [List.map_congr_left (g := id) hfirst, List.map_id]
    rw [hmap, putAll_append, putAll_setting ho hname, List.append_cons before o settings] at h
    have ih := ih (by simpa using hnames) (by simpa using hshape)
      (fun p hp => hempty p (by simp [hp])) (fun a ha => hread a (List.mem_append_right _ ha)) h
    intro a ha
    rcases List.mem_append.1 ha with ha | ha
    · exact hfirst a ha
    · exact ih a ha

end Assignment

end UnifiedConfig
