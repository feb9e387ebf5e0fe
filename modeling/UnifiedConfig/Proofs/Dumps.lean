import Mathlib.Data.List.Forall2
import UnifiedConfig.Config.Dump
import UnifiedConfig.Proofs.Renderings

/-!
# Dumps

A dump is read back to the configuration that it was made of, so it tells the name and the sections
of it, as a value and as a text. What is left out of a dump is what is taken for empty in reading.

The other way around, a value that can be read may hold more than a dump: fields that are unknown,
and fields that are empty where a dump leaves them out. The dump of what it is read to is the value
without these, up to the order of the fields.

* `Json.Alike`: the same values, up to the order of the fields of the objects.
* `Json.prune`: an object without the fields that a dump does not have.
* `Config.ofJson?_toJson`: a dump is read back.
* `Config.alike_pruned`: what is read is dumped as it was, without what a dump does not have.
-/

namespace UnifiedConfig

namespace Json

/-! ## Values up to the order of the fields -/

/-- The same values, where an object is known by the values of its fields. -/
inductive Alike : Json → Json → Prop
  | null : Alike .null .null
  | bool (b : Bool) : Alike (.bool b) (.bool b)
  | number (literal : String) : Alike (.number literal) (.number literal)
  | string (s : String) : Alike (.string s) (.string s)
  | array {items others : List Json} (h : List.Forall₂ Alike items others) :
      Alike (.array items) (.array others)
  | object {fields others : List (String × Json)}
      (h : ∀ name, Option.Rel Alike (fields.lookup name) (others.lookup name)) :
      Alike (.object fields) (.object others)

theorem Alike.refl : ∀ j : Json, j.Alike j
  | .null => .null
  | .bool b => .bool b
  | .number literal => .number literal
  | .string s => .string s
  | .array items => .array <| List.forall₂_same.mpr fun item _ => Alike.refl item
  | .object fields => .object fun name => by
    cases hfield : fields.lookup name with
    | none => exact .none
    | some j =>
      obtain ⟨before, after, hfields, -⟩ := List.lookup_eq_some_iff.mp hfield
      have hmem : (name, j) ∈ fields := by simp [hfields]
      have hsize := List.sizeOf_lt_of_mem hmem
      exact .some (Alike.refl j)
termination_by j => sizeOf j
decreasing_by
  · decreasing_tactic
  · simp only [Prod.mk.sizeOf_spec, Json.object.sizeOf_spec] at hsize ⊢
    omega

/-- The first field with a name counts. -/
theorem lookup_cons_eq_ite (name other : String) (j : Json) (fields : List (String × Json)) :
    ((other, j) :: fields).lookup name = if name = other then some j else fields.lookup name := by
  rw [List.lookup_cons]
  split <;> simp_all

section Reading

variable {α : Type} {read : Json → Option α} {fields others : List (String × Json)} {name : String}

theorem string?_eq_some {j : Json} {s : String} : j.string? = some s ↔ j = .string s := by
  cases j <;> simp [string?]

theorem object?_eq_some {j : Json} {fields : List (String × Json)} :
    j.object? = some fields ↔ j = .object fields := by
  cases j <;> simp [object?]

theorem required_eq_some {x : α} : required fields name read = some x ↔
    ∃ j, fields.lookup name = some j ∧ read j = some x :=
  Option.bind_eq_some_iff

theorem withDefault_eq_some {default x : α} : withDefault fields name default read = some x ↔
    (fields.lookup name = none ∧ x = default) ∨
      ∃ j, fields.lookup name = some j ∧ read j = some x := by
  unfold withDefault
  cases fields.lookup name <;> simp [eq_comm]

theorem mapM_eq_some {items : List Json} {xs : List α} : items.mapM read = some xs ↔
    List.Forall₂ (fun item x => read item = some x) items xs := by
  induction items generalizing xs with
  | nil => cases xs <;> simp
  | cons item items ih => cases xs <;> simp [Option.bind_eq_some_iff, ih]

theorem listOf?_eq_some {j : Json} {xs : List α} : listOf? read j = some xs ↔
    ∃ items, j = .array items ∧ List.Forall₂ (fun item x => read item = some x) items xs := by
  cases j <;> simp [listOf?, array?, mapM_eq_some]

/-- A list that is written item by item is read back. -/
theorem listOf?_map {write : α → Json} (h : ∀ x, read (write x) = some x) (xs : List α) :
    listOf? read (.array (xs.map write)) = some xs :=
  listOf?_eq_some.mpr ⟨_, rfl, by simp [List.forall₂_map_left_iff, List.forall₂_same, h]⟩

theorem listOf?_string? {j : Json} {values : List String} :
    listOf? string? j = some values ↔ j = .array (values.map .string) := by
  have hitems (items : List Json) :
      List.Forall₂ (fun item x => string? item = some x) items values ↔
        items = values.map .string := by
    simp only [string?_eq_some]
    rw [← List.forall₂_map_right_iff, List.forall₂_eq_eq_eq]
  simp [listOf?_eq_some, hitems]

/-- A field that is left out where it has its default value is read back. -/
theorem withDefault_of_omitted [DecidableEq α] {x default : α} (write : α → Json)
    (h : fields.lookup name = if x = default then none else some (write x))
    (hread : read (write x) = some x) : withDefault fields name default read = some x := by
  rw [withDefault_eq_some, h]
  split
  · next hx => exact .inl ⟨rfl, hx⟩
  · exact .inr ⟨_, rfl, hread⟩

variable (hread : ∀ {j k : Json}, j.Alike k → read j = read k)

include hread

theorem required_congr (h : Option.Rel Alike (fields.lookup name) (others.lookup name)) :
    required fields name read = required others name read := by
  unfold required
  generalize fields.lookup name = field, others.lookup name = other at h
  cases h with
  | none => rfl
  | some h => exact hread h

theorem withDefault_congr (h : Option.Rel Alike (fields.lookup name) (others.lookup name))
    (default : α) :
    withDefault fields name default read = withDefault others name default read := by
  unfold withDefault
  generalize fields.lookup name = field, others.lookup name = other at h
  cases h with
  | none => rfl
  | some h => exact hread h

theorem listOf?_congr {j k : Json} (h : j.Alike k) : listOf? read j = listOf? read k := by
  cases h with
  | array h =>
    simp only [listOf?, array?, Option.bind_some]
    induction h with
    | nil => rfl
    | cons hitem _ ih => rw [List.mapM_cons, List.mapM_cons, hread hitem, ih]
  | _ => rfl

end Reading

theorem string?_congr {j k : Json} (h : j.Alike k) : j.string? = k.string? := by
  cases h <;> rfl

end Json

/-! ## Dumps that are read -/

open Json

namespace Setting

/-- A value is read as a setting if its three fields are as in the dump of the setting. -/
theorem ofJson?_eq_some {j : Json} {o : Setting} : ofJson? j = some o ↔
    ∃ fields, j = .object fields ∧ fields.lookup "name" = some (.string o.name) ∧
      fields.lookup "values" = some (.array (o.values.map .string)) ∧
      fields.lookup "type" = some (.string o.kind.keyword) := by
  obtain ⟨name, kind, values⟩ := o
  simp [ofJson?, Option.bind_eq_some_iff, object?_eq_some, required_eq_some, string?_eq_some,
    listOf?_string?, Kind.ofKeyword?_eq_some_iff]

theorem ofJson?_toJson (o : Setting) : ofJson? o.toJson = some o :=
  ofJson?_eq_some.mpr ⟨_, rfl, rfl, rfl, rfl⟩

theorem ofJson?_congr {j k : Json} (h : j.Alike k) : ofJson? j = ofJson? k := by
  cases h with
  | object h =>
    simp only [ofJson?, object?, Option.bind_eq_bind, Option.bind_some]
    rw [required_congr string?_congr (h "name"),
      required_congr (listOf?_congr string?_congr) (h "values"),
      required_congr (fun hkind => by rw [string?_congr hkind]) (h "type")]
  | _ => rfl

end Setting

namespace Section

theorem ofJson?_eq_some {j : Json} {s : Section} : ofJson? j = some s ↔
    ∃ fields, j = .object fields ∧ withDefault fields "name" "" string? = some s.name ∧
      fields.lookup "type" = some (.string s.type) ∧
      withDefault fields "options" [] (listOf? Setting.ofJson?) = some s.settings := by
  obtain ⟨type, name, settings⟩ := s
  simp [ofJson?, Option.bind_eq_some_iff, object?_eq_some, required_eq_some, string?_eq_some]

/-- The fields of the dump of a section. -/
theorem toJson_eq (s : Section) : ∃ fields, s.toJson = .object fields ∧
    ∀ name, fields.lookup name =
      if name = "name" then if s.name = "" then none else some (.string s.name)
      else if name = "type" then some (.string s.type)
      else if name = "options" then
        if s.settings = [] then none else some (.array (s.settings.map Setting.toJson))
      else none := by
  refine ⟨_, rfl, fun name => ?_⟩
  by_cases hname : s.name = "" <;> by_cases hnone : s.settings = []
  all_goals simp only [hname, hnone, if_true, if_false, List.nil_append, List.cons_append,
    List.append_nil, lookup_cons_eq_ite, List.lookup_nil]
  all_goals grind

theorem ofJson?_toJson (s : Section) : ofJson? s.toJson = some s := by
  obtain ⟨fields, hdump, hfields⟩ := s.toJson_eq
  have hsettings := listOf?_map Setting.ofJson?_toJson s.settings
  exact ofJson?_eq_some.mpr ⟨fields, hdump, withDefault_of_omitted .string (hfields "name") rfl,
    hfields "type",
    withDefault_of_omitted (fun settings => .array (settings.map Setting.toJson))
      (hfields "options") hsettings⟩

theorem ofJson?_congr {j k : Json} (h : j.Alike k) : ofJson? j = ofJson? k := by
  cases h with
  | object h =>
    simp only [ofJson?, object?, Option.bind_eq_bind, Option.bind_some]
    rw [withDefault_congr string?_congr (h "name"), required_congr string?_congr (h "type"),
      withDefault_congr (listOf?_congr Setting.ofJson?_congr) (h "options")]
  | _ => rfl

end Section

namespace Config

theorem ofJson?_eq_some {j : Json} {c : Config} : ofJson? j = some c ↔
    ∃ fields, j = .object fields ∧ fields.lookup "name" = some (.string c.name) ∧
      withDefault fields "sections" [] (listOf? Section.ofJson?) = some c.sections ∧
      c.tainted = false := by
  obtain ⟨name, sections, tainted⟩ := c
  simp [ofJson?, Option.bind_eq_some_iff, object?_eq_some, required_eq_some, string?_eq_some]

/-- The fields of the dump of a configuration. -/
theorem toJson_eq (c : Config) : ∃ fields, c.toJson = .object fields ∧
    ∀ name, fields.lookup name =
      if name = "name" then some (.string c.name)
      else if name = "sections" then
        if c.sections = [] then none else some (.array (c.sections.map Section.toJson))
      else none := by
  refine ⟨_, rfl, fun name => ?_⟩
  by_cases hnone : c.sections = []
  all_goals simp only [hnone, if_true, if_false, List.cons_append, List.nil_append,
    lookup_cons_eq_ite, List.lookup_nil]
  all_goals grind

theorem ofJson?_toJson (c : Config) : ofJson? c.toJson = some c.markClean := by
  obtain ⟨fields, hdump, hfields⟩ := c.toJson_eq
  have hsections := listOf?_map Section.ofJson?_toJson c.sections
  exact ofJson?_eq_some.mpr ⟨fields, hdump, hfields "name",
    withDefault_of_omitted (fun sections => .array (sections.map Section.toJson))
      (hfields "sections") hsections, rfl⟩

theorem ofJson?_congr {j k : Json} (h : j.Alike k) : ofJson? j = ofJson? k := by
  cases h with
  | object h =>
    simp only [ofJson?, object?, Option.bind_eq_bind, Option.bind_some]
    rw [required_congr string?_congr (h "name"),
      withDefault_congr (listOf?_congr Section.ofJson?_congr) (h "sections")]
  | _ => rfl

end Config

/-! ## Values without what a dump leaves out -/

namespace Json

/-- An empty text or an array without items. -/
def isVoid : Json → Bool
  | .string s => s == ""
  | .array items => items.isEmpty
  | _ => false

@[simp] theorem isVoid_string (s : String) : (string s).isVoid = (s == "") := rfl

@[simp] theorem isVoid_array (items : List Json) : (array items).isVoid = items.isEmpty := rfl

/-- An object without the fields that are not known, and without those that may be left out and are
empty. -/
def prune (needed optional : List String) : Json → Json
  | .object fields => .object <| fields.filter fun field =>
      field.1 ∈ needed ∨ field.1 ∈ optional ∧ (fields.lookup field.1).any (!·.isVoid)
  | j => j

/-- Changes the items of an array. -/
def mapItems (change : Json → Json) : Json → Json
  | .array items => .array (items.map change)
  | j => j

/-- Changes the items of an array that is the value of a field. -/
def mapItemsAt (name : String) (change : Json → Json) : Json → Json
  | .object fields => .object <| fields.map fun (other, j) =>
      (other, if other = name then j.mapItems change else j)
  | j => j

variable (fields : List (String × Json))

/-- All fields with a name are kept or none is. -/
theorem lookup_filter (p : String → Bool) (name : String) :
    (fields.filter fun field => p field.1).lookup name =
      if p name then fields.lookup name else none := by
  induction fields with
  | nil => simp
  | cons field fields ih =>
    obtain ⟨other, j⟩ := field
    by_cases hother : p other
    · rw [List.filter_cons, if_pos hother, lookup_cons_eq_ite, lookup_cons_eq_ite, ih]
      by_cases hname : name = other <;> simp [hname, hother]
    · rw [List.filter_cons, if_neg hother, lookup_cons_eq_ite, ih]
      by_cases hname : name = other <;> simp [hname, hother]

theorem prune_object (needed optional : List String) :
    ∃ kept, (object fields).prune needed optional = .object kept ∧ ∀ name, kept.lookup name =
      if name ∈ needed then fields.lookup name
      else if name ∈ optional then (fields.lookup name).filter (!·.isVoid)
      else none := by
  refine ⟨_, rfl, fun name => ?_⟩
  rw [lookup_filter fields (fun name =>
    name ∈ needed ∨ name ∈ optional ∧ (fields.lookup name).any (!·.isVoid))]
  by_cases hneeded : name ∈ needed
  · simp [hneeded]
  · cases fields.lookup name with
    | none => simp
    | some j => cases hvoid : j.isVoid <;> simp [hneeded, hvoid, Option.filter_some]

theorem mapItemsAt_object (name : String) (change : Json → Json) :
    ∃ changed, (object fields).mapItemsAt name change = .object changed ∧
      ∀ other, changed.lookup other =
        if other = name then (fields.lookup other).map (mapItems change)
        else fields.lookup other := by
  refine ⟨_, rfl, fun other => ?_⟩
  induction fields with
  | nil => simp
  | cons field fields ih =>
    obtain ⟨first, j⟩ := field
    rw [List.map_cons, lookup_cons_eq_ite, lookup_cons_eq_ite, ih]
    by_cases hfirst : other = first <;> by_cases hother : other = name
    all_goals simp_all

variable {fields}

/-- A name that is left out where it is empty. -/
theorem alike_omitted_string {name s : String} (h : withDefault fields name "" string? = some s) :
    Option.Rel Alike (if s = "" then none else some (.string s))
      ((fields.lookup name).filter (!·.isVoid)) := by
  rcases withDefault_eq_some.mp h with ⟨hnone, rfl⟩ | ⟨j, hj, hstring⟩
  · simp [hnone]
  · obtain rfl := string?_eq_some.mp hstring
    by_cases hs : s = ""
    · simp [hj, hs, Option.filter_some]
    · simpa [hj, hs, Option.filter_some] using Option.Rel.some (Alike.string s)

/-- A list that is left out where it is empty. -/
theorem alike_omitted_array {α : Type} [DecidableEq α] {name : String} {read : Json → Option α}
    {write : α → Json} {change : Json → Json} {xs : List α}
    (h : withDefault fields name [] (listOf? read) = some xs)
    (hitem : ∀ {j x}, read j = some x → (write x).Alike (change j)) :
    Option.Rel Alike (if xs = [] then none else some (.array (xs.map write)))
      (((fields.lookup name).filter (!·.isVoid)).map (mapItems change)) := by
  rcases withDefault_eq_some.mp h with ⟨hnone, rfl⟩ | ⟨j, hj, hlist⟩
  · simp [hnone]
  · obtain ⟨items, rfl, hitems⟩ := listOf?_eq_some.mp hlist
    have halike : List.Forall₂ Alike (xs.map write) (items.map change) := by
      rw [List.forall₂_map_left_iff, List.forall₂_map_right_iff]
      exact hitems.flip.imp fun _ _ => hitem
    cases hitems with
    | nil => simp [hj, Option.filter_some]
    | cons => simpa [hj, Option.filter_some, mapItems] using Option.Rel.some (Alike.array halike)

end Json

/-- The dump of a setting, without unknown fields. -/
def Setting.pruned (j : Json) : Json :=
  j.prune ["name", "values", "type"] []

/-- The dump of a section, without unknown fields and empty ones that may be left out. -/
def Section.pruned (j : Json) : Json :=
  (j.prune ["type"] ["name", "options"]).mapItemsAt "options" Setting.pruned

/-- The dump of a configuration, without unknown fields and empty ones that may be left out. -/
def Config.pruned (j : Json) : Json :=
  (j.prune ["name"] ["sections"]).mapItemsAt "sections" Section.pruned

variable {j : Json}

/-- A setting is dumped as it was read. -/
theorem Setting.alike_pruned {o : Setting} (h : ofJson? j = some o) :
    o.toJson.Alike (Setting.pruned j) := by
  obtain ⟨fields, rfl, hname, hvalues, htype⟩ := ofJson?_eq_some.mp h
  obtain ⟨kept, hkept, hlookup⟩ := prune_object fields ["name", "values", "type"] []
  rw [Setting.pruned, hkept, toJson]
  refine .object fun key => ?_
  rw [hlookup]
  simp only [lookup_cons_eq_ite, List.mem_cons]
  by_cases hn : key = "name"
  · simp [hn, hname, Alike.refl]
  by_cases hv : key = "values"
  · simp [hv, hvalues, Alike.refl]
  by_cases ht : key = "type"
  · simp [ht, htype, Alike.refl]
  simp [hn, hv, ht]

/-- A section is dumped as it was read, but for an empty name and an empty list of settings. -/
theorem Section.alike_pruned {s : Section} (h : ofJson? j = some s) :
    s.toJson.Alike (Section.pruned j) := by
  obtain ⟨fields, rfl, hname, htype, hsettings⟩ := ofJson?_eq_some.mp h
  obtain ⟨dump, hdump, hfields⟩ := s.toJson_eq
  obtain ⟨kept, hkept, hkept_lookup⟩ := prune_object fields ["type"] ["name", "options"]
  obtain ⟨changed, hchanged, hlookup⟩ := mapItemsAt_object kept "options" Setting.pruned
  rw [Section.pruned, hdump, hkept, hchanged]
  refine .object fun key => ?_
  rw [hfields, hlookup, hkept_lookup]
  by_cases hn : key = "name"
  · simpa [hn] using alike_omitted_string hname
  by_cases ht : key = "type"
  · simp [ht, htype, Alike.refl]
  by_cases ho : key = "options"
  · simpa [ho] using alike_omitted_array hsettings Setting.alike_pruned
  simp [hn, ht, ho]

/-- A configuration is dumped as it was read, but for an empty list of sections. -/
theorem Config.alike_pruned {c : Config} (h : ofJson? j = some c) :
    c.toJson.Alike (Config.pruned j) := by
  obtain ⟨fields, rfl, hname, hsections, -⟩ := ofJson?_eq_some.mp h
  obtain ⟨dump, hdump, hfields⟩ := c.toJson_eq
  obtain ⟨kept, hkept, hkept_lookup⟩ := prune_object fields ["name"] ["sections"]
  obtain ⟨changed, hchanged, hlookup⟩ := mapItemsAt_object kept "sections" Section.pruned
  rw [Config.pruned, hdump, hkept, hchanged]
  refine .object fun key => ?_
  rw [hfields, hlookup, hkept_lookup]
  by_cases hn : key = "name"
  · simp [hn, hname, Alike.refl]
  by_cases hs : key = "sections"
  · simpa [hs] using alike_omitted_array hsections Section.alike_pruned
  simp [hn, hs]

/-! ## What a dump tells -/

theorem Setting.isTextual_toJson (o : Setting) : o.toJson.IsTextual := by
  refine .object fun field hfield => ?_
  simp only [List.mem_cons, List.not_mem_nil, or_false] at hfield
  rcases hfield with rfl | rfl | rfl
  · exact .string _
  · refine .array fun item hitem => ?_
    obtain ⟨value, -, rfl⟩ := List.mem_map.mp hitem
    exact .string value
  · exact .string _

theorem Section.isTextual_toJson (s : Section) : s.toJson.IsTextual := by
  refine .object fun field hfield => ?_
  simp only [List.mem_append, List.mem_ite_nil_left, List.mem_singleton] at hfield
  rcases hfield with (⟨-, rfl⟩ | rfl) | ⟨-, rfl⟩
  · exact .string _
  · exact .string _
  · refine .array fun item hitem => ?_
    obtain ⟨o, -, rfl⟩ := List.mem_map.mp hitem
    exact o.isTextual_toJson

theorem Config.isTextual_toJson (c : Config) : c.toJson.IsTextual := by
  refine .object fun field hfield => ?_
  simp only [List.mem_append, List.mem_ite_nil_left, List.mem_singleton] at hfield
  rcases hfield with rfl | ⟨-, rfl⟩
  · exact .string _
  · refine .array fun item hitem => ?_
    obtain ⟨s, -, rfl⟩ := List.mem_map.mp hitem
    exact s.isTextual_toJson

/-- Dumps with the same fields are dumps of the same name and the same sections. -/
theorem Config.alike_toJson_iff {c d : Config} :
    c.toJson.Alike d.toJson ↔ c.name = d.name ∧ c.sections = d.sections := by
  refine ⟨fun h => ?_, fun ⟨hname, hsections⟩ => ?_⟩
  · have hread := ofJson?_congr h
    rw [ofJson?_toJson, ofJson?_toJson] at hread
    simpa [markClean] using hread
  · have hdump : c.toJson = d.toJson := by rw [toJson, toJson, hname, hsections]
    exact hdump ▸ .refl _

/-- The text of a dump tells as much. -/
theorem Config.render_toJson_iff {layout : Layout} (hlayout : layout.IsBlank) {c d : Config} :
    c.toJson.render layout = d.toJson.render layout ↔
      c.name = d.name ∧ c.sections = d.sections := by
  rw [render_inj hlayout c.isTextual_toJson d.isTextual_toJson]
  refine ⟨fun h => alike_toJson_iff.mp (h ▸ .refl _), fun ⟨hname, hsections⟩ => ?_⟩
  rw [toJson, toJson, hname, hsections]

/-- A dump loses nothing: it is read back to the name and the sections that it was made of, not
tainted, so dumps of other names or sections are other values and other texts. And whatever can be
read is dumped as it was, up to the order of the fields, without unknown fields, and without names
and lists that may be left out and are empty. -/
theorem Config.toJson_faithful :
    (∀ c : Config,
      ofJson? c.toJson = some { name := c.name, sections := c.sections, tainted := false }) ∧
    (∀ c d : Config, c.toJson.Alike d.toJson ↔ c.name = d.name ∧ c.sections = d.sections) ∧
    (∀ layout ∈ [Layout.compact, Layout.pretty], ∀ c d : Config,
      c.toJson.render layout = d.toJson.render layout ↔
        c.name = d.name ∧ c.sections = d.sections) ∧
    ∀ (j : Json) (c : Config), ofJson? j = some c → c.toJson.Alike (pruned j) := by
  refine ⟨ofJson?_toJson, fun _ _ => alike_toJson_iff, fun layout hlayout c d => ?_,
    fun _ _ => alike_pruned⟩
  have hblank : layout.IsBlank := by
    simp only [List.mem_cons, List.not_mem_nil, or_false] at hlayout
    rcases hlayout with rfl | rfl
    · exact Layout.isBlank_compact
    · exact Layout.isBlank_pretty
  exact render_toJson_iff hblank

/-- The name comes last, some fields are unknown, and there are empty names and lists at all
levels. Only those that may be left out are dropped, with the unknown fields. -/
theorem Config.toJson_faithful_unordered :
    let setting : Json := .object [("type", .string "list"), ("values", .array []),
      ("name", .string "")]
    let sections : List Json := [
      .object [("options", .array [setting]), ("name", .string ""), ("type", .string "")],
      .object [("name", .string "lan"), ("options", .array []), ("type", .string "interface"),
        ("index", .number "1")]]
    let kept : List Json := [
      .object [("options", .array [setting]), ("type", .string "")],
      .object [("name", .string "lan"), ("type", .string "interface")]]
    let j : Json := .object [("tainted", .bool true), ("sections", .array sections),
      ("name", .string "")]
    let c : Config := {
      name := ""
      sections := [
        { type := "", name := "", settings := [{ name := "", kind := .list, values := [] }] },
        { type := "interface", name := "lan", settings := [] }] }
    ofJson? j = some c ∧
      c.toJson.Alike (.object [("sections", .array kept), ("name", .string "")]) ∧
      c.toJson.render .pretty ≠ (toJson { c with name := "network" }).render .pretty := by
  intro setting sections kept j c
  have hread : ofJson? j = some c := by rfl
  refine ⟨hread, toJson_faithful.2.2.2 j c hread, fun htext => ?_⟩
  have hsame := (toJson_faithful.2.2.1 .pretty (by simp) c { c with name := "network" }).mp htext
  exact absurd hsame.1 (by decide)

end UnifiedConfig
