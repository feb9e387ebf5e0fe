import UnifiedConfig.Proofs.Changes
import UnifiedConfig.Proofs.Commits
import UnifiedConfig.Proofs.Words

/-!
# What a request does

Most requests are about one configuration. Such a request opens the configuration, which is loaded
already, or is read from its file, or begins empty; and then it acts on it. If the action is in
error, the configuration stays loaded and nothing else has happened.

* `opens_eq_ok`: where an opened configuration comes from.
* `step_eq_actOn`: what such a request does to a session.
* `act_edits`: an action changes a section, appends one, deletes one, or does nothing.
* `act_marks`: an action that changes a configuration marks it tainted.
-/

namespace UnifiedConfig

/-! ## Loaded configurations -/

namespace Loaded

theorem find?_of_mem {l : Loaded} (h : l.Sorted) {name : String} {c : Config}
    (hmem : (name, c) ∈ l) : l.find? name = some c := by
  induction l with
  | nil => cases hmem
  | cons p rest ih =>
    rcases p with ⟨other, d⟩
    rcases List.pairwise_cons.1 h with ⟨hhead, htail⟩
    rcases List.mem_cons.1 hmem with heq | hmem
    · cases heq
      simp [find?]
    · have hlt : other < name := hhead _ hmem
      have hne : (name == other) = false := by simpa using (String.ne_of_lt hlt).symm
      have ih := ih htail hmem
      rw [find?] at ih ⊢
      rw [List.lookup_cons, hne]
      exact ih

/-- What is loaded already can be put again. -/
theorem put_of_find? {l : Loaded} (h : l.Sorted) {name : String} {c : Config}
    (hc : l.find? name = some c) : l.put name c = l := by
  induction l with
  | nil => cases hc
  | cons p rest ih =>
    rcases p with ⟨other, d⟩
    rcases List.pairwise_cons.1 h with ⟨hhead, htail⟩
    by_cases heq : name = other
    · subst heq
      simp [find?] at hc
      simp [put, hc]
    · have hne : (name == other) = false := by simpa using heq
      have hrest : find? rest name = some c := by
        rw [find?, List.lookup_cons, hne] at hc
        exact hc
      -- The name is found further on, so it is a greater one.
      have hlt : other < name := hhead _ (mem_of_find? hrest)
      have hnot : ¬ name < other := fun hgt => String.lt_irrefl _ (String.lt_trans hlt hgt)
      rw [put, if_neg heq, if_neg hnot, ih htail hrest]

end Loaded

/-! ## Reading a file -/

namespace Config

theorem Reader.readLines_ne_notFound {r : Reader} {number : Nat} {lines : List (List Char)}
    {missing : Missing} : r.readLines number lines ≠ .error (.notFound missing) := by
  induction lines generalizing r number with
  | nil => simp [readLines]
  | cons line rest ih =>
    unfold readLines
    split
    · simp
    · exact ih

/-- What is wrong with a text is never that something is missing. -/
theorem parse_ne_notFound {name text : String} {missing : Missing} :
    parse name text ≠ .error (.notFound missing) := by
  unfold parse
  intro h
  cases hread : Reader.readLines { config := { name } } 1 (Text.lines text.toList) with
  | error e =>
    rw [hread] at h
    cases h
    exact Reader.readLines_ne_notFound hread
  | ok r =>
    rw [hread] at h
    cases h

/-- What is read is not tainted. -/
theorem tainted_of_parse {name text : String} {c : Config} (h : parse name text = .ok c) :
    c.tainted = false := by
  rw [parse, map_eq_ok_iff] at h
  rcases h with ⟨r, -, rfl⟩
  rfl

end Config

namespace Store

theorem readConfig_eq_ok_iff {d : Disk} {path : Path} {name : String} {c : Config} :
    readConfig d path name = .ok c ↔
      ∃ text, d.readText path = .ok text ∧ Config.parse name text = .ok c := by
  unfold readConfig
  split
  · next h => simp [h]
  · next h => simp [h]
  · next h => simp [h]

/-- Nothing but the file of a configuration can be missing. -/
theorem node?_of_readConfig_notFound {d : Disk} {path : Path} {name : String} {missing : Missing}
    (h : readConfig d path name = .error (.notFound missing)) : d.node? path = none := by
  unfold readConfig at h
  split at h
  · next hmissing => exact Disk.node?_of_readText_missing hmissing
  · cases h
  · exact absurd h Config.parse_ne_notFound

/-! ## Opening a configuration -/

theorem openWith_eq_ok {s s' : Store} {name : String} {read : Path → Except Error Config}
    {c : Config} (h : s.openWith name read = .ok (c, s')) :
    isConfigName name = true ∧
      ((s.loaded.find? name = some c ∧ s' = s) ∨
        (s.loaded.find? name = none ∧ read (s.dir.join name) = .ok c ∧
          s' = { s with loaded := s.loaded.put name c })) := by
  unfold openWith configPath at h
  split at h
  · cases h
  · next path hpath =>
    split at hpath
    · next hname =>
      cases hpath
      refine ⟨hname, ?_⟩
      split at h
      · next hfound =>
        cases h
        exact .inl ⟨hfound, rfl⟩
      · next hfound =>
        split at h
        · cases h
        · next hread =>
          cases h
          exact .inr ⟨hfound, hread, rfl⟩
    · cases hpath

/-- Whether a configuration is what its file says, or is empty and its file is missing. -/
def IsFirst (d : Disk) (path : Path) (name : String) (c : Config) : Prop :=
  readConfig d path name = .ok c ∨
    (c = { name } ∧ ∃ missing, readConfig d path name = .error (.notFound missing))

/-- How a store comes to have a configuration open: it was loaded already, or it is loaded now. -/
def HasOpened (s : Store) (d : Disk) (name : String) (c : Config) (s' : Store) : Prop :=
  isConfigName name = true ∧
    ((s.loaded.find? name = some c ∧ s' = s) ∨
      (s.loaded.find? name = none ∧ IsFirst d (s.dir.join name) name c ∧
        s' = { s with loaded := s.loaded.put name c }))

theorem load_eq_ok {s s' : Store} {d : Disk} {name : String} {c : Config}
    (h : s.load d name = .ok (c, s')) : s.HasOpened d name c s' := by
  rcases openWith_eq_ok h with ⟨hname, hloaded | ⟨hnew, hread, hs'⟩⟩
  · exact ⟨hname, .inl hloaded⟩
  · exact ⟨hname, .inr ⟨hnew, .inl hread, hs'⟩⟩

theorem ensure_eq_ok {s s' : Store} {d : Disk} {name : String} {c : Config}
    (h : s.ensure d name = .ok (c, s')) : s.HasOpened d name c s' := by
  rcases openWith_eq_ok h with ⟨hname, hloaded | ⟨hnew, hread, hs'⟩⟩
  · exact ⟨hname, .inl hloaded⟩
  · refine ⟨hname, .inr ⟨hnew, ?_, hs'⟩⟩
    split at hread
    · next missing hmissing =>
      cases hread
      exact .inr ⟨rfl, missing, hmissing⟩
    · exact .inl hread

/-- What is opened is loaded. -/
theorem HasOpened.find? {s s' : Store} {d : Disk} {name : String} {c : Config}
    (h : s.HasOpened d name c s') : s'.loaded.find? name = some c := by
  rcases h with ⟨-, ⟨hfound, rfl⟩ | ⟨-, -, rfl⟩⟩
  · exact hfound
  · exact Loaded.find?_put_self s.loaded name c

theorem HasOpened.sorted {s s' : Store} {d : Disk} {name : String} {c : Config}
    (h : s.HasOpened d name c s') (hs : s.loaded.Sorted) : s'.loaded.Sorted := by
  rcases h with ⟨-, ⟨-, rfl⟩ | ⟨-, -, rfl⟩⟩
  · exact hs
  · exact Loaded.sorted_put hs name c

theorem HasOpened.dir {s s' : Store} {d : Disk} {name : String} {c : Config}
    (h : s.HasOpened d name c s') : s'.dir = s.dir := by
  rcases h with ⟨-, ⟨-, rfl⟩ | ⟨-, -, rfl⟩⟩ <;> rfl

end Store

namespace Request

/-- The configuration that a request is about, if it is about one. -/
def config? : Request → Option String
  | .load config | .ensure config | .get config _ _ | .getLast config _ _ | .getBool config _ _
  | .set config _ _ _ _ | .addToList config _ _ _ | .addSection config _ _
  | .deleteSection config _ | .deleteSetting config _ _ | .revert config => some config
  | .names | .commit | .reopen _ => none

/-- The configuration that a request opens, unless it is about none or about forgetting one. -/
def opens (s : Store) (d : Disk) : Request → Option Store.Opened
  | .load config | .get config _ _ | .getLast config _ _ | .getBool config _ _
  | .set config _ _ _ _ | .addToList config _ _ _ | .deleteSection config _
  | .deleteSetting config _ _ => some (s.load d config)
  | .ensure config => some (s.ensure d config)
  | .addSection config type _ =>
    some (if type = "" then .error (.refused .emptyType) else s.ensure d config)
  | .names | .commit | .revert _ | .reopen _ => none

/-- What a request makes of the configuration that it opens: an answer, and the configuration after
it. -/
def act (c : Config) : Request → Except Error (Answer × Config)
  | .load _ | .ensure _ => .ok (.text c.name, c)
  | .get _ selector setting =>
    ((c.values? selector setting).mapError .selector).map fun a => (.texts? a, c)
  | .getLast _ selector setting =>
    ((c.lastValue? selector setting).mapError .selector).map fun a => (.text? a, c)
  | .getBool _ selector setting =>
    (((c.lastValue? selector setting).map (·.map Store.isTrue)).mapError .selector).map
      fun a => (.flag? a, c)
  | .set _ selector setting kind values =>
    (c.setValues selector setting kind values).map fun (_, c) => (.done, c)
  | .addToList _ selector setting value =>
    (c.addToList selector setting value).map fun (_, c) => (.done, c)
  | .addSection _ type name => (c.addSection type name).map fun (a, c) => (.text a, c)
  | .deleteSection _ selector => .ok (.flag (c.delete selector).1, (c.delete selector).2)
  | .deleteSetting _ selector setting =>
    (c.deleteSetting selector setting).map fun (a, c) => (.flag a, c)
  | .names | .commit | .revert _ | .reopen _ => .ok (.done, c)

/-- A request opens the configuration that it is about, or is one of four that open none. -/
theorem opens_cases (r : Request) (s : Store) (d : Disk) :
    (∃ name opened, r.config? = some name ∧ r.opens s d = some opened) ∨ r = .names ∨
      r = .commit ∨ (∃ name, r = .revert name) ∨ ∃ dir, r = .reopen dir := by
  cases r <;> simp [config?, opens]

/-- A configuration that is opened was loaded already, or is read from its file, or begins empty. -/
theorem opens_eq_ok {r : Request} {s s' : Store} {d : Disk} {c : Config} {name : String}
    (hname : r.config? = some name) (h : r.opens s d = some (.ok (c, s'))) :
    s.HasOpened d name c s' := by
  have hload : ∀ {name}, s.load d name = .ok (c, s') → s.HasOpened d name c s' :=
    fun h => Store.load_eq_ok h
  have hensure : ∀ {name}, s.ensure d name = .ok (c, s') → s.HasOpened d name c s' :=
    fun h => Store.ensure_eq_ok h
  cases r <;> simp only [config?, opens, Option.some.injEq, reduceCtorEq] at hname h
  case addSection config type n =>
    subst hname
    split at h
    · cases h
    · exact hensure h
  case ensure config => exact hname ▸ hensure h
  all_goals exact hname ▸ hload h

end Request

/-! ## Stores -/

/-- Whether what a store has loaded is in order, each name once, and has some property. -/
structure Store.Holds (s : Store) (P : String → Config → Prop) : Prop where
  sorted : s.loaded.Sorted
  entries : ∀ name c, (name, c) ∈ s.loaded → P name c

namespace Store

variable {s s' : Store} {P : String → Config → Prop} {name : String} {c : Config}

theorem holds_empty (dir : Path) (P : String → Config → Prop) : ({ dir } : Store).Holds P :=
  ⟨List.Pairwise.nil, by simp⟩

theorem Holds.put (hs : s.Holds P) (hc : P name c) :
    ({ s with loaded := s.loaded.put name c } : Store).Holds P where
  sorted := Loaded.sorted_put hs.sorted name c
  entries other e he := by
    rcases Loaded.mem_put hs.sorted he with heq | ⟨he, -⟩
    · cases heq
      exact hc
    · exact hs.entries other e he

theorem Holds.revert (hs : s.Holds P) (name : String) : (s.revert name).2.Holds P where
  sorted := hs.sorted.filter _
  entries other e he := hs.entries other e (List.mem_filter.1 he).1

/-- What holds of all that is loaded holds of it after a commit, if the mark does not matter. -/
theorem Holds.commit {d : Disk} {j : Journal} {outcome : Except Error Unit} (hs : s.Holds P)
    (hclean : ∀ name c, P name c → P name c.markClean) (h : s.commit d = (outcome, s', j)) :
    s'.Holds P := by
  rcases commitAll_split (commitAll_of_commit h).1 with ⟨done, pending, hl, hl'⟩
  refine ⟨Loaded.sorted_congr (by simp [hl, hl', Loaded.markClean]) hs.sorted, ?_⟩
  intro name c' hc'
  rw [hl', List.mem_append] at hc'
  rcases hc' with hdone | hpending
  · rcases List.mem_map.1 hdone with ⟨⟨other, c⟩, hc, heq⟩
    cases heq
    exact hclean other c (hs.entries other c (by simp [hl, hc]))
  · exact hs.entries name c' (by simp [hl, hpending])

/-- What is opened has the property if what is loaded first has it. -/
theorem HasOpened.holds {d : Disk} (h : s.HasOpened d name c s') (hs : s.Holds P)
    (hfirst : isConfigName name = true → IsFirst d (s.dir.join name) name c → P name c) :
    s'.Holds P ∧ P name c := by
  rcases h with ⟨hname, ⟨hfound, rfl⟩ | ⟨-, hnew, rfl⟩⟩
  · exact ⟨hs, hs.entries name c (Loaded.mem_of_find? hfound)⟩
  · have hc := hfirst hname hnew
    exact ⟨hs.put hc, hc⟩

end Store

/-! ## Steps -/

namespace Session

/-- A session on the default directory, with one file in it. -/
def ofFile (name text : String) : Session where
  store := { dir := Store.defaultDir }
  disk := .directory
    [("etc", .directory [("config", .directory [(name, .file (.text text))])])]

/-- What a request about a configuration does, once the configuration is opened: an action that is
in error leaves it loaded as it is. -/
def actOn (w : Session) (r : Request) (name : String) :
    Store.Opened → Except Error Answer × Session
  | .error e => (.error e, w)
  | .ok (c, s) =>
    match r.act c with
    | .error e => (.error e, { w with store := s })
    | .ok (a, c') => (.ok a, { w with store := { s with loaded := s.loaded.put name c' } })

section Actions

variable {α : Type} {w : Session} {r : Request} {name : String} {opened : Store.Opened}
  {answer : α → Answer}

/-- An action that asks leaves the configuration as it is. -/
theorem keepDisk_query {ask : Config → Except Error α}
    (hloaded : ∀ c s, opened = .ok (c, s) → s.loaded.put name c = s.loaded)
    (hact : ∀ c, r.act c = (ask c).map fun a => (answer a, c)) :
    keepDisk w.disk answer (w.store.query opened ask) = w.actOn r name opened := by
  rcases opened with e | ⟨c, s⟩
  · rfl
  · unfold Store.query actOn keepDisk
    simp only [hact]
    cases ask c with
    | error e => rfl
    | ok a => simp [Except.map, hloaded c s rfl]

/-- An action that changes the configuration. -/
theorem keepDisk_edit {change : Config → Except Error (α × Config)}
    (hact : ∀ c, r.act c = (change c).map fun p => (answer p.1, p.2)) :
    keepDisk w.disk answer (w.store.edit opened name change) = w.actOn r name opened := by
  rcases opened with e | ⟨c, s⟩
  · rfl
  · unfold Store.edit actOn keepDisk
    simp only [hact]
    cases change c with
    | error e => rfl
    | ok p => rfl

end Actions

/-- A request that opens a configuration acts on it, and does nothing else. -/
theorem step_eq_actOn {w : Session} (hsorted : w.store.loaded.Sorted) {r : Request} {name : String}
    {opened : Store.Opened} (hname : r.config? = some name)
    (hopens : r.opens w.store w.disk = some opened) : w.step r = w.actOn r name opened := by
  have hloaded : ∀ c s, opened = .ok (c, s) → s.loaded.put name c = s.loaded := by
    intro c s hopened
    have h := Request.opens_eq_ok hname (hopened ▸ hopens)
    exact Loaded.put_of_find? (h.sorted hsorted) h.find?
  cases r with
  | names | commit | revert | reopen => cases hopens
  | load | ensure | get | getLast | getBool =>
    cases hname
    cases hopens
    exact keepDisk_query hloaded fun _ => rfl
  | set | addToList | deleteSection | deleteSetting =>
    cases hname
    cases hopens
    exact keepDisk_edit fun _ => rfl
  | addSection config type n =>
    cases hname
    cases hopens
    by_cases htype : type = ""
    · simp [step, Store.addSection, htype, keepDisk, actOn, Except.map]
    · simp only [step, Store.addSection, if_neg htype]
      exact keepDisk_edit fun _ => rfl

/-- What a store has loaded keeps a property if what is loaded first has it, and the action of the
request keeps it. -/
theorem step_holds {w : Session} {P : String → Config → Prop} (hw : w.store.Holds P) {r : Request}
    {name : String} {opened : Store.Opened} (hname : r.config? = some name)
    (hopens : r.opens w.store w.disk = some opened)
    (hfirst : ∀ c, Store.isConfigName name = true →
      Store.IsFirst w.disk (w.store.dir.join name) name c → P name c)
    (hact : ∀ c a c', P name c → r.act c = .ok (a, c') → P name c') :
    (w.step r).2.store.Holds P ∧ (w.step r).2.store.dir = w.store.dir := by
  rw [step_eq_actOn hw.sorted hname hopens]
  unfold actOn
  split
  · exact ⟨hw, rfl⟩
  · next c s =>
    have hopened := Request.opens_eq_ok hname hopens
    rcases hopened.holds hw (hfirst c) with ⟨hs, hc⟩
    split
    · exact ⟨hs, hopened.dir⟩
    · next a c' hok => exact ⟨hs.put (hact c a c' hc hok), hopened.dir⟩

/-- Only a commit changes the disk. -/
theorem step_disk {w : Session} {r : Request} (h : r ≠ .commit) : (w.step r).2.disk = w.disk := by
  cases r <;> first | rfl | exact absurd rfl h

theorem step_disk_of_config? {w : Session} {r : Request} {name : String}
    (h : r.config? = some name) : (w.step r).2.disk = w.disk := by
  apply step_disk
  rintro rfl
  cases h

end Session

/-! ## What an action does -/

/-- How a request changes the section that it picks, if it changes one. -/
def Request.change? : Request → Option (Section → Section)
  | .set _ _ setting kind values => some (·.set setting kind values)
  | .addToList _ _ setting value => some (·.addToList setting value)
  | .deleteSetting _ _ setting => some (·.erase setting)
  | _ => none

/-- What a request can make of a configuration: the same one, or one with a section that is changed,
appended or deleted. -/
inductive Request.Edits (c : Config) : Request → Config → Prop where
  | same (r : Request) : Edits c r c
  | changed {r : Request} {change : Section → Section} (h : r.change? = some change) (i : Nat) :
      Edits c r (c.changeAt i change).taint
  | unnamed (config type : String) : Edits c (.addSection config type none) (c.push { type })
  | named (config type : String) {name : String} (h : c.findNamed? name = none) :
      Edits c (.addSection config type (some name)) (c.push { type, name })
  | deleted (config selector : String) (i : Nat) :
      Edits c (.deleteSection config selector)
        { c with sections := c.sections.eraseIdx i, tainted := true }

namespace Request

/-- An action changes one section, appends one or deletes one, if it does anything. -/
theorem act_edits {r : Request} {c c' : Config} {a : Answer} (h : r.act c = .ok (a, c')) :
    r.Edits c c' := by
  have hchanged : ∀ {change : Section → Section}, r.change? = some change →
      c.Edited change c' → r.Edits c c' := by
    rintro change hchange (rfl | ⟨i, rfl⟩)
    · exact .same r
    · exact .changed hchange i
  cases r with
  | load | ensure | names | commit | revert | reopen =>
    cases h
    exact .same _
  | get | getLast | getBool =>
    rcases map_eq_ok_iff.1 h with ⟨b, -, heq⟩
    cases heq
    exact .same _
  | set | addToList =>
    rcases map_eq_ok_iff.1 h with ⟨⟨b, e⟩, hok, heq⟩
    cases heq
    exact hchanged rfl (Config.editSection_eq_ok hok)
  | deleteSetting =>
    rcases map_eq_ok_iff.1 h with ⟨⟨b, e⟩, hok, heq⟩
    cases heq
    exact hchanged rfl (Config.deleteSetting_eq_ok hok)
  | addSection config type name =>
    rcases map_eq_ok_iff.1 h with ⟨⟨b, e⟩, hok, heq⟩
    cases heq
    cases name with
    | none =>
      cases hok
      exact .unnamed config type
    | some name =>
      rcases Config.addSection_named_cases hok with ⟨-, -, -, ⟨s, -, -, rfl⟩ | ⟨hnone, rfl⟩⟩
      · exact .same _
      · exact .named config type hnone
  | deleteSection config selector =>
    cases h
    rcases Config.delete_cases c selector with hsame | ⟨i, heq⟩
    · rw [hsame]
      exact .same _
    · rw [heq]
      exact .deleted config selector i

end Request

/-! ## What is changed is tainted -/

/-- What a change comes to: the configuration is tainted, or it is what it was. -/
def Config.Marks (c c' : Config) : Prop :=
  c'.tainted = true ∨ c' = c

theorem Config.Edited.marks {c c' : Config} {change : Section → Section}
    (h : c.Edited change c') : c.Marks c' := by
  rcases h with rfl | ⟨i, rfl⟩
  · exact .inr rfl
  · exact .inl rfl

theorem Config.delete_marks (c : Config) (selector : String) :
    c.Marks (c.delete selector).2 := by
  rcases c.delete_cases selector with hsame | ⟨i, heq⟩
  · exact .inr hsame
  · exact .inl (by rw [heq])

/-- What a request makes of a configuration is tainted unless it is as it was. -/
theorem Request.act_marks {r : Request} {c c' : Config} {a : Answer}
    (h : r.act c = .ok (a, c')) : c.Marks c' := by
  cases act_edits h with
  | same => exact .inr rfl
  | _ => exact .inl rfl

end UnifiedConfig
