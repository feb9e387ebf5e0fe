import UnifiedConfig.Disk.Lemmas
import UnifiedConfig.Proofs.Paths

/-!
# Places on a disk

The steps of a path tell the place that it leads to, whatever stands on the disk; the disk decides
only whether it can be followed. A path that goes up out of a directory that is missing cannot be
followed at first, but leads to whatever is at its place once the directory is made. So a path is to
go up only where there are directories already (`Disk.GoesUpInside`), be the directories after that
there or not. What stands at a file of its directory is then what the entry of the directory is, and
stays so while the entry does and no directory is taken away (`Disk.KeepsBut`).

* `perform_eq_ok`: what each change of a disk does.
* `locateFrom_eq_placeFrom`: steps that can be followed lead to their place.
* `GoesUpInside.place_prefix`: what is missing on the way of a path is on the way to its place.
* `keepsBut_put`: a change of an entry concerns this entry alone.
* `node?_join`: what stands at a file of a directory is a matter of the entry.
-/

namespace UnifiedConfig

open UnifiedConfig.Path

/-! ## Places in a tree -/

namespace Node

theorem find?_append (n : Node) (p q : Location) :
    n.find? (p ++ q) = (n.find? p).bind (·.find? q) := by
  induction p generalizing n with
  | nil => rfl
  | cons a p ih =>
    cases n with
    | file content => rfl
    | directory entries =>
      simp only [List.cons_append, find?, ih]
      cases entries.lookup a <;> rfl

/-- An entry is not concerned by what is put under another name. -/
theorem find?_put_of_ne (new : Option Node) (n : Node) (parent : Location) {name other : String}
    (h : other ≠ name) :
    (n.put new (parent ++ [name])).find? (parent ++ [other]) = n.find? (parent ++ [other]) := by
  induction parent generalizing n with
  | nil =>
    cases n with
    | file content => rfl
    | directory entries => simp [put, find?, lookup_putEntry_of_ne h]
  | cons a parent ih =>
    cases n with
    | file content => cases parent <;> rfl
    | directory entries =>
      cases hrest : parent ++ [name] with
      | nil => simp at hrest
      | cons b rest =>
        rw [List.cons_append, List.cons_append, hrest]
        cases hchild : entries.lookup a with
        | none => simp [put, hchild]
        | some child =>
          have ih := ih child
          rw [hrest] at ih
          simp [put, find?, lookup_putEntry_self, hchild, ih]

/-- Nothing is in a directory that has just been made. -/
theorem find?_put_directory {n : Node} {place : Location} (h : n.find? place = none)
    (name : String) (rest : Location) :
    (n.put (some (.directory [])) place).find? (place ++ name :: rest) = none := by
  induction place generalizing n with
  | nil => cases h
  | cons a place ih =>
    cases n with
    | file content => cases place <;> rfl
    | directory entries =>
      cases place with
      | nil => simp [put, find?, lookup_putEntry_self]
      | cons b place =>
        rw [List.cons_append]
        cases hchild : entries.lookup a with
        | none => simp [put, find?, hchild]
        | some child =>
          simp only [find?, hchild, Option.bind_some] at h
          simpa [put, find?, hchild, lookup_putEntry_self] using ih h

/-- Whether a directory is at a place. -/
def IsDirectory (n : Node) (place : Location) : Prop :=
  ∃ entries, n.find? place = some (.directory entries)

theorem isDirectory_of_append {n : Node} {p q : Location} (h : n.IsDirectory (p ++ q)) :
    n.IsDirectory p := by
  obtain ⟨entries, h⟩ := h
  rw [find?_append, Option.bind_eq_some_iff] at h
  obtain ⟨m, hm, hq⟩ := h
  cases m with
  | directory es => exact ⟨es, hm⟩
  | file content => cases q <;> simp [find?] at hq

/-- What is put where no directory is takes no directory away. -/
theorem isDirectory_put {n : Node} {place other : Location} (new : Option Node)
    (hplace : ¬ n.IsDirectory place) (h : n.IsDirectory other) :
    (n.put new place).IsDirectory other := by
  -- Nothing above a directory is replaced, as it is a directory too.
  have hstart : ¬ place <+: other := by
    rintro ⟨rest, rfl⟩
    exact hplace (isDirectory_of_append h)
  obtain ⟨entries, hentries⟩ := h
  have hentry := entry_find?_put new n hstart
  rw [hentries] at hentry
  cases hfind : (n.put new place).find? other with
  | none => simp [hfind] at hentry
  | some m =>
    cases m with
    | directory es => exact ⟨es, hfind⟩
    | file content => simp [hfind, entry] at hentry

end Node

/-! ## Changes -/

namespace Disk

open Node

/-- What a change has done. -/
def Done (d : Disk) : Change → Disk → Prop
  | .makeDirectory path, d' =>
    ∃ place, d.locate path = .ok place ∧ d.find? place = none ∧
      d' = d.put (some (.directory [])) place
  | .create path, d' =>
    ∃ place, d.locate path = .ok place ∧ ¬ d.IsDirectory place ∧
      d' = d.put (some (.file (.text ""))) place
  | .write path content, d' =>
    ∃ place, d.locate path = .ok place ∧ ¬ d.IsDirectory place ∧
      d' = d.put (some (.file content)) place
  | .rename source target, d' =>
    ∃ start goal content, d.locate source = .ok start ∧ d.locate target = .ok goal ∧
      d.find? start = some (.file content) ∧ ¬ d.IsDirectory goal ∧
      d' = (d.put none start).put (some (.file content)) goal
  | .remove path, d' =>
    ∃ place, d.locate path = .ok place ∧ ¬ d.IsDirectory place ∧ d' = d.put none place

theorem bind_eq_ok_iff {ε α β : Type} {x : Except ε α} {f : α → Except ε β} {b : β} :
    (x >>= f) = .ok b ↔ ∃ a, x = .ok a ∧ f a = .ok b := by
  cases x <;> simp [bind, Except.bind]

theorem perform_eq_ok {d d' : Disk} {change : Change} (h : d.perform change = .ok d') :
    d.Done change d' := by
  have hfile : ∀ place content, d.find? place = some (.file content) → ¬ d.IsDirectory place := by
    rintro place content hplace ⟨entries, hentries⟩
    simp [hplace] at hentries
  cases change with
  | makeDirectory path =>
    obtain ⟨place, hplace, h⟩ := bind_eq_ok_iff.1 h
    split at h
    · cases h
    · next hfind =>
      cases h
      exact ⟨place, hplace, hfind, rfl⟩
  | create path =>
    obtain ⟨place, hplace, h⟩ := bind_eq_ok_iff.1 h
    split at h
    · cases h
    · next hfind =>
      cases h
      refine ⟨place, hplace, ?_, rfl⟩
      rintro ⟨entries, hentries⟩
      exact hfind entries hentries
  | write path content =>
    obtain ⟨place, hplace, h⟩ := bind_eq_ok_iff.1 h
    split at h
    · cases h
    · cases h
    · next hfind =>
      cases h
      exact ⟨place, hplace, hfile place _ hfind, rfl⟩
  | remove path =>
    obtain ⟨place, hplace, h⟩ := bind_eq_ok_iff.1 h
    split at h
    · cases h
    · cases h
    · next hfind =>
      cases h
      exact ⟨place, hplace, hfile place _ hfind, rfl⟩
  | rename source target =>
    obtain ⟨start, hstart, h⟩ := bind_eq_ok_iff.1 h
    obtain ⟨goal, hgoal, h⟩ := bind_eq_ok_iff.1 h
    cases hdown : target.leadsDown with
    | false => simp [hdown, throw, throwThe, MonadExceptOf.throw, bind, Except.bind] at h
    | true =>
      simp only [hdown, Bool.not_true, Bool.false_eq_true, if_false] at h
      split at h
      · cases h
      · cases h
      · next content hfind =>
        split at h
        · cases h
        · split at h
          · cases h
          · next hthere =>
            cases h
            refine ⟨start, goal, content, hstart, hgoal, hfind, ?_, rfl⟩
            rintro ⟨entries, hentries⟩
            exact hthere entries hentries

end Disk

/-! ## The place of a path -/

/-- The names that steps go down to, where none goes up. -/
def Disk.downs (steps : List Step) : Location :=
  steps.filterMap fun
    | .down name => some name
    | _ => none

namespace Path

/-- The place that a step leads to. There is nothing above the root. -/
def Step.goTo (place : Location) : Step → Location
  | .here => place
  | .up => place.dropLast
  | .down name => place ++ [name]

/-- The place that steps lead to from a place. -/
def placeFrom (place : Location) (steps : List Step) : Location :=
  steps.foldl Step.goTo place

/-- The place that a path leads to. -/
def place (path : Path) : Location :=
  placeFrom [] path.steps

theorem placeFrom_append (place : Location) (steps more : List Step) :
    placeFrom place (steps ++ more) = placeFrom (placeFrom place steps) more :=
  List.foldl_append

/-- Steps that stay lead nowhere else. -/
theorem placeFrom_replicate_here (place : Location) (k : Nat) :
    placeFrom place (List.replicate k .here) = place := by
  induction k with
  | zero => rfl
  | succ k ih =>
    rw [List.replicate_succ]
    exact ih

/-- Steps of which none goes up lead further down. -/
theorem placeFrom_eq_append {place : Location} {steps : List Step} (hup : .up ∉ steps) :
    placeFrom place steps = place ++ Disk.downs steps := by
  induction steps generalizing place with
  | nil => simp [placeFrom, Disk.downs]
  | cons step steps ih =>
    have ih := @ih (step.goTo place) fun hmem => hup (by simp [hmem])
    rw [placeFrom, List.foldl_cons, ← placeFrom, ih]
    cases step with
    | here => rfl
    | up => exact absurd (by simp) hup
    | down name => simp [Step.goTo, Disk.downs]

end Path

/-! ## Following a path -/

namespace Disk

open Node

theorem locateFrom_cons_eq_ok_iff {d : Disk} {place goal : Location} {step : Step}
    {rest : List Step} : d.locateFrom place (step :: rest) = .ok goal ↔
      d.IsDirectory place ∧ ∃ next, stepFrom place step = .ok next ∧
        d.locateFrom next rest = .ok goal := by
  rw [locateFrom]
  cases hfind : d.find? place with
  | none => simp [IsDirectory, hfind]
  | some n =>
    cases n with
    | file content => simp [IsDirectory, hfind]
    | directory entries => cases stepFrom place step <;> simp [IsDirectory, hfind]

theorem locateFrom_append_eq_ok_iff {d : Disk} {place goal : Location} {steps more : List Step} :
    d.locateFrom place (steps ++ more) = .ok goal ↔
      ∃ mid, d.locateFrom place steps = .ok mid ∧ d.locateFrom mid more = .ok goal := by
  induction steps generalizing place with
  | nil => simp [locateFrom]
  | cons step steps ih =>
    simp only [List.cons_append, locateFrom_cons_eq_ok_iff, ih]
    constructor
    · rintro ⟨hplace, next, hnext, mid, hmid, hgoal⟩
      exact ⟨mid, ⟨hplace, next, hnext, hmid⟩, hgoal⟩
    · rintro ⟨mid, ⟨hplace, next, hnext, hmid⟩, hgoal⟩
      exact ⟨hplace, next, hnext, mid, hmid, hgoal⟩

theorem stepFrom_down_eq_ok_iff {place next : Location} {name : String} :
    stepFrom place (.down name) = .ok next ↔
      name.utf8ByteSize ≤ maxNameSize ∧ next = place ++ [name] := by
  by_cases hlong : name.utf8ByteSize > maxNameSize
  · simp [stepFrom, hlong, Nat.not_le.2 hlong]
  · simp [stepFrom, hlong, Nat.not_lt.1 hlong, eq_comm]

/-- Steps lead to the same place where all directories are still there. -/
theorem locateFrom_mono {d d' : Disk} (h : ∀ q, d.IsDirectory q → d'.IsDirectory q)
    {place goal : Location} {steps : List Step} (hgoal : d.locateFrom place steps = .ok goal) :
    d'.locateFrom place steps = .ok goal := by
  induction steps generalizing place with
  | nil => exact hgoal
  | cons step steps ih =>
    obtain ⟨hplace, next, hnext, hrest⟩ := locateFrom_cons_eq_ok_iff.1 hgoal
    exact locateFrom_cons_eq_ok_iff.2 ⟨h place hplace, next, hnext, ih hrest⟩

/-- Steps that can be followed lead to their place. -/
theorem locateFrom_eq_placeFrom {d : Disk} {place goal : Location} {steps : List Step}
    (h : d.locateFrom place steps = .ok goal) : goal = placeFrom place steps := by
  induction steps generalizing place with
  | nil => simpa [locateFrom, placeFrom, eq_comm] using h
  | cons step steps ih =>
    obtain ⟨-, next, hnext, hrest⟩ := locateFrom_cons_eq_ok_iff.1 h
    have hgoes : next = step.goTo place := by
      cases step with
      | here => exact (Except.ok.inj hnext).symm
      | up => exact (Except.ok.inj hnext).symm
      | down name => exact (stepFrom_down_eq_ok_iff.1 hnext).2
    rw [ih hrest, hgoes]
    rfl

/-- Steps of which none goes up lead to the names that they go down to. -/
theorem locateFrom_eq_downs {d : Disk} {place goal : Location} {steps : List Step}
    (hup : .up ∉ steps) (h : d.locateFrom place steps = .ok goal) :
    goal = place ++ downs steps := by
  rw [locateFrom_eq_placeFrom h, placeFrom_eq_append hup]

/-- On the way to a directory there are directories only. -/
theorem isDirectory_of_locateFrom {d : Disk} {p : Location} {before more : List Step}
    (h : d.locateFrom [] (before ++ more) = .ok p) (hp : d.IsDirectory p) :
    d.IsDirectory (placeFrom [] before) := by
  obtain ⟨mid, hmid, hrest⟩ := locateFrom_append_eq_ok_iff.1 h
  rw [← locateFrom_eq_placeFrom hmid]
  cases more with
  | nil =>
    cases hrest
    exact hp
  | cons step more => exact (locateFrom_cons_eq_ok_iff.1 hrest).1

/-- Steps of which none goes up lead to a directory if it is there. -/
theorem locateFrom_downs {d : Disk} {place : Location} {steps : List Step} (hup : .up ∉ steps)
    (hnames : ∀ name, .down name ∈ steps → name.utf8ByteSize ≤ maxNameSize)
    (h : d.IsDirectory (place ++ downs steps)) :
    d.locateFrom place steps = .ok (place ++ downs steps) := by
  induction steps generalizing place with
  | nil => simp [locateFrom, downs]
  | cons step steps ih =>
    have ih := @ih
    rw [locateFrom_cons_eq_ok_iff]
    refine ⟨isDirectory_of_append h, ?_⟩
    have hrest : .up ∉ steps := fun hmem => hup (by simp [hmem])
    have hmore : ∀ name, .down name ∈ steps → name.utf8ByteSize ≤ maxNameSize :=
      fun name hmem => hnames name (by simp [hmem])
    cases step with
    | here => exact ⟨place, rfl, ih hrest hmore h⟩
    | up => exact absurd (by simp) hup
    | down name =>
      have hsplit : place ++ downs (.down name :: steps) = place ++ [name] ++ downs steps := by
        simp [downs]
      rw [hsplit] at h ⊢
      exact ⟨place ++ [name], stepFrom_down_eq_ok_iff.2 ⟨hnames name (by simp), rfl⟩,
        ih hrest hmore h⟩

theorem locateFrom_of_locate {d : Disk} {path : Path} {place : Location}
    (h : d.locate path = .ok place) : '\x00' ∉ path.text.toList ∧
      path.text.utf8ByteSize ≤ maxPathSize ∧ d.locateFrom [] path.steps = .ok place := by
  unfold locate at h
  split at h
  · cases h
  · next hnull =>
    split at h
    · cases h
    · next hsize =>
      split at h
      · cases h
      · exact ⟨hnull, by omega, h⟩

/-- A path that can be followed leads to its place. -/
theorem locate_eq_place {d : Disk} {path : Path} {goal : Location} (h : d.locate path = .ok goal) :
    goal = path.place :=
  locateFrom_eq_placeFrom (locateFrom_of_locate h).2.2

/-! ## Going up -/

/-- Whether a path goes up only where there are directories already: some first steps of it lead to
a directory, or are none at all, and no later step goes up. -/
def GoesUpInside (d : Disk) (path : Path) : Prop :=
  ∃ before after, path.steps = before ++ after ∧ .up ∉ after ∧
    (before = [] ∨ ∃ p, d.locateFrom [] before = .ok p ∧ d.IsDirectory p)

section GoingUp

variable {d d' : Disk} {path stage : Path}

theorem goesUpInside_of_notMem (hup : .up ∉ path.steps) : d.GoesUpInside path :=
  ⟨[], path.steps, rfl, hup, .inl rfl⟩

/-- A path that leads to a directory comes through directories only. -/
theorem goesUpInside_of_isDirectory {p : Location} (h : d.locateFrom [] path.steps = .ok p)
    (hp : d.IsDirectory p) : d.GoesUpInside path :=
  ⟨path.steps, [], (List.append_nil _).symm, by simp, .inr ⟨p, h, hp⟩⟩

theorem GoesUpInside.mono (h : d.GoesUpInside path)
    (hmore : ∀ q, d.IsDirectory q → d'.IsDirectory q) : d'.GoesUpInside path := by
  obtain ⟨before, after, hsteps, hup, hbefore⟩ := h
  refine ⟨before, after, hsteps, hup, hbefore.imp_right ?_⟩
  rintro ⟨p, hp, hdirectory⟩
  exact ⟨p, locateFrom_mono hmore hp, hmore p hdirectory⟩

/-- The first steps of two ways in a row end on the first way or go on along the second one. -/
theorem steps_prefix_cases {steps before after : List Step} (h : steps <+: before ++ after) :
    steps <+: before ∨ ∃ more, more <+: after ∧ steps = before ++ more := by
  rcases List.prefix_or_prefix_of_prefix h (List.prefix_append before after) with
    hshort | ⟨more, rfl⟩
  · exact .inl hshort
  · exact .inr ⟨more, (List.prefix_append_right_inj before).1 h, rfl⟩

/-- A path that goes up only inside does so up to each stage of it. -/
theorem GoesUpInside.of_prefix (h : d.GoesUpInside path) (hstage : stage.steps <+: path.steps) :
    d.GoesUpInside stage := by
  obtain ⟨before, after, hsteps, hup, hbefore⟩ := h
  rw [hsteps] at hstage
  rcases steps_prefix_cases hstage with hshort | ⟨more, hmore, heq⟩
  · rcases hbefore with rfl | ⟨p, hp, hdirectory⟩
    · exact goesUpInside_of_notMem (by simp [List.prefix_nil.1 hshort])
    · -- There are directories only on the way to the one that the first steps lead to.
      obtain ⟨more, rfl⟩ := hshort
      have hthere := isDirectory_of_locateFrom hp hdirectory
      obtain ⟨mid, hmid, -⟩ := locateFrom_append_eq_ok_iff.1 hp
      rw [← locateFrom_eq_placeFrom hmid] at hthere
      exact goesUpInside_of_isDirectory hmid hthere
  · exact ⟨before, more, heq, fun hmem => hup (hmore.subset hmem), hbefore⟩

/-- A stage of a path that goes up only inside is on the way to the place of the path, if there is no
directory at the stage. -/
theorem GoesUpInside.place_prefix (h : d.GoesUpInside path) (hstage : stage.steps <+: path.steps)
    (hnone : ¬ d.IsDirectory stage.place) : stage.place <+: path.place := by
  obtain ⟨before, after, hsteps, hup, hbefore⟩ := h
  have hbeyond : ∃ more, more <+: after ∧ stage.steps = before ++ more := by
    rw [hsteps] at hstage
    rcases steps_prefix_cases hstage with ⟨more, hshort⟩ | hbeyond
    · rcases hbefore with rfl | ⟨p, hp, hdirectory⟩
      · exact ⟨[], List.nil_prefix, (List.append_eq_nil_iff.1 hshort).1⟩
      · rw [← hshort] at hp
        exact absurd (isDirectory_of_locateFrom hp hdirectory) hnone
    · exact hbeyond
  -- From there on the path only goes down, and so does the stage.
  obtain ⟨more, hmore, heq⟩ := hbeyond
  rw [Path.place, Path.place, hsteps, heq, placeFrom_append, placeFrom_append,
    placeFrom_eq_append hup, placeFrom_eq_append fun hmem => hup (hmore.subset hmem),
    List.prefix_append_right_inj]
  exact hmore.filterMap _

/-- A path that goes up only inside can be followed to a directory that is at its place. -/
theorem GoesUpInside.locateFrom (h : d.GoesUpInside path)
    (hnames : ∀ name, .down name ∈ path.steps → name.utf8ByteSize ≤ maxNameSize)
    (hplace : d.IsDirectory path.place) : d.locateFrom [] path.steps = .ok path.place := by
  obtain ⟨before, after, hsteps, hup, hbefore⟩ := h
  have hstart : d.locateFrom [] before = .ok (placeFrom [] before) := by
    rcases hbefore with rfl | ⟨p, hp, -⟩
    · rfl
    · rw [hp, locateFrom_eq_placeFrom hp]
  have hsplit : path.place = placeFrom [] before ++ downs after := by
    rw [Path.place, hsteps, placeFrom_append, placeFrom_eq_append hup]
  rw [hsplit] at hplace ⊢
  rw [hsteps, locateFrom_append_eq_ok_iff]
  exact ⟨_, hstart, locateFrom_downs hup (fun name hname => hnames name (by simp [hsteps, hname]))
    hplace⟩

end GoingUp

/-! ## Where a directory stands -/

/-- Whether the directory of a path stands at a place: the path leads there, and goes up only where
there are directories already. -/
structure Stands (d : Disk) (dir : Path) (place : Location) : Prop where
  inside : d.GoesUpInside dir
  place_eq : dir.place = place

/-- A directory stays where it stands while directories are only added. -/
theorem Stands.mono {d d' : Disk} {dir : Path} {place : Location} (hs : d.Stands dir place)
    (h : ∀ q, d.IsDirectory q → d'.IsDirectory q) : d'.Stands dir place :=
  ⟨hs.inside.mono h, hs.place_eq⟩

/-- The parent of a file of a directory stands where the directory does. -/
theorem Stands.parent {d : Disk} {dir parent : Path} {place : Location} {k : Nat}
    (hs : d.Stands dir place) (h : dir.steps = parent.steps ++ List.replicate k .here) :
    d.Stands parent place := by
  refine ⟨hs.inside.of_prefix ⟨List.replicate k .here, h.symm⟩, ?_⟩
  rw [← hs.place_eq, Path.place, Path.place, h, placeFrom_append, placeFrom_replicate_here]

/-- A path to an entry of a directory leads to the entry. -/
theorem Stands.locate_join {d : Disk} {dir : Path} {place goal : Location} {name : String}
    (hs : d.Stands dir place) (hname : IsEntryName name)
    (h : d.locate (dir.join name) = .ok goal) :
    d.IsDirectory place ∧ goal = place ++ [name] := by
  obtain ⟨-, -, hsteps⟩ := locateFrom_of_locate h
  rw [dir.steps_join hname, locateFrom_append_eq_ok_iff] at hsteps
  obtain ⟨mid, hmid, hgoal⟩ := hsteps
  rw [locateFrom_eq_placeFrom hmid, ← Path.place, hs.place_eq] at hgoal
  obtain ⟨hdirectory, next, hnext, hrest⟩ := locateFrom_cons_eq_ok_iff.1 hgoal
  cases hrest
  exact ⟨hdirectory, (stepFrom_down_eq_ok_iff.1 hnext).2⟩

/-- Whether a path can be used at all: it holds no null character, and neither the path nor a name
in it is too long. -/
def Fits (path : Path) : Prop :=
  '\x00' ∉ path.text.toList ∧ path.text.utf8ByteSize ≤ maxPathSize ∧
    ∀ name, .down name ∈ path.steps → name.utf8ByteSize ≤ maxNameSize

theorem join_text_ne (dir : Path) {name : String} (hname : IsEntryName name) :
    (dir.join name).text ≠ "" := by
  intro hempty
  have hsteps := dir.steps_join hname
  rw [steps_eq, pieces, hempty] at hsteps
  have hlast := congrArg List.getLast? hsteps
  simp [Text.splitAll, step?] at hlast

/-- A path to an entry leads somewhere if it can be used and its directory is there. -/
theorem Stands.locate_of_fits {d : Disk} {dir : Path} {place : Location} {name : String}
    (hs : d.Stands dir place) (hname : IsEntryName name) (hplace : d.IsDirectory place)
    (hfits : Fits (dir.join name)) : d.locate (dir.join name) = .ok (place ++ [name]) := by
  obtain ⟨hnull, hsize, hnames⟩ := hfits
  rw [dir.steps_join hname] at hnames
  have hdir : d.locateFrom [] dir.steps = .ok place := by
    rw [← hs.place_eq] at hplace ⊢
    exact hs.inside.locateFrom (fun n hn => hnames n (by simp [hn])) hplace
  unfold locate
  rw [if_neg hnull, if_neg (by omega), if_neg (join_text_ne dir hname), dir.steps_join hname,
    locateFrom_append_eq_ok_iff]
  refine ⟨place, hdir, locateFrom_cons_eq_ok_iff.2 ⟨hplace, _, ?_, rfl⟩⟩
  exact stepFrom_down_eq_ok_iff.2 ⟨hnames name (by simp), rfl⟩

/-! ## What stands at a file -/

theorem size_of_locateFrom {d : Disk} {place goal : Location} {steps : List Step}
    (h : d.locateFrom place steps = .ok goal) {name : String} (hname : .down name ∈ steps) :
    name.utf8ByteSize ≤ maxNameSize := by
  induction steps generalizing place with
  | nil => cases hname
  | cons step steps ih =>
    obtain ⟨-, next, hnext, hrest⟩ := locateFrom_cons_eq_ok_iff.1 h
    rcases List.mem_cons.1 hname with rfl | hname
    · exact (stepFrom_down_eq_ok_iff.1 hnext).1
    · exact ih hrest hname

/-- What stands at the end of a path, if the path leads to anything. -/
def node? (d : Disk) (path : Path) : Option Node :=
  (d.find path).toOption.join

theorem node?_eq_some_iff {d : Disk} {path : Path} {n : Node} :
    d.node? path = some n ↔ ∃ place, d.locate path = .ok place ∧ d.find? place = some n := by
  unfold node? find
  cases d.locate path <;> simp [Except.map, Except.toOption]

theorem readText_eq_ok_iff {d : Disk} {path : Path} {text : String} :
    d.readText path = .ok text ↔ d.node? path = some (.file (.text text)) := by
  unfold readText node?
  cases d.find path with
  | error fault => simp [bind, Except.bind, Except.toOption]
  | ok found =>
    rcases found with _ | ((s | bytes) | entries) <;>
      simp [bind, Except.bind, pure, Except.pure, Except.toOption, throw, throwThe,
        MonadExceptOf.throw]

/-- Nothing stands at a file that is missing. -/
theorem node?_of_readText_missing {d : Disk} {path : Path}
    (h : d.readText path = .error .missing) : d.node? path = none := by
  unfold readText at h
  unfold node?
  cases hfound : d.find path with
  | error fault => rfl
  | ok found =>
    rw [hfound] at h
    rcases found with _ | ((s | bytes) | entries)
    · rfl
    · cases h
    · cases h
    · cases h

/-- What stands at a file of a directory is what the entry is, if its path can be used. -/
theorem Stands.node?_join {d : Disk} {dir : Path} {place : Location} {name : String}
    (hs : d.Stands dir place) (hname : IsEntryName name) {n : Node} :
    d.node? (dir.join name) = some n ↔
      Fits (dir.join name) ∧ d.find? (place ++ [name]) = some n := by
  rw [node?_eq_some_iff]
  constructor
  · rintro ⟨goal, hgoal, hn⟩
    obtain ⟨hnull, hsize, hsteps⟩ := locateFrom_of_locate hgoal
    rw [← (hs.locate_join hname hgoal).2]
    exact ⟨⟨hnull, hsize, fun _ hmem => size_of_locateFrom hsteps hmem⟩, hn⟩
  · rintro ⟨hfits, hn⟩
    -- Something stands at the entry, so its directory is there.
    have hplace : d.IsDirectory place := by
      rw [find?_append, Option.bind_eq_some_iff] at hn
      obtain ⟨m, hm, hn⟩ := hn
      cases m with
      | file content => cases hn
      | directory entries => exact ⟨entries, hm⟩
    exact ⟨_, hs.locate_of_fits hname hplace hfits, hn⟩

/-- Whether all directories of a disk are still there, and the entries of one of them are as they
were, but for those of some names. -/
structure KeepsBut (place : Location) (names : List String) (d d' : Disk) : Prop where
  directories : ∀ q, d.IsDirectory q → d'.IsDirectory q
  entries : ∀ name, name ∉ names → d'.find? (place ++ [name]) = d.find? (place ++ [name])

theorem KeepsBut.refl (place : Location) (names : List String) (d : Disk) :
    KeepsBut place names d d :=
  ⟨fun _ h => h, fun _ _ => rfl⟩

theorem KeepsBut.trans {place : Location} {names more : List String} {d d' d'' : Disk}
    (h : KeepsBut place names d d') (h' : KeepsBut place more d' d'') (hsub : names ⊆ more) :
    KeepsBut place more d d'' := by
  refine ⟨fun q hq => h'.directories q (h.directories q hq), fun name hname => ?_⟩
  rw [h'.entries name hname, h.entries name fun hmem => hname (hsub hmem)]

/-- What is put in the place of an entry that is no directory concerns this entry alone. -/
theorem keepsBut_put (d : Disk) {place : Location} {name : String} (new : Option Node)
    (h : ¬ d.IsDirectory (place ++ [name])) :
    KeepsBut place [name] d (d.put new (place ++ [name])) := by
  refine ⟨fun q hq => isDirectory_put new h hq, fun other hother => ?_⟩
  exact find?_put_of_ne new d place (by simpa using hother)

/-- A directory that is made on the way to a place concerns no entry of it. -/
theorem keepsBut_makeDirectory {d : Disk} {q rest : Location} (h : d.find? q = none) :
    KeepsBut (q ++ rest) [] d (d.put (some (.directory [])) q) := by
  refine ⟨fun other hother => isDirectory_put _ ?_ hother, fun name _ => ?_⟩
  · rintro ⟨entries, hentries⟩
    simp [h] at hentries
  · -- Nothing was below the directory before it was made, and nothing is after.
    have hbelow : d.find? (q ++ rest ++ [name]) = none := by
      rw [List.append_assoc, find?_append, h]
      rfl
    rw [hbelow, List.append_assoc]
    cases rest with
    | nil => exact find?_put_directory h name []
    | cons a rest => exact find?_put_directory h a (rest ++ [name])

/-- Files whose entries are kept are kept. -/
theorem KeepsBut.node?_join {d d' : Disk} {dir : Path} {place : Location} {names : List String}
    (h : KeepsBut place names d d') (hs : d.Stands dir place) {name : String}
    (hname : IsEntryName name) (hkept : name ∉ names) :
    d'.node? (dir.join name) = d.node? (dir.join name) := by
  apply Option.ext
  intro n
  rw [(hs.mono h.directories).node?_join hname, hs.node?_join hname, h.entries name hkept]

end Disk

end UnifiedConfig
