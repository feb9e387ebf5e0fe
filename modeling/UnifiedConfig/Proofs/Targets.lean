import UnifiedConfig.Proofs.Ways

/-!
# Where a file path leads

A path with a file name leads to an entry of the directory that its parent leads to. As the place of
a path does not depend on what stands on the disk, a path that can be followed on two disks leads to
one place on both of them. If it goes up only where there are directories already, then making
directories on the way to its end makes none at its end.

* `isEntryOf_of_fileName?`: a path with a file name leads to an entry of its parent.
* `exists_parent_of_locate`: a path leads to what is there, or to an entry of a directory.
* `GoesUpInside.place_ne`: what is missing on the way to an entry is not the entry.
-/

namespace UnifiedConfig

open UnifiedConfig.Path

/-! ## Entries of a directory -/

namespace Path

/-- Whether a path leads to an entry of the directory that another path leads to. -/
def IsEntryOf (path parent : Path) (name : String) : Prop :=
  ∃ k m, path.steps =
    parent.steps ++ List.replicate k .here ++ .down name :: List.replicate m .here

theorem isEntryOf_join (p : Path) {name : String} (h : IsEntryName name) :
    (p.join name).IsEntryOf p name :=
  ⟨0, 0, by simpa using p.steps_join h⟩

theorem isEntryOf_of_fileName? {path : Path} {name : String} (h : path.fileName? = some name) :
    IsEntryName name ∧ ∃ parent, path.parent? = some parent ∧ path.IsEntryOf parent name := by
  rcases parent?_of_fileName? h with ⟨hname, parent, k, m, hparent, hsteps⟩
  exact ⟨hname, parent, hparent, k, m, hsteps⟩

theorem IsEntryOf.steps_prefix {path parent : Path} {name : String}
    (h : path.IsEntryOf parent name) : parent.steps <+: path.steps := by
  rcases h with ⟨k, m, hsteps⟩
  rw [hsteps, List.append_assoc]
  exact List.prefix_append _ _

theorem IsEntryOf.place {path parent : Path} {name : String} (h : path.IsEntryOf parent name) :
    path.place = parent.place ++ [name] := by
  rcases h with ⟨k, m, hsteps⟩
  have hdown := placeFrom_append (placeFrom [] parent.steps) [.down name]
    (List.replicate m .here)
  rw [Path.place, hsteps, placeFrom_append, placeFrom_append, placeFrom_replicate_here]
  rw [List.singleton_append, placeFrom_replicate_here] at hdown
  exact hdown

/-- Whether a path leads to an entry of a directory, and its temporary file is another one there. -/
structure HasSibling (path parent : Path) (name temporary : String) : Prop where
  entry : path.IsEntryOf parent name
  beside : path.temporary? = some (parent.join temporary)
  isName : IsEntryName temporary
  ne : temporary ≠ name

theorem hasSibling_of_fileName? {path : Path} {name : String} (h : path.fileName? = some name) :
    ∃ parent, path.HasSibling parent name (temporaryName name) := by
  rcases isEntryOf_of_fileName? h with ⟨hname, parent, hparent, hentry⟩
  exact ⟨parent, hentry, by simp [temporary?, h, hparent, temporaryName],
    isEntryName_temporaryName hname, temporaryName_ne name⟩

theorem HasSibling.place {path parent : Path} {name temporary : String}
    (h : path.HasSibling parent name temporary) :
    (parent.join temporary).place = parent.place ++ [temporary] :=
  (parent.isEntryOf_join h.isName).place

end Path

/-! ## Following a path -/

namespace Disk

open Node

variable {d d' : Disk}

/-- Whether a path can be used at all is the same on all disks. -/
theorem locate_of_locateFrom {path : Path} {goal other : Location} (h : d.locate path = .ok other)
    (hsteps : d'.locateFrom [] path.steps = .ok goal) : d'.locate path = .ok goal := by
  unfold locate at h ⊢
  split at h
  · cases h
  · next hnull =>
    split at h
    · cases h
    · next hsize =>
      split at h
      · cases h
      · next hne => rwa [if_neg hnull, if_neg hsize, if_neg hne]

theorem locate_mono {path : Path} {goal : Location} (h : ∀ q, d.IsDirectory q → d'.IsDirectory q)
    (hgoal : d.locate path = .ok goal) : d'.locate path = .ok goal :=
  locate_of_locateFrom hgoal (locateFrom_mono h (locateFrom_of_locate hgoal).2.2)

/-- What stands at the end of a path is what stands at its place, if the path can be followed. -/
theorem node?_of_locate {path : Path} {goal : Location} (h : d.locate path = .ok goal) :
    d.node? path = d.find? path.place := by
  rw [← locate_eq_place h, node?, find, h]
  rfl

theorem node?_eq_none_of_locate {path : Path} {fault : FileError}
    (h : d.locate path = .error fault) : d.node? path = none := by
  rw [node?, find, h]
  rfl

/-- An entry of a directory is reached by way of the directory. -/
theorem isDirectory_of_locate {path parent : Path} {name : String} {goal : Location}
    (hentry : path.IsEntryOf parent name) (h : d.locate path = .ok goal) :
    d.IsDirectory parent.place := by
  rcases hentry with ⟨k, m, hsteps⟩
  have hgoal := (locateFrom_of_locate h).2.2
  rw [hsteps, locateFrom_append_eq_ok_iff] at hgoal
  rcases hgoal with ⟨mid, hmid, hrest⟩
  have hdirectory := (locateFrom_cons_eq_ok_iff.1 hrest).1
  rwa [locateFrom_eq_placeFrom hmid, placeFrom_append, placeFrom_replicate_here] at hdirectory

theorem not_isDirectory_of_none {q : Location} (h : d.find? q = none) : ¬ d.IsDirectory q := by
  rintro ⟨entries, hentries⟩
  rw [h] at hentries
  cases hentries

theorem not_isDirectory_of_file {q : Location} {c : Content} (h : d.find? q = some (.file c)) :
    ¬ d.IsDirectory q := by
  rintro ⟨entries, hentries⟩
  rw [h] at hentries
  cases hentries

theorem isDirectory_above {p q : Location} (h : d.IsDirectory q) (habove : p <+: q) :
    d.IsDirectory p := by
  rcases habove with ⟨rest, rfl⟩
  exact isDirectory_of_append h

/-- Where nothing stands at the end of a path, there is a directory to hold it. -/
theorem exists_parent_of_locate {path : Path} {goal : Location} (h : d.locate path = .ok goal)
    (hnone : d.find? goal = none) : ∃ parent name, goal = parent ++ [name] ∧
      d.IsDirectory parent := by
  have hsteps : ∀ (steps : List Step) (place : Location), d.find? place ≠ none →
      d.locateFrom place steps = .ok goal → ∃ parent name, goal = parent ++ [name] ∧
        d.IsDirectory parent := by
    intro steps
    induction steps with
    | nil =>
      intro place hplace hgoal
      cases hgoal
      exact absurd hnone hplace
    | cons step steps ih =>
      intro place hplace hgoal
      rcases locateFrom_cons_eq_ok_iff.1 hgoal with ⟨hdirectory, next, hnext, hrest⟩
      have hthere : ∀ {q}, d.IsDirectory q → d.find? q ≠ none :=
        fun hq hmissing => not_isDirectory_of_none hmissing hq
      cases step with
      | here =>
        cases hnext
        exact ih _ hplace hrest
      | up =>
        cases hnext
        refine ih _ (hthere ?_) hrest
        exact isDirectory_above hdirectory (List.dropLast_prefix place)
      | down name =>
        rcases stepFrom_down_eq_ok_iff.1 hnext with ⟨-, rfl⟩
        by_cases hnew : d.find? (place ++ [name]) = none
        · -- Nothing can be reached by way of what is not there.
          cases steps with
          | nil =>
            cases hrest
            exact ⟨place, name, rfl, hdirectory⟩
          | cons other steps =>
            exact absurd hnew (hthere (locateFrom_cons_eq_ok_iff.1 hrest).1)
        · exact ih _ hnew hrest
  exact hsteps path.steps [] (by simp [find?]) (locateFrom_of_locate h).2.2

/-! ## Going up -/

/-- What is missing on the way to the directory of an entry is not the entry. -/
theorem GoesUpInside.place_ne {path parent stage : Path} {name : String} (h : d.GoesUpInside path)
    (hentry : path.IsEntryOf parent name) (hstage : stage.steps <+: parent.steps)
    (hnone : d.find? stage.place = none) : stage.place ≠ path.place := by
  have hparent : d.GoesUpInside parent := h.of_prefix hentry.steps_prefix
  have hway := hparent.place_prefix hstage (not_isDirectory_of_none hnone)
  -- The entry is one further than all of the way.
  intro heq
  have hlength := hway.length_le
  rw [heq, hentry.place, List.length_append, List.length_singleton] at hlength
  omega

/-- Steps that only go down can be followed to what is there, if they can on another disk that has a
directory at their end only where this one has. -/
theorem locateFrom_of_there {place goal : Location} {steps : List Step} (hup : .up ∉ steps)
    (h : d'.locateFrom place steps = .ok goal) (hthere : d.find? goal ≠ none)
    (hgoal : d'.IsDirectory goal → d.IsDirectory goal) : d.locateFrom place steps = .ok goal := by
  induction steps generalizing place with
  | nil => exact h
  | cons step steps ih =>
    have hend := locateFrom_eq_downs hup h
    rcases locateFrom_cons_eq_ok_iff.1 h with ⟨hplace, next, hnext, hrest⟩
    have hmore : .up ∉ steps := fun hmem => hup (by simp [hmem])
    refine locateFrom_cons_eq_ok_iff.2 ⟨?_, next, hnext, ih hmore hrest⟩
    cases hdowns : downs (step :: steps) with
    | nil =>
      rw [hdowns, List.append_nil] at hend
      exact hend ▸ hgoal (hend ▸ hplace)
    | cons name rest =>
      apply Classical.byContradiction
      intro hnot
      rw [hend, hdowns, find?_below hnot] at hthere
      exact hthere rfl

/-- A path that goes up only inside can be followed to what is there, if it can on another disk. -/
theorem GoesUpInside.locate {path : Path} {goal : Location} (h : d.GoesUpInside path)
    (hgoal : d'.locate path = .ok goal) (hthere : d.find? goal ≠ none)
    (hend : d'.IsDirectory goal → d.IsDirectory goal) : d.locate path = .ok goal := by
  rcases h with ⟨before, after, hsteps, hup, hbefore⟩
  apply locate_of_locateFrom hgoal
  have hgoal := (locateFrom_of_locate hgoal).2.2
  rw [hsteps, locateFrom_append_eq_ok_iff] at hgoal ⊢
  rcases hgoal with ⟨mid, hmid, hrest⟩
  refine ⟨mid, ?_, locateFrom_of_there hup hrest hthere hend⟩
  rcases hbefore with rfl | ⟨p, hp, -⟩
  · exact hmid
  · rw [locateFrom_eq_placeFrom hmid, ← locateFrom_eq_placeFrom hp]
    exact hp

end Disk

end UnifiedConfig
