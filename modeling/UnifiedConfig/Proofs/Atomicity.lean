import UnifiedConfig.Proofs.Targets

/-!
# Replacing a file at every moment

The changes that replace a file come one after the other, and the process can be stopped between any
two of them. Whatever number of them has been made, each place of the disk is as it was, but for the
directories that were missing on the way, the temporary file, and the file itself, which has the new
content (`Fate`). If the outcome is an error, the file is what it was before, and no file is there
that was not there before.

The directories on the way to a file are made as its path says, one for each stage that is missing.
If the path goes up from a directory that is missing, the place of the file can be one of these: the
stages of `x/..` are made before the file `x/../x`.

* `Passes`: what holds of a disk at every moment of a run of changes.
* `makeParent_passes`: nothing but missing directories is made on the way.
* `replaceBy_passes`: what the temporary file and the file are at every moment.
* `replaceFile_atomic`: all of this for the path of a file.
-/

namespace UnifiedConfig

open UnifiedConfig.Path

/-! ## Runs of changes -/

namespace Disk

/-- Performs changes one after the other. -/
def performAll (d : Disk) (changes : List Change) : Except FileError Disk :=
  changes.foldlM perform d

end Disk

namespace Journal

variable {start j j' : Journal} {P Q : Disk → Prop}

/-- Whether a journal goes on from another one by changes that lead from disk to disk, and something
holds after any number of them. -/
def Passes (start : Journal) (P : Disk → Prop) (j : Journal) : Prop :=
  ∃ changes, j.changes = start.changes ++ changes ∧
    ∀ k, ∃ mid, start.disk.performAll (changes.take k) = .ok mid ∧ P mid ∧
      (changes.length ≤ k → mid = j.disk)

theorem passes_begin (h : P j.disk) : j.Passes P j := by
  refine ⟨[], by simp, fun k => ⟨j.disk, ?_, h, fun _ => rfl⟩⟩
  simp [Disk.performAll, pure, Except.pure]

theorem Passes.disk (h : start.Passes P j) : P j.disk := by
  rcases h with ⟨changes, -, hall⟩
  rcases hall changes.length with ⟨mid, -, hmid, hend⟩
  exact hend (Nat.le_refl _) ▸ hmid

theorem Passes.imp (h : start.Passes P j) (hPQ : ∀ mid, P mid → Q mid) : start.Passes Q j := by
  rcases h with ⟨changes, hchanges, hall⟩
  refine ⟨changes, hchanges, fun k => ?_⟩
  rcases hall k with ⟨mid, hperform, hmid, hend⟩
  exact ⟨mid, hperform, hPQ mid hmid, hend⟩

theorem perform_eq_ok_iff {change : Change} : j.perform change = .ok j' ↔
    j.disk.perform change = .ok j'.disk ∧ j'.changes = j.changes ++ [change] := by
  unfold Journal.perform
  cases j.disk.perform change with
  | error fault => simp [Except.map]
  | ok made =>
    simp only [Except.map, Except.ok.injEq]
    constructor
    · rintro rfl
      exact ⟨rfl, rfl⟩
    · rintro ⟨rfl, hchanges⟩
      rw [← hchanges]

/-- One more change leads to one more disk. -/
theorem Passes.perform {change : Change} (h : start.Passes P j)
    (hchange : j.perform change = .ok j') (hj' : P j'.disk) : start.Passes P j' := by
  rcases h with ⟨changes, hchanges, hall⟩
  rcases perform_eq_ok_iff.1 hchange with ⟨hdisk, hmore⟩
  refine ⟨changes ++ [change], by rw [hmore, hchanges, List.append_assoc], fun k => ?_⟩
  by_cases hk : k ≤ changes.length
  · rcases hall k with ⟨mid, hperform, hmid, -⟩
    refine ⟨mid, ?_, hmid, fun hall => ?_⟩
    · rwa [List.take_append_of_le_length hk]
    · rw [List.length_append, List.length_singleton] at hall
      omega
  · rcases hall changes.length with ⟨mid, hperform, -, hend⟩
    rw [List.take_length, hend (Nat.le_refl _), Disk.performAll] at hperform
    refine ⟨j'.disk, ?_, hj', fun _ => rfl⟩
    have hlong : (changes ++ [change]).length ≤ k := by
      rw [List.length_append, List.length_singleton]
      omega
    rw [List.take_of_length_le hlong, Disk.performAll, List.foldlM_append, hperform]
    simp [bind, Except.bind, pure, Except.pure, hdisk]

end Journal

/-! ## What becomes of a place -/

namespace Disk

open Node

variable {d d' d'' mid : Disk} {path : Path} {content : Content} {q : Location}

/-- Whether a place is as it was, but for what is in a directory that is there. -/
def Keeps (d d' : Disk) (q : Location) : Prop :=
  (d'.find? q).map entry = (d.find? q).map entry

/-- Whether a place is one of those on the way to the directory of a file that were missing, and a
directory is there now. -/
structure Makes (path : Path) (d d' : Disk) (q : Location) : Prop where
  missing : d.find? q = none
  made : d'.IsDirectory q
  stage : ∃ parent stage, path.parent? = some parent ∧ stage ∈ parent.stages ∧ stage.place = q

/-- What can become of a place when the file of a path is replaced. -/
inductive Fate (path : Path) (content : Content) (d d' : Disk) (q : Location) : Prop where
  /-- It is as it was. -/
  | kept (h : d.Keeps d' q)
  /-- It is on the way to the file, and was missing. -/
  | made (h : Makes path d d' q)
  /-- It is that of the temporary file, which may be there or not. -/
  | temporary {temporary : Path} (h : path.temporary? = some temporary) (hq : temporary.place = q)
      (hbefore : ¬ d.IsDirectory q) (hafter : ¬ d'.IsDirectory q)
  /-- It is that of the file, which has the new content. -/
  | replaced (hq : path.place = q) (hbefore : ¬ d.IsDirectory q)
      (hafter : d'.find? q = some (.file content))

/-- Whether each place has become what it can when the file of a path is replaced. -/
def Fates (path : Path) (content : Content) (d d' : Disk) : Prop :=
  ∀ q, Fate path content d d' q

/-- Whether all is as it was, but for directories on the way to the file of a path. -/
def MakesWay (path : Path) (d d' : Disk) : Prop :=
  ∀ q, d.Keeps d' q ∨ Makes path d d' q

theorem Keeps.trans (h : d.Keeps d' q) (h' : d'.Keeps d'' q) : d.Keeps d'' q :=
  Eq.trans h' h

theorem Keeps.isDirectory_iff (h : d.Keeps d' q) : d'.IsDirectory q ↔ d.IsDirectory q := by
  rw [Disk.isDirectory_iff, Disk.isDirectory_iff, h]

theorem Keeps.find?_eq_none_iff (h : d.Keeps d' q) : d'.find? q = none ↔ d.find? q = none := by
  rw [← Option.map_eq_none_iff, h, Option.map_eq_none_iff]

theorem Keeps.file_iff (h : d.Keeps d' q) {c : Content} :
    d'.find? q = some (.file c) ↔ d.find? q = some (.file c) := by
  have hfile : ∀ n : Node, n.entry = .file c ↔ n = .file c := by
    intro n
    cases n <;> simp [entry]
  have hiff : ∀ e : Disk, (e.find? q).map entry = some (.file c) ↔ e.find? q = some (.file c) := by
    intro e
    cases e.find? q <;> simp [hfile]
  rw [← hiff d', h, hiff d]

/-- No directory is taken away. -/
theorem Fates.isDirectory (h : Fates path content d mid) (hq : d.IsDirectory q) :
    mid.IsDirectory q := by
  cases h q with
  | kept hkept => exact hkept.isDirectory_iff.2 hq
  | made hmade => exact hmade.made
  | temporary _ _ hbefore => exact absurd hq hbefore
  | replaced _ hbefore => exact absurd hq hbefore

/-! ## The way to a file -/

theorem makesWay_refl (path : Path) (d : Disk) : MakesWay path d d :=
  fun _ => .inl rfl

theorem MakesWay.not_isDirectory (h : MakesWay path d d') (hq : ¬ d'.IsDirectory q) :
    ¬ d.IsDirectory q := by
  rcases h q with hkept | hmade
  · rwa [← hkept.isDirectory_iff]
  · exact absurd hmade.made hq

theorem MakesWay.file (h : MakesWay path d d') {c : Content} (hq : d'.find? q = some (.file c)) :
    d.find? q = some (.file c) := by
  rcases h q with hkept | hmade
  · exact hkept.file_iff.1 hq
  · exact absurd hmade.made (not_isDirectory_of_file hq)

/-- A directory that is made at the end of a path is all that is made. -/
theorem keeps_or_of_makeDirectory {stage : Path} (h : d.Done (.makeDirectory stage) d') :
    (∀ q, d.Keeps d' q ∨ q = stage.place) ∧ d.find? stage.place = none ∧
      d'.IsDirectory stage.place := by
  rcases h with ⟨goal, hgoal, hnone, rfl⟩
  obtain rfl := locate_eq_place hgoal
  rcases exists_parent_of_locate hgoal hnone with ⟨parent, name, hplace, hparent⟩
  rw [hplace] at hnone ⊢
  have htouches := @touches_makeDirectory d parent [] name hparent hnone
  rw [List.append_nil] at htouches
  rcases hparent with ⟨entries, hentries⟩
  refine ⟨fun q => ?_, hnone, [], find?_put_self _ hentries name⟩
  rcases htouches q (by simp) with hkept | ⟨hon, hmissing, -⟩
  · exact .inl hkept
  · -- The places above are there.
    rcases List.prefix_concat_iff.1 hon with rfl | habove
    · exact .inr rfl
    · have hdirectory := isDirectory_above ⟨entries, hentries⟩ habove
      exact absurd hdirectory (not_isDirectory_of_none hmissing)

/-- One more directory is made on the way. -/
theorem MakesWay.makeDirectory {parent stage : Path} (h : MakesWay path d d')
    (hparent : path.parent? = some parent) (hstage : stage ∈ parent.stages)
    (hmake : d'.Done (.makeDirectory stage) d'') : MakesWay path d d'' := by
  rcases keeps_or_of_makeDirectory hmake with ⟨hall, hnone, hmade⟩
  intro q
  rcases h q with hkept | hbefore
  · rcases hall q with hkept' | rfl
    · exact .inl (hkept.trans hkept')
    · exact .inr ⟨hkept.find?_eq_none_iff.1 hnone, hmade, parent, stage, hparent, hstage, rfl⟩
  · right
    refine ⟨hbefore.missing, ?_, hbefore.stage⟩
    rcases hall q with hkept' | rfl
    · exact hkept'.isDirectory_iff.2 hbefore.made
    · exact hmade

/-! ## The temporary file -/

variable {parent : Path} {name temporary : String} {old new : Option Node}

/-- Whether nothing has happened but to the temporary file, an entry of a directory: it can be
reached by its path, and is something that is no directory, or is not there. -/
structure HasTemporary (parent : Path) (temporary : String) (d d' : Disk) (new : Option Node) :
    Prop where
  directory : d.IsDirectory parent.place
  free : ¬ d.IsDirectory (parent.place ++ [temporary])
  located : d'.locate (parent.join temporary) = .ok (parent.place ++ [temporary])
  there : HasEntry d' parent.place temporary new
  touches : Touches parent.place [temporary] d d'

theorem hasTemporary_begin {goal : Location} (htemporary : IsEntryName temporary)
    (hgoal : d.locate (parent.join temporary) = .ok goal) (hnot : ¬ d.IsDirectory goal) :
    HasTemporary parent temporary d d (d.find? (parent.place ++ [temporary])) := by
  have hentry := parent.isEntryOf_join htemporary
  have hdirectory := isDirectory_of_locate hentry hgoal
  obtain rfl := (locate_eq_place hgoal).trans hentry.place
  exact ⟨hdirectory, hnot, hgoal, ⟨hdirectory, rfl, hnot⟩, .refl _ _ _⟩

/-- The temporary file is made, written or removed. -/
theorem HasTemporary.put (h : HasTemporary parent temporary d d' old)
    (hnew : ∀ entries, new ≠ some (.directory entries))
    (hdone : ∃ goal, d'.locate (parent.join temporary) = .ok goal ∧ ¬ d'.IsDirectory goal ∧
      d'' = d'.put new goal) : HasTemporary parent temporary d d'' new := by
  rcases hdone with ⟨goal, hgoal, hnot, rfl⟩
  rw [h.located, Except.ok.injEq] at hgoal
  subst hgoal
  have ⟨hentry, htouches⟩ := put_entry h.there.directory hnot hnew
  refine ⟨h.directory, h.free, ?_, hentry, h.touches.trans htouches (by simp)⟩
  exact locate_mono (fun q hq => isDirectory_put new hnot hq) h.located

/-- Nothing is made on the way to a directory that is there. -/
theorem Touches.keeps {place : Location} {names : List String} (h : Touches place names d d')
    (hplace : d.IsDirectory place) (hq : ∀ name ∈ names, q ≠ place ++ [name]) : d.Keeps d' q := by
  rcases h q hq with hkept | ⟨hon, hnone, -⟩
  · exact hkept
  · exact absurd (isDirectory_above hplace hon) (not_isDirectory_of_none hnone)

/-- What has become of all places when the way has been made and then the temporary file and the
file have been touched. -/
theorem fates_of_touches (hpath : path.HasSibling parent name temporary)
    (hway : MakesWay path d d') (hplace : d'.IsDirectory parent.place)
    (htouches : Touches parent.place [temporary, name] d' mid)
    (hbefore : ¬ d'.IsDirectory (parent.place ++ [temporary]))
    (hafter : ¬ mid.IsDirectory (parent.place ++ [temporary]))
    (hfile : d'.Keeps mid path.place ∨
      (¬ d'.IsDirectory path.place ∧ mid.find? path.place = some (.file content))) :
    Fates path content d mid := by
  intro q
  by_cases htemp : q = parent.place ++ [temporary]
  · subst htemp
    exact .temporary hpath.beside hpath.place (hway.not_isDirectory hbefore) hafter
  · have hkept : d'.Keeps mid q ∨ (q = path.place ∧ ¬ d'.IsDirectory path.place ∧
        mid.find? path.place = some (.file content)) := by
      by_cases hname : q = path.place
      · subst hname
        exact hfile.imp_right fun hnew => ⟨rfl, hnew⟩
      · rw [hpath.entry.place] at hname
        exact .inl (htouches.keeps hplace (by simp [htemp, hname]))
    rcases hkept with hkept | ⟨rfl, hnot, hnew⟩
    · rcases hway q with hkept' | hmade
      · exact .kept (hkept'.trans hkept)
      · exact .made ⟨hmade.missing, hkept.isDirectory_iff.2 hmade.made, hmade.stage⟩
    · exact .replaced rfl (hway.not_isDirectory hnot) hnew

/-- What has become of all places when only the temporary file has been touched. -/
theorem HasTemporary.fates (h : HasTemporary parent temporary d' mid new)
    (hpath : path.HasSibling parent name temporary) (hway : MakesWay path d d') :
    Fates path content d mid := by
  have htouches := h.touches.trans (.refl _ [temporary, name] mid) (by simp)
  refine fates_of_touches hpath hway h.directory htouches h.free h.there.noDirectory (.inl ?_)
  rw [hpath.entry.place]
  exact h.touches.keeps h.directory (by simpa using hpath.ne.symm)

/-- Whether nothing has happened but that the temporary file has been made and moved over the
file. -/
structure HasMoved (parent path : Path) (temporary name : String) (content : Content)
    (d d' : Disk) : Prop where
  directory : d.IsDirectory parent.place
  freeTemporary : ¬ d.IsDirectory (parent.place ++ [temporary])
  free : ¬ d.IsDirectory path.place
  touches : Touches parent.place [temporary, name] d d'
  located : d'.locate path = .ok path.place
  there : d'.find? path.place = some (.file content)
  gone : d'.find? (parent.place ++ [temporary]) = none

theorem HasTemporary.rename (h : HasTemporary parent temporary d d' (some (.file content)))
    (hpath : path.HasSibling parent name temporary)
    (hdone : d'.Done (.rename (parent.join temporary) path) d'') :
    HasMoved parent path temporary name content d d'' := by
  rcases hdone with ⟨start, goal, moved, hstart, hgoal, hmoved, hfree, hput⟩
  rw [h.located, Except.ok.injEq] at hstart
  subst hstart
  rw [h.there.there] at hmoved
  cases hmoved
  have hplace := hpath.entry.place
  have hne := hpath.ne
  obtain rfl := locate_eq_place hgoal
  rw [hplace] at hfree hput
  rcases move_entry h.there hfree hne hput with ⟨hnew, hgone, htouches⟩
  have hdirectories : ∀ q, d'.IsDirectory q → d''.IsDirectory q := by
    intro q hq
    rw [hput]
    have hfirst := isDirectory_put none h.there.noDirectory hq
    exact isDirectory_put _ (not_isDirectory_put hne.symm none hfree) hfirst
  refine ⟨h.directory, h.free, ?_, h.touches.trans htouches (by simp),
    locate_mono hdirectories hgoal, ?_, hgone⟩
  · rw [hplace]
    rwa [← (h.touches.keeps h.directory (by simpa using hne.symm)).isDirectory_iff]
  · rw [hplace, hnew]

/-- What has become of all places when the temporary file has been moved over the file. -/
theorem HasMoved.fates (h : HasMoved parent path temporary name content d' mid)
    (hpath : path.HasSibling parent name temporary) (hway : MakesWay path d d') :
    Fates path content d mid :=
  fates_of_touches hpath hway h.directory h.touches h.freeTemporary
    (not_isDirectory_of_none h.gone) (.inr ⟨h.free, h.there⟩)

/-- When the temporary file is gone again, there is no file that was not there before. -/
theorem HasTemporary.file (h : HasTemporary parent temporary d' mid none)
    (hway : MakesWay path d d') {c : Content} (hq : mid.find? q = some (.file c)) :
    d.find? q = some (.file c) := by
  have htemp : q ≠ parent.place ++ [temporary] := by
    rintro rfl
    rw [h.there.there] at hq
    cases hq
  exact hway.file ((h.touches.keeps h.directory (by simpa using htemp)).file_iff.1 hq)

end Disk

/-! ## What the path holds -/

namespace Disk

open Node

variable {d mid : Disk} {path : Path} {name : String} {content : Content}

/-- Whether a path holds what it held before: a file with its content, a directory, or nothing. A
path that goes up from a directory that was missing has led nowhere; now that it leads to its place,
it holds what has been there before, or a directory that was made on the way. -/
def IsIntact (path : Path) (d d' : Disk) : Prop :=
  (d'.node? path).map entry = (d.node? path).map entry ∨
    (¬ d.GoesUpInside path ∧
      ((d'.node? path).map entry = (d.find? path.place).map entry ∨ Makes path d d' path.place))

theorem IsIntact.eq (h : IsIntact path d mid) (hup : d.GoesUpInside path) :
    (mid.node? path).map entry = (d.node? path).map entry :=
  h.resolve_right fun hout => hout.1 hup

/-- A path that cannot be followed could not be followed before, when there were fewer
directories. -/
theorem isIntact_of_locate_error {fault : FileError}
    (hdirectories : ∀ q, d.IsDirectory q → mid.IsDirectory q)
    (hmid : mid.locate path = .error fault) : IsIntact path d mid := by
  cases hd : d.locate path with
  | error fault' => exact .inl (by rw [node?_eq_none_of_locate hmid, node?_eq_none_of_locate hd])
  | ok goal =>
    rw [locate_mono hdirectories hd] at hmid
    cases hmid

theorem isIntact_of_keeps (hdirectories : ∀ q, d.IsDirectory q → mid.IsDirectory q)
    (hkeeps : d.Keeps mid path.place) : IsIntact path d mid := by
  cases hmid : mid.locate path with
  | error fault => exact isIntact_of_locate_error hdirectories hmid
  | ok goal =>
    rw [IsIntact, node?_of_locate hmid]
    by_cases hup : d.GoesUpInside path
    · left
      cases hd : d.locate path with
      | ok goal' => rw [node?_of_locate hd, hkeeps]
      | error fault =>
        obtain rfl := locate_eq_place hmid
        have hnone : d.find? path.place = none := by
          apply Classical.byContradiction
          intro hthere
          rw [hup.locate hmid hthere hkeeps.isDirectory_iff.1] at hd
          cases hd
        rw [node?_eq_none_of_locate hd, hkeeps, hnone]
    · exact .inr ⟨hup, .inl hkeeps⟩

/-- No directory that is made on the way stands in the place of the file, unless the path goes up
from one that was missing. -/
theorem Makes.isIntact (h : Makes path d mid path.place) (hname : path.fileName? = some name) :
    IsIntact path d mid := by
  rcases isEntryOf_of_fileName? hname with ⟨-, parent, hparent, hentry⟩
  refine .inr ⟨fun hup => ?_, .inr h⟩
  rcases h.stage with ⟨parent', stage, hparent', hstage, hplace⟩
  obtain rfl := Option.some.inj (hparent.symm.trans hparent')
  have hmissing := h.missing
  rw [← hplace] at hmissing
  exact hup.place_ne hentry (steps_prefix_of_mem_stages hstage) hmissing hplace

/-- At every moment the path holds what it held before, or the new content. -/
theorem Fates.isIntact_or (h : Fates path content d mid) (hname : path.fileName? = some name) :
    IsIntact path d mid ∨ mid.node? path = some (.file content) := by
  have hdirectories : ∀ q, d.IsDirectory q → mid.IsDirectory q := fun q => h.isDirectory
  cases hmid : mid.locate path with
  | error fault => exact .inl (isIntact_of_locate_error hdirectories hmid)
  | ok goal =>
    cases h path.place with
    | kept hkeeps => exact .inl (isIntact_of_keeps hdirectories hkeeps)
    | made hmade => exact .inl (hmade.isIntact hname)
    | temporary htemp hplace =>
      -- The temporary file is another entry of the directory.
      rcases hasSibling_of_fileName? hname with ⟨parent, hpath⟩
      obtain rfl := Option.some.inj (hpath.beside.symm.trans htemp)
      rw [hpath.place, hpath.entry.place] at hplace
      simp [hpath.ne] at hplace
    | replaced _ _ hnew => exact .inr (by rw [node?_of_locate hmid, hnew])

/-- If no file is there that was not there before, the path holds what it held before. -/
theorem Fates.isIntact (h : Fates path content d mid) (hname : path.fileName? = some name)
    (hfiles : ∀ q c, mid.find? q = some (.file c) → d.find? q = some (.file c)) :
    IsIntact path d mid := by
  rcases h.isIntact_or hname with hintact | hnew
  · exact hintact
  · rcases node?_eq_some_iff.1 hnew with ⟨goal, hgoal, hthere⟩
    obtain rfl := locate_eq_place hgoal
    refine isIntact_of_keeps (fun q => h.isDirectory) ?_
    rw [Keeps, hthere, hfiles _ _ hthere]

end Disk

/-! ## Making the way -/

namespace Journal

open Disk Node

variable {start j j' : Journal} {path : Path} {content : Content}

/-- At every moment nothing but directories on the way has been made. -/
theorem makeParent_passes {outcome : Except Error Unit}
    (hj : start.Passes (MakesWay path start.disk) j)
    (h : j.makeParent path = (outcome, j')) : start.Passes (MakesWay path start.disk) j' := by
  rcases makeParent_or h with ⟨-, -, rfl⟩ | ⟨parent, o, hparent, -, hway, -⟩
  · exact hj
  · rcases makeWay_or hway with ⟨n, -, -, rfl⟩ | ⟨fault, -, -, -, rfl⟩ | ⟨-, hstages⟩
    · exact hj
    · exact hj
    · refine makeDirectories_induction (fun stage hstage mid made hmid hmade => ?_) hj hstages
      exact hmid.perform hmade (hmid.disk.makeDirectory hparent hstage (perform_journal hmade))

/-! ## Replacing a file -/

section Replacement

variable {parent : Path} {name temporary : String} {outcome : Except Error Unit}

/-- A temporary file that is there can be removed. -/
theorem perform_remove_of_hasTemporary {before : Disk} {c : Content}
    (h : HasTemporary parent temporary before j.disk (some (.file c))) :
    j.perform (.remove (parent.join temporary)) = .ok (j.discard (parent.join temporary)) ∧
      HasTemporary parent temporary before (j.discard (parent.join temporary)).disk none := by
  have hremove : j.perform (.remove (parent.join temporary)) =
      .ok (j.discard (parent.join temporary)) := by
    rw [discard]
    simp [Journal.perform, Disk.perform, h.located, h.there.there, Except.map, bind, Except.bind,
      pure, Except.pure]
  exact ⟨hremove, h.put (by simp) (perform_journal hremove)⟩

/-- What a replacement comes to in the end: the file has the new content and the temporary file is
gone, or no file is there that was not there before. -/
def Ends (path temporary : Path) (content : Content) (d : Disk) (outcome : Except Error Unit)
    (d' : Disk) : Prop :=
  (outcome = .ok () → d'.node? path = some (.file content) ∧ d'.find? temporary.place = none) ∧
    (outcome ≠ .ok () → ∀ q c, d'.find? q = some (.file c) → d.find? q = some (.file c))

theorem replaceBy_passes (hpath : path.HasSibling parent name temporary)
    (hj : start.Passes (MakesWay path start.disk) j)
    (h : j.replaceBy (parent.join temporary) path content = (outcome, j')) :
    start.Passes (Fates path content start.disk) j' ∧
      Ends path (parent.join temporary) content start.disk outcome j'.disk := by
  have hway := hj.disk
  have hstart : start.Passes (Fates path content start.disk) j :=
    hj.imp fun mid hmid q => (hmid q).elim .kept .made
  have hfates : ∀ {mid new}, HasTemporary parent temporary j.disk mid new →
      Fates path content start.disk mid :=
    fun hmid => hmid.fates hpath hway
  -- When the temporary file is removed, all files are as they were before it was made.
  have hdiscarded : ∀ {mid : Journal} {c : Content} {e : Error},
      start.Passes (Fates path content start.disk) mid →
      HasTemporary parent temporary j.disk mid.disk (some (.file c)) →
      start.Passes (Fates path content start.disk) (mid.discard (parent.join temporary)) ∧
        Ends path (parent.join temporary) content start.disk (.error e)
          (mid.discard (parent.join temporary)).disk := by
    intro mid c e hmid hthere
    rcases perform_remove_of_hasTemporary hthere with ⟨hremove, hgone⟩
    exact ⟨hmid.perform hremove (hfates hgone), by simp, fun _ q c hq => hgone.file hway hq⟩
  rcases replaceBy_or h with ⟨fault, -, rfl, rfl⟩ | ⟨created, hcreated, hmore⟩
  · exact ⟨hstart, by simp, fun _ q c hq => hway.file hq⟩
  rcases perform_journal hcreated with ⟨goal, hgoal, hnot, -⟩
  have hempty := (hasTemporary_begin hpath.isName hgoal hnot).put (by simp)
    (perform_journal hcreated)
  have hpasses := hstart.perform hcreated (hfates hempty)
  rcases hmore with ⟨fault, -, rfl, rfl⟩ | ⟨written, hwritten, hmore⟩
  · exact hdiscarded hpasses hempty
  have hfull := hempty.put (by simp) (perform_journal hwritten)
  have hpasses := hpasses.perform hwritten (hfates hfull)
  rcases hmore with ⟨fault, -, rfl, rfl⟩ | ⟨hmoved, rfl⟩
  · exact hdiscarded hpasses hfull
  · have hend := hfull.rename hpath (perform_journal hmoved)
    refine ⟨hpasses.perform hmoved (hend.fates hpath hway), fun _ => ⟨?_, ?_⟩,
      fun hfault => absurd rfl hfault⟩
    · rw [node?_of_locate hend.located, hend.there]
    · rw [hpath.place, hend.gone]

theorem replaceFile_passes (hname : path.fileName? = some name)
    (h : j.replaceFile path content = (outcome, j')) :
    ∃ temporary, path.temporary? = some temporary ∧ j.Passes (Fates path content j.disk) j' ∧
      Ends path temporary content j.disk outcome j'.disk := by
  rcases hasSibling_of_fileName? hname with ⟨parent, hpath⟩
  refine ⟨_, hpath.beside, ?_⟩
  rcases replaceFile_or hpath.beside h with ⟨e, hmade, rfl⟩ | ⟨mid, hmade, hreplaced⟩
  · have hpasses := makeParent_passes (passes_begin (makesWay_refl path j.disk)) hmade
    exact ⟨hpasses.imp fun mid hmid q => (hmid q).elim .kept .made, by simp,
      fun _ q c hq => hpasses.disk.file hq⟩
  · have hpasses := makeParent_passes (passes_begin (makesWay_refl path j.disk)) hmade
    exact replaceBy_passes hpath hpasses hreplaced

/-- A file is replaced by changes that lead from disk to disk. After any number of them each place
is as it was, but for directories on the way that were missing, the temporary file and the file, and
the path holds what it held before or the new content. In the end it holds the new content and the
temporary file is gone, or, if the outcome is an error, it holds what it held before, and no file is
there that was not there before. -/
theorem replaceFile_atomic (hname : path.fileName? = some name)
    (h : j.replaceFile path content = (outcome, j')) :
    ∃ temporary changes, path.temporary? = some temporary ∧ j'.changes = j.changes ++ changes ∧
      (∀ k, ∃ mid, j.disk.performAll (changes.take k) = .ok mid ∧ Fates path content j.disk mid ∧
        (IsIntact path j.disk mid ∨ mid.node? path = some (.file content)) ∧
        (changes.length ≤ k → mid = j'.disk)) ∧
      (outcome = .ok () →
        j'.disk.node? path = some (.file content) ∧ j'.disk.find? temporary.place = none) ∧
      (outcome ≠ .ok () → IsIntact path j.disk j'.disk ∧
        ∀ q c, j'.disk.find? q = some (.file c) → j.disk.find? q = some (.file c)) := by
  rcases replaceFile_passes hname h with ⟨temporary, htemporary, hpasses, hok, hfault⟩
  have hend := hpasses.disk
  rcases hpasses with ⟨changes, hchanges, hall⟩
  refine ⟨temporary, changes, htemporary, hchanges, fun k => ?_, hok, fun hfailed => ?_⟩
  · rcases hall k with ⟨mid, hperform, hmid, hlast⟩
    exact ⟨mid, hperform, hmid, hmid.isIntact_or hname, hlast⟩
  · exact ⟨hend.isIntact hname (hfault hfailed), hfault hfailed⟩

/-- A directory stands in the place of the file, and a temporary file is left from before. -/
theorem replaceFile_atomic_wireless :
    let path : Path := ⟨"conf/wireless"⟩
    let d : Disk := .directory [("conf", .directory
      [("wireless", .directory []), (".wireless.tmp", .file (.text "old"))])]
    let after := ({ disk := d } : Journal).replaceFile path (.text "data")
    after.1.toOption = none ∧
      (after.2.disk.node? path).map entry = (d.node? path).map entry ∧
      ∀ q c, after.2.disk.find? q = some (.file c) → d.find? q = some (.file c) := by
  intro path d after
  have hname : path.fileName? = some "wireless" := by decide +kernel
  have hfails : after.1.toOption = none := by decide +kernel
  have hup : d.GoesUpInside path := goesUpInside_of_notMem (by decide +kernel)
  rcases replaceFile_atomic hname (rfl : _ = (after.1, after.2)) with ⟨-, -, -, -, -, -, hfault⟩
  have hfailed : after.1 ≠ .ok () := by
    intro hok
    rw [hok] at hfails
    cases hfails
  rcases hfault hfailed with ⟨hintact, hfiles⟩
  exact ⟨hfails, hintact.eq hup, hfiles⟩

/-- The stages of `x/..` are made before the file `x/../x`, which is then a directory. -/
theorem not_replaceFile_atomic :
    ¬ ∀ (j j' : Journal) (path : Path) (name : String) (content : Content)
      (outcome : Except Error Unit), path.fileName? = some name →
      j.replaceFile path content = (outcome, j') → outcome ≠ .ok () →
      (j'.disk.node? path).map entry = (j.disk.node? path).map entry := by
  intro h
  let path : Path := ⟨"x/../x"⟩
  let after := ({ disk := Disk.empty } : Journal).replaceFile path (.text "new")
  have hname : path.fileName? = some "x" := by decide +kernel
  have hfails : after.1.toOption = none := by decide +kernel
  have hsame := h { disk := Disk.empty } after.2 path "x" (.text "new") after.1 hname rfl
    fun hok => by
      rw [hok] at hfails
      cases hfails
  have hbefore : (Disk.empty.node? path).map entry = none := by decide +kernel
  have hafter : (after.2.disk.node? path).map entry = some .directory := by decide +kernel
  rw [hbefore, hafter] at hsame
  cases hsame

end Replacement

end Journal

end UnifiedConfig
