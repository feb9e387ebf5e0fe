import UnifiedConfig.Proofs.Places

/-!
# Files of a directory

Replacing a file concerns two entries of its directory at most, that of the file and that of the
temporary file beside it. The directories that are made before are on the way to the directory, and
none of them takes anything away.

* `makeDirectories_induction`: what is kept by every directory that is made on a way.
* `makeWay_or`, `makeParent_or`, `replaceBy_or`, `replaceFile_or`: where each part of a replacement
  ends, and with what.
* `replaceFile_spec`: what a replacement does to the files of a directory.
-/

namespace UnifiedConfig

open UnifiedConfig.Path

/-! ## The temporary file -/

namespace Path

/-- The name of the temporary file beside a file. -/
def temporaryName (name : String) : String :=
  "." ++ name ++ ".tmp"

theorem isEntryName_temporaryName {name : String} (h : IsEntryName name) :
    IsEntryName (temporaryName name) := by
  have hdot : (".").toList = ['.'] := by decide
  have htail : (".tmp").toList = ['.', 't', 'm', 'p'] := by decide
  have hlist : (temporaryName name).toList = '.' :: (name.toList ++ ['.', 't', 'm', 'p']) := by
    simp [temporaryName, hdot, htail]
  have hne : ∀ text : String, text.toList.length < 5 → temporaryName name ≠ text := by
    rintro text hlength rfl
    simp [hlist] at hlength
    omega
  exact ⟨hne _ (by decide), hne _ (by decide), hne _ (by decide), by simp [hlist, h.2.2.2]⟩

theorem temporaryName_ne (name : String) : temporaryName name ≠ name := by
  intro h
  have hlength := congrArg (fun text : String => text.toList.length) h
  have hdot : (".").toList = ['.'] := by decide
  simp [temporaryName, hdot] at hlength
  omega

/-- The temporary file is in the directory of the file. -/
theorem temporary?_join (dir : Path) {name : String} (h : IsEntryName name) :
    ∃ (parent : Path) (k : Nat),
      (dir.join name).temporary? = some (parent.join (temporaryName name)) ∧
      dir.steps = parent.steps ++ List.replicate k .here := by
  obtain ⟨parent, k, hparent, hsteps⟩ := dir.parent?_join h
  exact ⟨parent, k, by simp [temporary?, dir.fileName?_join h, hparent, temporaryName], hsteps⟩

end Path

namespace Journal

open Disk Node

theorem perform_journal {j j' : Journal} {change : Change} (h : j.perform change = .ok j') :
    j.disk.Done change j'.disk := by
  unfold perform at h
  cases hdisk : j.disk.perform change with
  | error fault => simp [hdisk, Except.map] at h
  | ok d =>
    rw [hdisk] at h
    cases h
    exact perform_eq_ok hdisk

/-! ## The parts of a replacement -/

section Parts

variable {j j' : Journal} {path : Path}

/-- What every directory that is made keeps is kept by making those that do not exist yet. -/
theorem makeDirectories_induction {P : Journal → Prop} {paths : List Path}
    {outcome : Except FileError Unit}
    (hstep : ∀ path ∈ paths, ∀ mid made : Journal, P mid →
      mid.perform (.makeDirectory path) = .ok made → P made)
    (hj : P j) (h : j.makeDirectories paths = (outcome, j')) : P j' := by
  induction paths generalizing j with
  | nil =>
    cases h
    exact hj
  | cons path paths ih =>
    have hmore : ∀ path ∈ paths, ∀ mid made : Journal, P mid →
        mid.perform (.makeDirectory path) = .ok made → P made :=
      fun path hpath => hstep path (by simp [hpath])
    unfold makeDirectories at h
    split at h
    · cases h
      exact hj
    · exact ih hmore hj h
    · cases h
      exact hj
    · split at h
      · cases h
        exact hj
      · next made hmade => exact ih hmore (hstep path (by simp) j made hj hmade) h

/-- Nothing is made where something is found, or where the way ends before anything is missing. Else
the directories of all stages are made. -/
theorem makeWay_or {outcome : Except FileError Unit} (h : j.makeWay path = (outcome, j')) :
    (∃ n, j.disk.find path = .ok (some n) ∧ outcome = .ok () ∧ j' = j) ∨
      (∃ fault, j.disk.find path = .error fault ∧ fault ≠ .missing ∧ outcome = .error fault ∧
        j' = j) ∨
      ((j.disk.find path = .ok none ∨ j.disk.find path = .error .missing) ∧
        j.makeDirectories path.stages = (outcome, j')) := by
  unfold makeWay at h
  split at h
  · next n hfind =>
    cases h
    exact .inl ⟨n, hfind, rfl, rfl⟩
  · next hfind => exact .inr (.inr ⟨.inl hfind, h⟩)
  · next hfind => exact .inr (.inr ⟨.inr hfind, h⟩)
  · next fault hne hfind =>
    cases h
    exact .inr (.inl ⟨fault, hfind, fun heq => hne (heq ▸ rfl), rfl, rfl⟩)

/-- The directory of a file is made with the way to it, unless its path is empty. -/
theorem makeParent_or {outcome : Except Error Unit} (h : j.makeParent path = (outcome, j')) :
    ((∀ parent, path.parent? = some parent → parent.text = "") ∧ outcome = .ok () ∧ j' = j) ∨
      ∃ parent o, path.parent? = some parent ∧ parent.text ≠ "" ∧ j.makeWay parent = (o, j') ∧
        outcome = o.mapError fun fault => .file (.makeDirectory parent) fault := by
  unfold makeParent at h
  split at h
  · next hnone =>
    cases h
    exact .inl ⟨by simp [hnone], rfl, rfl⟩
  · next parent hparent =>
    split at h
    · next hempty =>
      cases h
      refine .inl ⟨fun other hother => ?_, rfl, rfl⟩
      rw [hparent] at hother
      cases hother
      exact hempty
    · next hne =>
      rcases hway : j.makeWay parent with ⟨o, made⟩
      rw [hway] at h
      refine .inr ⟨parent, o, hparent, hne, ?_⟩
      cases o <;> cases h <;> exact ⟨hway, rfl⟩

/-- A replacement by way of a temporary file ends at the first of its three changes that fails, and
the temporary file is removed if it has been made. -/
theorem replaceBy_or {temporary : Path} {content : Content} {outcome : Except Error Unit}
    (h : j.replaceBy temporary path content = (outcome, j')) :
    (∃ fault, j.perform (.create temporary) = .error fault ∧
      outcome = .error (.file (.createTemporary temporary) fault) ∧ j' = j) ∨
      ∃ created, j.perform (.create temporary) = .ok created ∧
        ((∃ fault, created.perform (.write temporary content) = .error fault ∧
          outcome = .error (.file (.writeTemporary temporary) fault) ∧
          j' = created.discard temporary) ∨
          ∃ written, created.perform (.write temporary content) = .ok written ∧
            ((∃ fault, written.perform (.rename temporary path) = .error fault ∧
              outcome = .error (.file (.replace path) fault) ∧
              j' = written.discard temporary) ∨
              written.perform (.rename temporary path) = .ok j' ∧ outcome = .ok ())) := by
  unfold replaceBy at h
  split at h
  · next fault hfault =>
    cases h
    exact .inl ⟨fault, hfault, rfl, rfl⟩
  · next created hcreated =>
    refine .inr ⟨created, hcreated, ?_⟩
    split at h
    · next fault hfault =>
      cases h
      exact .inl ⟨fault, hfault, rfl, rfl⟩
    · next written hwritten =>
      refine .inr ⟨written, hwritten, ?_⟩
      split at h
      · next fault hfault =>
        cases h
        exact .inl ⟨fault, hfault, rfl, rfl⟩
      · next moved hmoved =>
        cases h
        exact .inr ⟨hmoved, rfl⟩

/-- A replacement ends where the directory of the file cannot be made, or goes on by way of the
temporary file. -/
theorem replaceFile_or {temporary : Path} {content : Content} {outcome : Except Error Unit}
    (htemporary : path.temporary? = some temporary)
    (h : j.replaceFile path content = (outcome, j')) :
    (∃ e, j.makeParent path = (.error e, j') ∧ outcome = .error e) ∨
      ∃ mid, j.makeParent path = (.ok (), mid) ∧
        mid.replaceBy temporary path content = (outcome, j') := by
  unfold replaceFile at h
  rw [htemporary] at h
  rcases hmade : j.makeParent path with ⟨o, mid⟩
  rw [hmade] at h
  cases o with
  | error e =>
    cases h
    exact .inl ⟨e, rfl, rfl⟩
  | ok _ => exact .inr ⟨mid, rfl, h⟩

end Parts

/-! ## Making the way -/

section Way

variable {j j' : Journal} {dir : Path} {place : Location} {name : String}

/-- Directories that are made on the way to a directory concern no entry of it. -/
theorem keepsBut_makeDirectories {paths : List Path} {outcome : Except FileError Unit}
    (hs : j.disk.Stands dir place) (hpaths : ∀ path ∈ paths, path.steps <+: dir.steps)
    (h : j.makeDirectories paths = (outcome, j')) : KeepsBut place [] j.disk j'.disk := by
  refine makeDirectories_induction (P := fun mid => KeepsBut place [] j.disk mid.disk) ?_
    (.refl place [] _) h
  intro path hmem mid made hkeeps hmade
  obtain ⟨q, hq, hnone, hput⟩ := perform_journal hmade
  have hmid := hs.mono hkeeps.directories
  have hnot : ¬ mid.disk.IsDirectory path.place := by
    rintro ⟨entries, hentries⟩
    rw [← locate_eq_place hq, hnone] at hentries
    cases hentries
  have hway := hmid.inside.place_prefix (hpaths path hmem) hnot
  rw [← locate_eq_place hq, hmid.place_eq] at hway
  obtain ⟨rest, rfl⟩ := hway
  have hstage := @keepsBut_makeDirectory mid.disk q rest hnone
  rw [← hput] at hstage
  exact hkeeps.trans hstage (by simp)

/-- Making the way to a directory concerns no entry of it. -/
theorem keepsBut_makeWay {outcome : Except FileError Unit} (hs : j.disk.Stands dir place)
    (h : j.makeWay dir = (outcome, j')) : KeepsBut place [] j.disk j'.disk := by
  rcases makeWay_or h with ⟨n, -, -, rfl⟩ | ⟨fault, -, -, -, rfl⟩ | ⟨-, hmade⟩
  · exact .refl place [] _
  · exact .refl place [] _
  · exact keepsBut_makeDirectories hs (fun _ => steps_prefix_of_mem_stages) hmade

/-- Making the directory of a file concerns no entry of it. -/
theorem keepsBut_makeParent {outcome : Except Error Unit} (hs : j.disk.Stands dir place)
    (hname : IsEntryName name) (h : j.makeParent (dir.join name) = (outcome, j')) :
    KeepsBut place [] j.disk j'.disk := by
  obtain ⟨parent, k, hparent, hsteps⟩ := dir.parent?_join hname
  rcases makeParent_or h with ⟨-, -, rfl⟩ | ⟨other, o, hother, -, hway, -⟩
  · exact .refl place [] _
  · obtain rfl := Option.some.inj (hother.symm.trans hparent)
    exact keepsBut_makeWay (hs.parent hsteps) hway

end Way

/-! ## Replacing an entry -/

section Replacement

variable {dir parent : Path} {place : Location} {temporary name : String} {content : Content}

/-- A change of an entry keeps the others. -/
theorem keepsBut_entry {d d' : Disk} {new : Option Node} (hs : d.Stands dir place)
    (hname : IsEntryName name)
    (h : ∃ q, d.locate (dir.join name) = .ok q ∧ ¬ d.IsDirectory q ∧ d' = d.put new q) :
    KeepsBut place [name] d d' ∧ d'.find? (place ++ [name]) = new := by
  obtain ⟨q, hq, hnot, rfl⟩ := h
  obtain ⟨⟨entries, hplace⟩, rfl⟩ := hs.locate_join hname hq
  exact ⟨keepsBut_put d new hnot, find?_put_self new hplace name⟩

theorem keepsBut_discard {j : Journal} (hs : j.disk.Stands dir place) (hname : IsEntryName name) :
    KeepsBut place [name] j.disk (j.discard (dir.join name)).disk := by
  unfold discard
  split
  · next j' hj' => exact (keepsBut_entry hs hname (perform_journal hj')).1
  · exact .refl place _ _

/-- A file that is moved to another entry of its directory stands there, and nowhere else. -/
theorem keepsBut_rename {d d' : Disk} (hs : d.Stands dir place) (hparent : d.Stands parent place)
    (htemporary : IsEntryName temporary) (hname : IsEntryName name) (hne : temporary ≠ name)
    (hcontent : d.find? (place ++ [temporary]) = some (.file content))
    (h : d.Done (.rename (parent.join temporary) (dir.join name)) d') :
    KeepsBut place [temporary, name] d d' ∧ d'.node? (dir.join name) = some (.file content) ∧
      d'.find? (place ++ [temporary]) = none := by
  obtain ⟨start, goal, moved, hstart, hgoal, hmoved, hnot, rfl⟩ := h
  obtain ⟨-, rfl⟩ := hparent.locate_join htemporary hstart
  obtain ⟨-, rfl⟩ := hs.locate_join hname hgoal
  rw [hcontent] at hmoved
  cases hmoved
  have hstay : ¬ d.IsDirectory (place ++ [temporary]) := by
    rintro ⟨entries, hentries⟩
    simp [hcontent] at hentries
  have hgone := keepsBut_put d none hstay
  -- The source goes first, which leaves the target as it was.
  have hfree : ¬ (d.put none (place ++ [temporary])).IsDirectory (place ++ [name]) := by
    rintro ⟨entries, hentries⟩
    rw [hgone.entries name (by simpa using Ne.symm hne)] at hentries
    exact hnot ⟨entries, hentries⟩
  have hthere := keepsBut_put (d.put none (place ++ [temporary])) (some (.file content)) hfree
  have hkeeps : KeepsBut place [temporary, name] d
      ((d.put none (place ++ [temporary])).put (some (.file content)) (place ++ [name])) :=
    ⟨fun q hq => hthere.directories q (hgone.directories q hq), fun other hother => by
      simp only [List.mem_cons, not_or] at hother
      rw [hthere.entries other (by simpa using hother.2.1),
        hgone.entries other (by simpa using hother.1)]⟩
  obtain ⟨hplace, -⟩ := hs.locate_join hname hgoal
  obtain ⟨old, hold⟩ := hplace
  obtain ⟨entries, hentries⟩ := hgone.directories place ⟨old, hold⟩
  refine ⟨hkeeps, ?_, ?_⟩
  · rw [(hs.mono hkeeps.directories).node?_join hname]
    obtain ⟨hnull, hsize, hsteps⟩ := locateFrom_of_locate hgoal
    exact ⟨⟨hnull, hsize, fun _ hmem => size_of_locateFrom hsteps hmem⟩,
      find?_put_self _ hentries name⟩
  · rw [hthere.entries temporary (by simpa using hne)]
    exact find?_put_self none hold temporary

/-- What a replacement by way of a temporary file does to the entries of the directory. -/
theorem replaceBy_spec {j j' : Journal} {outcome : Except Error Unit}
    (hs : j.disk.Stands dir place) (hparent : j.disk.Stands parent place)
    (htemporary : IsEntryName temporary) (hname : IsEntryName name) (hne : temporary ≠ name)
    (h : j.replaceBy (parent.join temporary) (dir.join name) content = (outcome, j')) :
    KeepsBut place [temporary, name] j.disk j'.disk ∧
      (outcome = .ok () → j'.disk.node? (dir.join name) = some (.file content) ∧
        j'.disk.find? (place ++ [temporary]) = none) ∧
      (outcome ≠ .ok () → KeepsBut place [temporary] j.disk j'.disk) := by
  -- Where it fails, nothing but the temporary file has been touched.
  have hfailed : ∀ {e : Error} {mid : Journal}, KeepsBut place [temporary] j.disk mid.disk →
      KeepsBut place [temporary, name] j.disk mid.disk ∧
        ((.error e : Except Error Unit) = .ok () →
          mid.disk.node? (dir.join name) = some (.file content) ∧
            mid.disk.find? (place ++ [temporary]) = none) ∧
        ((.error e : Except Error Unit) ≠ .ok () → KeepsBut place [temporary] j.disk mid.disk) :=
    fun hkeeps => ⟨hkeeps.trans (.refl place _ _) (by simp), by simp, fun _ => hkeeps⟩
  rcases replaceBy_or h with ⟨fault, -, rfl, rfl⟩ | ⟨created, hcreated, hmore⟩
  · exact hfailed (.refl place _ _)
  have hcreate := (keepsBut_entry hparent htemporary (perform_journal hcreated)).1
  have hparent := hparent.mono hcreate.directories
  have hs := hs.mono hcreate.directories
  rcases hmore with ⟨fault, -, rfl, rfl⟩ | ⟨written, hwritten, hmore⟩
  · exact hfailed (hcreate.trans (keepsBut_discard hparent htemporary) (by simp))
  have hwrite := keepsBut_entry hparent htemporary (perform_journal hwritten)
  have hboth := hcreate.trans hwrite.1 (by simp)
  have hparent := hparent.mono hwrite.1.directories
  have hs := hs.mono hwrite.1.directories
  rcases hmore with ⟨fault, -, rfl, rfl⟩ | ⟨hmoved, rfl⟩
  · exact hfailed (hboth.trans (keepsBut_discard hparent htemporary) (by simp))
  · have hrename := keepsBut_rename hs hparent htemporary hname hne hwrite.2
      (perform_journal hmoved)
    exact ⟨hboth.trans hrename.1 (by simp), fun _ => hrename.2, fun hfault => absurd rfl hfault⟩

/-- What replacing a file does: its directory stays where it is, no other file of it is concerned
but the temporary one, and the file has the new content and the temporary one is gone, or the file
is what it was if the outcome is an error. -/
theorem replaceFile_spec {j j' : Journal} {outcome : Except Error Unit}
    (hinside : j.disk.GoesUpInside dir) (hname : IsEntryName name)
    (h : j.replaceFile (dir.join name) content = (outcome, j')) :
    j'.disk.GoesUpInside dir ∧
      (∀ other, IsEntryName other → other ≠ temporaryName name → other ≠ name ∨ outcome ≠ .ok () →
        j'.disk.node? (dir.join other) = j.disk.node? (dir.join other)) ∧
      (outcome = .ok () → j'.disk.node? (dir.join name) = some (.file content) ∧
        j'.disk.node? (dir.join (temporaryName name)) = none) := by
  have hs : j.disk.Stands dir dir.place := ⟨hinside, rfl⟩
  obtain ⟨parent, k, htemporary, hsteps⟩ := dir.temporary?_join hname
  rcases replaceFile_or htemporary h with ⟨e, hmade, rfl⟩ | ⟨mid, hmade, hreplaced⟩
  · have hkeeps := keepsBut_makeParent hs hname hmade
    exact ⟨hinside.mono hkeeps.directories,
      fun other hother _ _ => hkeeps.node?_join hs hother (by simp), by simp⟩
  · have hkeeps := keepsBut_makeParent hs hname hmade
    have hmid := hs.mono hkeeps.directories
    obtain ⟨hall, hok, hfault⟩ := replaceBy_spec hmid (hmid.parent hsteps)
      (isEntryName_temporaryName hname) hname (temporaryName_ne name) hreplaced
    have hend := hmid.mono hall.directories
    refine ⟨hend.inside, fun other hother htmp hor => ?_, fun ho => ?_⟩
    · rw [← hkeeps.node?_join hs hother (by simp)]
      rcases hor with hne | hfailed
      · exact hall.node?_join hmid hother (by simp [htmp, hne])
      · exact (hfault hfailed).node?_join hmid hother (by simpa using htmp)
    · refine ⟨(hok ho).1, ?_⟩
      rw [Option.eq_none_iff_forall_ne_some]
      intro n hn
      rw [hend.node?_join (isEntryName_temporaryName hname), (hok ho).2] at hn
      cases hn.2

end Replacement

end Journal

end UnifiedConfig
