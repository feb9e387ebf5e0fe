import UnifiedConfig.Proofs.Files

/-!
# The way to a place

A plain path never goes up, and so it names a place, whatever stands there. It can be followed as
far as there are directories, unless it cannot be used at all, and if no file stands on the way,
then nothing but missing directories can be in the way.

* `Touches`: what is as it was, when some entries of a directory have changed.
* `locate_or`: where a plain path leads.
* `hasWay_of_find`: no file stands on the way to a file that can be read or is missing.
-/

namespace UnifiedConfig

open UnifiedConfig.Path

/-- Whether a fault lies in a path itself, and not in what stands along it. -/
def FileError.IsOfPath : FileError → Prop
  | .nameTooLong | .nullCharacter => True
  | _ => False

/-- Whether an error is that a path cannot be used at all. -/
def Error.IsOfPath : Error → Prop
  | .file _ fault => fault.IsOfPath
  | _ => False

instance (fault : FileError) : Decidable fault.IsOfPath :=
  match fault with
  | .nameTooLong | .nullCharacter => .isTrue trivial
  | .missing | .notADirectory | .isADirectory | .alreadyExists | .busy | .notText => .isFalse id

instance (e : Error) : Decidable e.IsOfPath :=
  match e with
  | .file _ fault => inferInstanceAs (Decidable fault.IsOfPath)
  | .selector _ | .foreignSection _ | .line .. | .notFound _ | .refused _ => .isFalse id

/-- Whether a path leads to a place without going up. -/
def Path.GoesTo (path : Path) (place : Location) : Prop :=
  .up ∉ path.steps ∧ Disk.downs path.steps = place

namespace Disk

open Node

/-! ## What is touched -/

/-- Whether all is as it was, but for some entries of a directory. The directories on the way to it
may have been made where they were missing. -/
def Touches (place : Location) (names : List String) (d d' : Disk) : Prop :=
  ∀ q, (∀ name ∈ names, q ≠ place ++ [name]) →
    (d'.find? q).map entry = (d.find? q).map entry ∨
      (q <+: place ∧ d.find? q = none ∧ d'.IsDirectory q)

theorem isDirectory_iff {d : Disk} {q : Location} :
    d.IsDirectory q ↔ (d.find? q).map entry = some .directory := by
  unfold IsDirectory
  cases d.find? q with
  | none => simp
  | some n => cases n <;> simp [entry]

/-- Nothing is below what is no directory. -/
theorem find?_below {d : Disk} {q : Location} (h : ¬ d.IsDirectory q) (name : String)
    (rest : Location) : d.find? (q ++ name :: rest) = none := by
  rw [find?_append]
  cases hfind : d.find? q with
  | none => rfl
  | some n =>
    cases n with
    | file content => rfl
    | directory entries => exact absurd ⟨entries, hfind⟩ h

variable {place : Location} {names more : List String} {d d' d'' : Disk}

theorem Touches.refl (place : Location) (names : List String) (d : Disk) :
    Touches place names d d :=
  fun _ _ => .inl rfl

theorem Touches.trans (h : Touches place names d d') (h' : Touches place more d' d'')
    (hsub : names ⊆ more) : Touches place more d d'' := by
  intro q hq
  rcases h q fun name hname => hq name (hsub hname) with hkept | ⟨hon, hnone, hmade⟩
  · rcases h' q hq with hkept' | ⟨hon, hnone, hmade⟩
    · exact .inl (hkept'.trans hkept)
    · rw [hnone] at hkept
      exact .inr ⟨hon, by simpa using hkept.symm, hmade⟩
  · rcases h' q hq with hkept' | ⟨-, hnone', -⟩
    · rw [isDirectory_iff, ← hkept', ← isDirectory_iff] at hmade
      exact .inr ⟨hon, hnone, hmade⟩
    · rcases hmade with ⟨entries, hentries⟩
      rw [hnone'] at hentries
      cases hentries

/-- A directory that is elsewhere than on the way has been there before. -/
theorem Touches.isDirectory_iff {q : Location} (h : Touches place names d d')
    (hq : ∀ name ∈ names, q ≠ place ++ [name]) (hway : ¬ q <+: place) :
    d'.IsDirectory q ↔ d.IsDirectory q := by
  rcases h q hq with hkept | ⟨hon, -⟩
  · rw [Disk.isDirectory_iff, hkept, ← Disk.isDirectory_iff]
  · exact absurd hon hway

/-- Whether an entry of a directory that is there is some file, or nothing. -/
structure HasEntry (d : Disk) (place : Location) (name : String) (new : Option Node) : Prop where
  directory : d.IsDirectory place
  there : d.find? (place ++ [name]) = new
  noDirectory : ¬ d.IsDirectory (place ++ [name])

/-- What is put into a directory as a file, or as nothing, is there, and is all that is touched. -/
theorem put_entry {name : String} {new : Option Node} (hplace : d.IsDirectory place)
    (hnot : ¬ d.IsDirectory (place ++ [name])) (hnew : ∀ entries, new ≠ some (.directory entries)) :
    HasEntry (d.put new (place ++ [name])) place name new ∧
      Touches place [name] d (d.put new (place ++ [name])) := by
  rcases hplace with ⟨entries, hentries⟩
  have hself := find?_put_self new hentries name
  have hfree : ¬ (d.put new (place ++ [name])).IsDirectory (place ++ [name]) := by
    rintro ⟨es, hes⟩
    rw [hself] at hes
    exact hnew es hes
  refine ⟨⟨isDirectory_put new hnot ⟨entries, hentries⟩, hself, hfree⟩, ?_⟩
  intro q hq
  left
  by_cases hunder : place ++ [name] <+: q
  · -- Nothing is below the file, neither before nor after.
    rcases hunder with ⟨rest, rfl⟩
    cases rest with
    | nil => exact absurd (List.append_nil _) (hq name (by simp))
    | cons a rest => rw [find?_below hnot, find?_below hfree]
  · exact entry_find?_put new d hunder

/-- An entry that is no directory stays none when another one is put. -/
theorem not_isDirectory_put {name other : String} (hne : other ≠ name) (new : Option Node)
    (hnot : ¬ d.IsDirectory (place ++ [other])) :
    ¬ (d.put new (place ++ [name])).IsDirectory (place ++ [other]) := by
  rintro ⟨entries, hentries⟩
  rw [find?_put_of_ne new d place hne] at hentries
  exact hnot ⟨entries, hentries⟩

/-- A file that is moved within its directory is all that is touched. -/
theorem move_entry {name temporary : String} {content : Content}
    (hthere : HasEntry d place temporary (some (.file content)))
    (hfree : ¬ d.IsDirectory (place ++ [name])) (hne : temporary ≠ name)
    (h : d' = (d.put none (place ++ [temporary])).put (some (.file content)) (place ++ [name])) :
    d'.find? (place ++ [name]) = some (.file content) ∧ d'.find? (place ++ [temporary]) = none ∧
      Touches place [temporary, name] d d' := by
  subst h
  have ⟨hgone, hremoved⟩ := @put_entry place d temporary none hthere.directory
    hthere.noDirectory (by simp)
  have ⟨hmoved, hput⟩ := @put_entry place _ name (some (.file content)) hgone.directory
    (not_isDirectory_put hne.symm none hfree) (by simp)
  refine ⟨hmoved.there, ?_, ?_⟩
  · rw [find?_put_of_ne _ _ place hne]
    exact hgone.there
  · exact hremoved.trans (hput.trans (.refl place [temporary, name] _) (by simp)) (by simp)

/-- A directory that is made on the way to a place is all that is touched. -/
theorem touches_makeDirectory {parent rest : Location} {name : String}
    (hparent : d.IsDirectory parent) (hnone : d.find? (parent ++ [name]) = none) :
    Touches (parent ++ [name] ++ rest) [] d
      (d.put (some (.directory [])) (parent ++ [name])) := by
  intro q _
  by_cases hunder : parent ++ [name] <+: q
  · rcases hunder with ⟨below, rfl⟩
    cases below with
    | nil =>
      rcases hparent with ⟨entries, hentries⟩
      have hself := find?_put_self (some (.directory [])) hentries name
      rw [List.append_nil]
      exact .inr ⟨List.prefix_append _ _, hnone, [], hself⟩
    | cons a below =>
      left
      rw [find?_append d, hnone, find?_put_directory hnone]
      rfl
  · exact .inl (entry_find?_put _ d hunder)

/-! ## Following a plain path -/

theorem steps_of_text_eq {path : Path} (h : path.text = "") : path.steps = [] := by
  rw [steps_eq, pieces, h]
  decide

theorem downs_append (steps more : List Step) : downs (steps ++ more) = downs steps ++ downs more :=
  List.filterMap_append

theorem locateFrom_append (d : Disk) (place : Location) (steps more : List Step) :
    d.locateFrom place (steps ++ more) =
      d.locateFrom place steps >>= fun mid => d.locateFrom mid more := by
  induction steps generalizing place with
  | nil => rfl
  | cons step steps ih =>
    rw [List.cons_append, locateFrom, locateFrom]
    split
    · rfl
    · rfl
    · split
      · rfl
      · exact ih _

/-- A plain way to a directory can be followed unless a name is too long. -/
theorem locateFrom_downs_or {steps : List Step} (hup : .up ∉ steps)
    (h : d.IsDirectory (place ++ downs steps)) :
    d.locateFrom place steps = .ok (place ++ downs steps) ∨
      d.locateFrom place steps = .error .nameTooLong := by
  induction steps generalizing place with
  | nil => exact .inl (by simp [locateFrom, downs])
  | cons step steps ih =>
    have hrest : .up ∉ steps := fun hmem => hup (by simp [hmem])
    rcases isDirectory_of_append h with ⟨entries, hentries⟩
    rw [locateFrom, hentries]
    cases step with
    | here => exact ih hrest h
    | up => exact absurd (by simp) hup
    | down name =>
      by_cases hlong : name.utf8ByteSize > maxNameSize
      · exact .inr (by simp [stepFrom, hlong])
      · have hsplit : place ++ downs (.down name :: steps) = place ++ [name] ++ downs steps := by
          simp [downs]
        rw [hsplit] at h ⊢
        simpa only [stepFrom, if_neg hlong] using ih hrest h

/-- What a plain path is found to lead to stands at its place. -/
theorem find?_of_find {path : Path} {n : Option Node} (hpath : path.GoesTo place)
    (h : d.find path = .ok n) : d.find? place = n := by
  rcases hpath with ⟨hup, rfl⟩
  unfold find at h
  cases hgoal : d.locate path with
  | error fault => simp [hgoal, Except.map] at h
  | ok goal =>
    rw [locateFrom_eq_downs hup (locateFrom_of_locate hgoal).2.2] at hgoal
    simpa [hgoal, Except.map] using h

/-- One more step can be made from a directory unless the name in it is too long. -/
theorem locateFrom_last_or {last : Option Step} (h : d.IsDirectory place) (hup : last ≠ some .up) :
    d.locateFrom place last.toList = .ok (place ++ downs last.toList) ∨
      d.locateFrom place last.toList = .error .nameTooLong := by
  rcases h with ⟨entries, hentries⟩
  cases last with
  | none => exact .inl (by simp [locateFrom, downs])
  | some step =>
    cases step with
    | here => exact .inl (by simp [locateFrom, hentries, stepFrom, downs])
    | up => exact absurd rfl hup
    | down name =>
      by_cases hlong : name.utf8ByteSize > maxNameSize
      · exact .inr (by simp [locateFrom, hentries, stepFrom, hlong])
      · exact .inl (by simp [locateFrom, hentries, stepFrom, hlong, downs])

/-- A plain path can be followed if all but its last step leads to a directory, unless the path
cannot be used at all. -/
theorem locate_or {path : Path} {before : List Step} {last : Option Step} (hne : path.text ≠ "")
    (hsteps : path.steps = before ++ last.toList) (hup : .up ∉ path.steps)
    (h : d.IsDirectory (downs before)) : d.locate path = .ok (downs path.steps) ∨
      ∃ fault : FileError, fault.IsOfPath ∧ d.locate path = .error fault := by
  unfold locate
  split
  · exact .inr ⟨.nullCharacter, trivial, rfl⟩
  · split
    · exact .inr ⟨.nameTooLong, trivial, rfl⟩
    · rw [hsteps] at hup ⊢
      rw [locateFrom_append, downs_append]
      have hbefore : .up ∉ before := fun hmem => hup (by simp [hmem])
      have hlast : last ≠ some .up := fun hlast => hup (by simp [hlast])
      rcases @locateFrom_downs_or [] d before hbefore h with hok | hlong
      · rw [hok]
        rcases locateFrom_last_or h hlast with hok | hlong
        · exact .inl hok
        · exact .inr ⟨.nameTooLong, trivial, hlong⟩
      · exact .inr ⟨.nameTooLong, trivial, by rw [hlong]; rfl⟩

/-- A plain path to an entry can be followed if its directory is there. -/
theorem locate_join_or {dir : Path} {name : String} (hdir : dir.GoesTo place)
    (hname : IsEntryName name) (hplace : d.IsDirectory place) :
    d.locate (dir.join name) = .ok (place ++ [name]) ∨
      ∃ fault : FileError, fault.IsOfPath ∧ d.locate (dir.join name) = .error fault := by
  rcases hdir with ⟨hup, rfl⟩
  have hsteps := dir.steps_join hname
  have hor := @locate_or d (dir.join name) dir.steps (some (.down name)) (join_text_ne dir hname)
    (by simpa using hsteps) (by simpa [hsteps] using hup) hplace
  have hdowns : downs (dir.join name).steps = downs dir.steps ++ [name] := by
    rw [hsteps, downs_append]
    rfl
  rwa [hdowns] at hor

/-! ## Where the way is free -/

/-- Whether no file stands on the way to a place, or at the place itself. -/
def HasWay (d : Disk) (place : Location) : Prop :=
  ∀ q, q <+: place → ∀ content, d.find? q ≠ some (.file content)

theorem HasWay.root (h : d.HasWay place) : d.IsDirectory [] := by
  have hroot := h [] List.nil_prefix
  cases d with
  | file content => exact absurd rfl (hroot content)
  | directory entries => exact ⟨entries, rfl⟩

theorem Touches.hasWay (h : Touches place [] d d') (hway : d.HasWay place) : d'.HasWay place := by
  intro q hq content hcontent
  rcases h q (by simp) with hkept | ⟨-, -, entries, hentries⟩
  · rw [hcontent] at hkept
    cases hfind : d.find? q with
    | none => simp [hfind] at hkept
    | some n =>
      cases n with
      | file other => exact hway q hq other hfind
      | directory entries => simp [hfind, entry] at hkept
  · rw [hcontent] at hentries
    cases hentries

/-- Steps that end well, or where something is missing, have met no file before the last one. -/
theorem hasWay_of_locateFrom {start : Location} {steps : List Step} {name : String}
    (hup : .up ∉ steps) (h : ∀ fault, d.locateFrom start (steps ++ [.down name]) = .error fault →
      fault = .missing) {q : Location} (hq : q <+: downs steps) (content : Content) :
    d.find? (start ++ q) ≠ some (.file content) := by
  intro hcontent
  induction steps generalizing start q with
  | nil =>
    rw [List.prefix_nil.1 hq, List.append_nil] at hcontent
    have hfault := h .notADirectory (by simp [locateFrom, hcontent])
    cases hfault
  | cons step steps ih =>
    have hrest : .up ∉ steps := fun hmem => hup (by simp [hmem])
    rw [List.cons_append, locateFrom] at h
    cases hfind : d.find? start with
    | none =>
      rw [find?_append, hfind] at hcontent
      cases hcontent
    | some n =>
      rw [hfind] at h
      cases n with
      | file other => exact absurd (h .notADirectory rfl) (by decide)
      | directory entries =>
        cases step with
        | here => exact ih hrest h hq hcontent
        | up => exact absurd (by simp) hup
        | down a =>
          by_cases hlong : a.utf8ByteSize > maxNameSize
          · exact absurd (h .nameTooLong (by simp [stepFrom, hlong])) (by decide)
          · simp only [stepFrom, if_neg hlong] at h
            cases q with
            | nil =>
              rw [List.append_nil, hfind] at hcontent
              cases hcontent
            | cons b q =>
              rcases List.cons_prefix_cons.1 hq with ⟨rfl, hbelow⟩
              exact ih hrest h hbelow (by simpa using hcontent)

/-- Where a file can be read or is missing, no file stands on the way to it, and no directory in its
place. -/
theorem hasWay_of_find {dir : Path} {name : String} (hdir : dir.GoesTo place)
    (hname : IsEntryName name) (h : d.find (dir.join name) = .error .missing ∨
      ∃ n, d.find (dir.join name) = .ok n ∧ ∀ entries, n ≠ some (.directory entries)) :
    d.HasWay place ∧ ¬ d.IsDirectory (place ++ [name]) := by
  have hfault : ∀ fault, d.locate (dir.join name) = .error fault → fault = .missing := by
    intro fault hfault
    rw [find, hfault] at h
    simpa [Except.map] using h
  constructor
  · rcases hdir with ⟨hup, rfl⟩
    intro q hq content
    refine @hasWay_of_locateFrom d [] dir.steps name hup ?_ q hq content
    intro fault hlocate
    -- The path can be used at all, as something would else be wrong with it first.
    have hnull : '\x00' ∉ (dir.join name).text.toList := by
      intro hmem
      exact absurd (hfault .nullCharacter (by simp [locate, hmem])) (by decide)
    have hsize : ¬ (dir.join name).text.utf8ByteSize > maxPathSize := by
      intro hlong
      exact absurd (hfault .nameTooLong (by simp [locate, hnull, hlong])) (by decide)
    apply hfault
    rwa [locate, if_neg hnull, if_neg hsize, if_neg (join_text_ne dir hname),
      dir.steps_join hname]
  · intro hthere
    rcases locate_join_or hdir hname (isDirectory_of_append hthere) with hok | ⟨fault, hpath, he⟩
    · rcases hthere with ⟨entries, hentries⟩
      rw [find, hok] at h
      simp [Except.map, hentries] at h
    · rw [hfault fault he] at hpath
      exact hpath

end Disk

end UnifiedConfig
