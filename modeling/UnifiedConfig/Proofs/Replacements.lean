import UnifiedConfig.Proofs.Ways

/-!
# Replacing a file as a whole

Where no file stands on the way to a directory, and no directory in the place of a file of it, the
file can be replaced: what is missing on the way is made, and then nothing but a directory in the
place of the temporary file can be in the way. As there is none in a directory that has just been
made, either the file is replaced or nothing has been done, unless a path cannot be used at all.

* `makeDirectories_stage`, `makeDirectories_pathsFrom`: the way to a directory is made.
* `replaceBy_cases`: what writing to a temporary file and moving it comes to.
* `replaceFile_cases`: a file is replaced, or nothing has changed.
-/

namespace UnifiedConfig

open UnifiedConfig.Path

/-! ## Making the way -/

/-- The parent of a file leads where the directory does. -/
theorem Path.GoesTo.parent {dir parent : Path} {place : Location} {k : Nat}
    (h : dir.GoesTo place) (hsteps : dir.steps = parent.steps ++ List.replicate k .here) :
    parent.GoesTo place := by
  rcases h with ⟨hup, rfl⟩
  refine ⟨fun hmem => hup (by simp [hsteps, hmem]), ?_⟩
  rw [hsteps, Disk.downs_append]
  simp [Disk.downs]

theorem Path.endsInSlash_join (p : Path) {name : String} (h : IsEntryName name) :
    (p.join name).endsInSlash = false := by
  obtain ⟨front, hfront⟩ : ∃ front, (p.join name).text = front ++ name := by
    unfold join
    split
    · exact ⟨"", by simp⟩
    · split <;> exact ⟨_, rfl⟩
  rw [endsInSlash, String.endsWith_char_eq_getLast?, hfront, String.toList_append,
    List.getLast?_append]
  cases hlast : name.toList.getLast? with
  | none => exact absurd (by simpa using hlast) h.1
  | some c =>
    have hc : c ≠ '/' := by
      rintro rfl
      exact h.2.2.2 (List.mem_of_getLast? hlast)
    simpa using hc

namespace Journal

open Disk Node

variable {place : Location} {j j' : Journal}

/-- One stage of a way: its directory is there, or is made, unless its path cannot be used. -/
theorem makeDirectories_stage {path : Path} {paths : List Path} {before : List Step}
    {last : Option Step} {outcome : Except FileError Unit} (hne : path.text ≠ "")
    (hsteps : path.steps = before ++ last.toList) (hup : .up ∉ path.steps)
    (hbefore : j.disk.IsDirectory (downs before)) (hon : downs path.steps <+: place)
    (hway : j.disk.HasWay place) (h : j.makeDirectories (path :: paths) = (outcome, j')) :
    (∃ fault : FileError, outcome = .error fault ∧ fault.IsOfPath) ∨
      ∃ mid : Journal, mid.makeDirectories paths = (outcome, j') ∧
        mid.disk.IsDirectory (downs path.steps) ∧ Touches place [] j.disk mid.disk := by
  unfold makeDirectories at h
  rcases locate_or hne hsteps hup hbefore with hok | ⟨fault, hpath, hfault⟩
  · have hfind : j.disk.find path = .ok (j.disk.find? (downs path.steps)) := by
      rw [Disk.find, hok]
      rfl
    rw [hfind] at h
    cases hthere : j.disk.find? (downs path.steps) with
    | some n =>
      cases n with
      | file content => exact absurd hthere (hway _ hon content)
      | directory entries =>
        rw [hthere] at h
        exact .inr ⟨j, h, ⟨entries, hthere⟩, .refl place [] _⟩
    | none =>
      have hperform : j.perform (.makeDirectory path) = .ok
          { disk := j.disk.put (some (.directory [])) (downs path.steps)
            changes := j.changes ++ [.makeDirectory path] } := by
        simp [Journal.perform, Disk.perform, hok, hthere, bind, Except.bind, pure, Except.pure,
          Except.map]
      rw [hthere, hperform] at h
      rw [hsteps, downs_append] at h hthere hon ⊢
      -- As the way so far is there and this is not, the last step goes down.
      have hend : downs last.toList ≠ [] := by
        intro hnil
        rcases hbefore with ⟨entries, hentries⟩
        rw [hnil, List.append_nil, hentries] at hthere
        cases hthere
      obtain ⟨name, hlast⟩ : ∃ name, downs last.toList = [name] := by
        rcases last with _ | (_ | _ | name)
        · exact absurd rfl hend
        · exact absurd rfl hend
        · exact absurd rfl hend
        · exact ⟨name, rfl⟩
      rw [hlast] at h hthere hon ⊢
      rcases hbefore with ⟨entries, hentries⟩
      rcases hon with ⟨rest, rfl⟩
      exact .inr ⟨_, h, ⟨[], find?_put_self _ hentries name⟩,
        touches_makeDirectory ⟨entries, hentries⟩ hthere⟩
  · rw [Disk.find, hfault] at h
    cases h
    exact .inl ⟨fault, rfl, hpath⟩

/-- What is missing on the way along some pieces is made, from a directory on. -/
theorem makeDirectories_pathsFrom {walked rest : List String}
    {outcome : Except FileError Unit} (hslash : ∀ piece ∈ walked ++ rest, '/' ∉ piece.toList)
    (hup : .up ∉ (walked ++ rest).filterMap step?)
    (hplace : downs ((walked ++ rest).filterMap step?) = place)
    (hwalked : j.disk.IsDirectory (downs (walked.filterMap step?))) (hway : j.disk.HasWay place)
    (h : j.makeDirectories ((pathsFrom walked rest).filter (·.text ≠ "")) = (outcome, j')) :
    (∃ fault : FileError, outcome = .error fault ∧ fault.IsOfPath) ∨
      (outcome = .ok () ∧ j'.disk.IsDirectory place ∧ Touches place [] j.disk j'.disk) := by
  induction rest generalizing walked j with
  | nil =>
    cases h
    rw [List.append_nil] at hplace
    exact .inr ⟨rfl, hplace ▸ hwalked, .refl place [] _⟩
  | cons piece rest ih =>
    have hsplit : walked ++ piece :: rest = walked ++ [piece] ++ rest := List.append_cons ..
    rw [hsplit] at hslash hup hplace
    have hpieces : (ofPieces (walked ++ [piece])).pieces = walked ++ [piece] :=
      pieces_ofPieces (by simp) fun q hq => hslash q (List.mem_append_left rest hq)
    have hsteps : (ofPieces (walked ++ [piece])).steps = (walked ++ [piece]).filterMap step? := by
      rw [steps_eq, hpieces]
    rw [pathsFrom, List.filter_cons] at h
    split at h
    · next hne =>
      have hlast : (ofPieces (walked ++ [piece])).steps =
          walked.filterMap step? ++ (step? piece).toList := by
        rw [hsteps, List.filterMap_append]
        cases hpiece : step? piece <;> simp [hpiece]
      have hrest : (walked ++ [piece] ++ rest).filterMap step? =
          (ofPieces (walked ++ [piece])).steps ++ rest.filterMap step? := by
        rw [hsteps, List.filterMap_append]
      have hon : downs (ofPieces (walked ++ [piece])).steps <+: place := by
        rw [← hplace, hrest, downs_append]
        exact List.prefix_append _ _
      have hup' : .up ∉ (ofPieces (walked ++ [piece])).steps := by
        intro hmem
        exact hup (by rw [hrest]; exact List.mem_append_left _ hmem)
      rcases makeDirectories_stage (by simpa using hne) hlast hup' hwalked hon hway h with
        hfault | ⟨mid, hmid, hthere, htouches⟩
      · exact .inl hfault
      · rw [hsteps] at hthere
        rcases ih hslash hup hplace hthere (htouches.hasWay hway) hmid with
          hfault | ⟨hok, hend, hrest⟩
        · exact .inl hfault
        · exact .inr ⟨hok, hend, htouches.trans hrest (by simp)⟩
    · next hempty =>
      -- The empty path is where every way begins.
      refine ih hslash hup hplace ?_ hway h
      rw [← hsteps, steps_of_text_eq (by simpa using hempty)]
      exact hway.root

/-- The way to a place on which no file stands is made, unless a path cannot be used. -/
theorem makeWay_cases {dir : Path} {outcome : Except FileError Unit} (hdir : dir.GoesTo place)
    (hway : j.disk.HasWay place) (h : j.makeWay dir = (outcome, j')) :
    (∃ fault : FileError, outcome = .error fault ∧ (fault.IsOfPath ∨ j' = j)) ∨
      (outcome = .ok () ∧ j'.disk.IsDirectory place ∧ Touches place [] j.disk j'.disk) := by
  rcases makeWay_or h with ⟨n, hfind, rfl, rfl⟩ | ⟨fault, -, -, rfl, rfl⟩ | ⟨-, hstages⟩
  · -- What is found there is at the place, and so no file.
    have hthere := find?_of_find hdir hfind
    cases n with
    | file content => exact absurd hthere (hway _ (List.prefix_refl _) content)
    | directory entries => exact .inr ⟨rfl, ⟨entries, hthere⟩, .refl place [] _⟩
  · exact .inl ⟨fault, rfl, .inr rfl⟩
  · rcases @makeDirectories_pathsFrom place j j' [] dir.pieces outcome
      (fun _ hq => slash_notMem_of_mem_pieces hq) hdir.1 hdir.2 hway.root hway hstages with
      ⟨fault, hfault, hpath⟩ | hmade
    · exact .inl ⟨fault, hfault, .inl hpath⟩
    · exact .inr hmade

/-- There is nothing to make where the directory is there. -/
theorem makeWay_of_isDirectory {dir : Path} {outcome : Except FileError Unit}
    (hdir : dir.GoesTo place) (hne : dir.text ≠ "") (hplace : j.disk.IsDirectory place)
    (h : j.makeWay dir = (outcome, j')) : j' = j := by
  rcases makeWay_or h with ⟨n, -, -, rfl⟩ | ⟨fault, -, -, -, rfl⟩ | ⟨hfind, -⟩
  · rfl
  · rfl
  · -- Neither is nothing found there, nor is anything missing on the way.
    rcases hdir with ⟨hup, rfl⟩
    rcases hplace with ⟨entries, hentries⟩
    rcases @locate_or _ dir dir.steps none hne (by simp) hup ⟨entries, hentries⟩ with
      hok | ⟨fault, hpath, hfault⟩
    · rw [Disk.find, hok] at hfind
      simp [Except.map, hentries] at hfind
    · rw [Disk.find, hfault] at hfind
      rcases hfind with hfind | hfind <;> cases hfind
      exact hpath.elim

/-- The directory of a file is made with the way to it, unless a path cannot be used. -/
theorem makeParent_cases {dir : Path} {name : String} {outcome : Except Error Unit}
    (hdir : dir.GoesTo place) (hname : IsEntryName name) (hway : j.disk.HasWay place)
    (h : j.makeParent (dir.join name) = (outcome, j')) :
    (∃ e : Error, outcome = .error e ∧ (e.IsOfPath ∨ j' = j)) ∨
      (outcome = .ok () ∧ j'.disk.IsDirectory place ∧ Touches place [] j.disk j'.disk) := by
  rcases dir.parent?_join hname with ⟨parent, k, hparent, hsteps⟩
  have hgoes := hdir.parent hsteps
  rcases makeParent_or h with ⟨hempty, rfl, rfl⟩ | ⟨other, o, hother, -, hmade, rfl⟩
  · -- The directory is where every way begins.
    have hroot : place = [] := by
      rw [← hgoes.2, steps_of_text_eq (hempty parent hparent)]
      rfl
    exact .inr ⟨rfl, hroot ▸ hway.root, .refl place [] _⟩
  · obtain rfl := Option.some.inj (hother.symm.trans hparent)
    rcases makeWay_cases hgoes hway hmade with ⟨fault, rfl, hfault⟩ | ⟨rfl, hthere, htouches⟩
    · exact .inl ⟨_, rfl, hfault⟩
    · exact .inr ⟨rfl, hthere, htouches⟩

theorem makeParent_of_isDirectory {dir : Path} {name : String} {outcome : Except Error Unit}
    (hdir : dir.GoesTo place) (hname : IsEntryName name) (hplace : j.disk.IsDirectory place)
    (h : j.makeParent (dir.join name) = (outcome, j')) : j' = j := by
  rcases dir.parent?_join hname with ⟨parent, k, hparent, hsteps⟩
  rcases makeParent_or h with ⟨-, -, rfl⟩ | ⟨other, o, hother, hne, hmade, -⟩
  · rfl
  · obtain rfl := Option.some.inj (hother.symm.trans hparent)
    exact makeWay_of_isDirectory (hdir.parent hsteps) hne hplace hmade

/-! ## Replacing a file -/

section Replacement

variable {dir parent : Path} {name temporary : String} {content : Content}

/-- A file can be made in a directory that is there, unless a directory stands in its place or the
path cannot be used. -/
theorem perform_create_or {d : Disk} (hdir : dir.GoesTo place) (hname : IsEntryName name)
    (hplace : d.IsDirectory place) :
    (¬ d.IsDirectory (place ++ [name]) ∧ d.perform (.create (dir.join name)) =
        .ok (d.put (some (.file (.text ""))) (place ++ [name]))) ∨
      ∃ fault : FileError, d.perform (.create (dir.join name)) = .error fault ∧
        (fault.IsOfPath ∨ d.IsDirectory (place ++ [name])) := by
  rcases locate_join_or hdir hname hplace with hok | ⟨fault, hpath, hfault⟩
  · simp only [Disk.perform, hok, bind, Except.bind]
    split
    · next entries hentries => exact .inr ⟨_, rfl, .inr ⟨entries, hentries⟩⟩
    · next hnot =>
      refine .inl ⟨?_, rfl⟩
      rintro ⟨entries, hentries⟩
      exact hnot entries hentries
  · exact .inr ⟨fault, by simp [Disk.perform, hfault, bind, Except.bind], .inl hpath⟩

/-- A file that is there can be written, unless the path cannot be used. -/
theorem perform_write_or {d : Disk} (hdir : dir.GoesTo place) (hname : IsEntryName name)
    (hplace : d.IsDirectory place) {old : Content}
    (hthere : d.find? (place ++ [name]) = some (.file old)) :
    d.perform (.write (dir.join name) content) =
        .ok (d.put (some (.file content)) (place ++ [name])) ∨
      ∃ fault : FileError, d.perform (.write (dir.join name) content) = .error fault ∧
        fault.IsOfPath := by
  rcases locate_join_or hdir hname hplace with hok | ⟨fault, hpath, hfault⟩
  · exact .inl (by simp [Disk.perform, hok, hthere, bind, Except.bind, pure, Except.pure])
  · exact .inr ⟨fault, by simp [Disk.perform, hfault, bind, Except.bind], hpath⟩

/-- A file that is there can be moved within its directory, unless a path cannot be used. -/
theorem perform_rename_or {d : Disk} (hdir : dir.GoesTo place) (hparent : parent.GoesTo place)
    (hname : IsEntryName name) (htemporary : IsEntryName temporary) (hplace : d.IsDirectory place)
    (hthere : d.find? (place ++ [temporary]) = some (.file content))
    (hfree : ¬ d.IsDirectory (place ++ [name])) :
    d.perform (.rename (parent.join temporary) (dir.join name)) =
        .ok ((d.put none (place ++ [temporary])).put (some (.file content)) (place ++ [name])) ∨
      ∃ fault : FileError,
        d.perform (.rename (parent.join temporary) (dir.join name)) = .error fault ∧
          fault.IsOfPath := by
  have hdown : (dir.join name).leadsDown = true := by
    simp [leadsDown, dir.steps_join hname]
  have hslash := dir.endsInSlash_join hname
  rcases locate_join_or hparent htemporary hplace with hstart | ⟨fault, hpath, hfault⟩
  · rcases locate_join_or hdir hname hplace with hgoal | ⟨fault, hpath, hfault⟩
    · left
      simp only [Disk.perform, hstart, hgoal, bind, Except.bind, hdown, hthere, hslash,
        Bool.not_true, Bool.false_eq_true, if_false]
      split
      · next entries hentries => exact absurd ⟨entries, hentries⟩ hfree
      · rfl
    · exact .inr ⟨fault, by simp [Disk.perform, hstart, hfault, bind, Except.bind], hpath⟩
  · exact .inr ⟨fault, by simp [Disk.perform, hfault, bind, Except.bind], hpath⟩

/-- A file is replaced by way of a temporary one, unless a directory stands in the place of that or
a path cannot be used. -/
theorem replaceBy_cases {outcome : Except Error Unit} (hdir : dir.GoesTo place)
    (hparent : parent.GoesTo place) (hname : IsEntryName name)
    (htemporary : IsEntryName temporary) (hne : temporary ≠ name)
    (hplace : j.disk.IsDirectory place) (hfree : ¬ j.disk.IsDirectory (place ++ [name]))
    (h : j.replaceBy (parent.join temporary) (dir.join name) content = (outcome, j')) :
    (∃ e : Error, outcome = .error e ∧
      (e.IsOfPath ∨ (j' = j ∧ j.disk.IsDirectory (place ++ [temporary])))) ∨
      (outcome = .ok () ∧ Touches place [temporary, name] j.disk j'.disk ∧
        j'.disk.find? (place ++ [name]) = some (.file content) ∧
        j'.disk.find? (place ++ [temporary]) = none) := by
  have hfile : ∀ (c : Content) entries, some (Node.file c) ≠ some (.directory entries) := by simp
  have hfree := fun old => not_isDirectory_put hne.symm (some (.file content))
    (not_isDirectory_put hne.symm (some (.file old)) hfree)
  unfold replaceBy Journal.perform at h
  rcases perform_create_or hparent htemporary hplace with ⟨hnot, hok⟩ | ⟨fault, hfault, hor⟩
  · have ⟨hempty, hcreated⟩ := put_entry hplace hnot (hfile (.text ""))
    rw [hok] at h
    simp only [Except.map] at h
    rcases @perform_write_or place parent temporary content _ hparent htemporary hempty.directory _
      hempty.there with hok | ⟨fault, hfault, hpath⟩
    · have ⟨hfull, hwritten⟩ := put_entry hempty.directory hempty.noDirectory (hfile content)
      rw [hok] at h
      simp only at h
      rcases perform_rename_or hdir hparent hname htemporary hfull.directory hfull.there (hfree _)
        with hok | ⟨fault, hfault, hpath⟩
      · rw [hok] at h
        cases h
        have ⟨hmoved, hgone, htouches⟩ := move_entry hfull (hfree _) hne rfl
        exact .inr ⟨rfl, (hcreated.trans hwritten (by simp)).trans htouches (by simp), hmoved,
          hgone⟩
      · rw [hfault] at h
        cases h
        exact .inl ⟨_, rfl, .inl hpath⟩
    · rw [hfault] at h
      cases h
      exact .inl ⟨_, rfl, .inl hpath⟩
  · rw [hfault] at h
    cases h
    exact .inl ⟨_, rfl, hor.imp_right fun hthere => ⟨rfl, hthere⟩⟩

/-- Where the way to a file is free, replacing it writes it, or has no effect at all, unless a path
cannot be used. -/
theorem replaceFile_cases {outcome : Except Error Unit} (hdir : dir.GoesTo place)
    (hname : IsEntryName name) (hway : j.disk.HasWay place)
    (hfree : ¬ j.disk.IsDirectory (place ++ [name]))
    (h : j.replaceFile (dir.join name) content = (outcome, j')) :
    (∃ e : Error, outcome = .error e ∧ (e.IsOfPath ∨ j' = j)) ∨
      (outcome = .ok () ∧ Touches place [temporaryName name, name] j.disk j'.disk ∧
        j'.disk.find? (place ++ [name]) = some (.file content) ∧
        j'.disk.find? (place ++ [temporaryName name]) = none) := by
  rcases dir.temporary?_join hname with ⟨parent, k, htemporary, hsteps⟩
  have hlong : ∀ other : String, ¬ place ++ [other] <+: place := by
    intro other hon
    have hlength := hon.length_le
    rw [List.length_append, List.length_singleton] at hlength
    omega
  rcases replaceFile_or htemporary h with ⟨e, hmade, rfl⟩ | ⟨mid, hmade, hreplaced⟩
  · rcases makeParent_cases hdir hname hway hmade with ⟨e', he', hor⟩ | ⟨hok, -⟩
    · cases he'
      exact .inl ⟨e, rfl, hor⟩
    · cases hok
  · rcases makeParent_cases hdir hname hway hmade with ⟨e, he, -⟩ | ⟨-, hthere, htouches⟩
    · cases he
    · -- Entries of the directory are not among what has been made.
      have hkept : ∀ other, mid.disk.IsDirectory (place ++ [other]) →
          j.disk.IsDirectory (place ++ [other]) :=
        fun other => (htouches.isDirectory_iff (by simp) (hlong other)).1
      rcases replaceBy_cases hdir (hdir.parent hsteps) hname (isEntryName_temporaryName hname)
        (temporaryName_ne name) hthere (fun hd => hfree (hkept name hd)) hreplaced with
        ⟨e, rfl, hpath | ⟨rfl, hd⟩⟩ | ⟨rfl, hrest, hend⟩
      · exact .inl ⟨e, rfl, .inl hpath⟩
      · have hplace := isDirectory_of_append (hkept _ hd)
        exact .inl ⟨e, rfl, .inr (makeParent_of_isDirectory hdir hname hplace hmade)⟩
      · exact .inr ⟨rfl, htouches.trans hrest (by simp), hend⟩

end Replacement

end Journal

end UnifiedConfig
