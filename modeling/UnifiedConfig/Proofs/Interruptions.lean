import UnifiedConfig.Proofs.Atomicity
import UnifiedConfig.Proofs.Requests

/-!
# Commits that are interrupted

A commit goes through what is loaded by name and ends at the first configuration that it cannot
write. The tainted ones before have been written and are clean now; that one and all after it are
tainted as before, and their files are what they were. So the next commit takes up where this one
has ended, and comes to what one commit would have come to.

The file of a configuration is the one that stands at its place, in the directory that the path of
the store names. All of this is so for each path: also for one that goes up from directories that
are missing, and comes to lead to the place only when they are made.

* `fileIn?_of_replaceFile`: the files of a directory after one of them was replaced.
* `commitAll_hasEnded`: what a commit has done by the time that it ends.
* `commit_interrupted`: what a commit that is in error leaves, and what the next one makes of it.
-/

namespace UnifiedConfig

open UnifiedConfig.Path

/-! ## Files -/

namespace Disk

open Node

variable {d d' : Disk} {dir : Path} {name : String} {c : Content}

/-- The content of the file of a name in the directory that a path names, if there is such a
file. -/
def fileIn? (d : Disk) (dir : Path) (name : String) : Option Content :=
  match d.find? (dir.place ++ [name]) with
  | some (.file c) => some c
  | _ => none

theorem fileIn?_eq_some_iff :
    d.fileIn? dir name = some c ↔ d.find? (dir.place ++ [name]) = some (.file c) := by
  unfold fileIn?
  split
  · next other hother => simp [hother]
  · next hnone => simpa using hnone c

theorem fileIn?_congr (h : ∀ c, d'.find? (dir.place ++ [name]) = some (.file c) ↔
    d.find? (dir.place ++ [name]) = some (.file c)) : d'.fileIn? dir name = d.fileIn? dir name := by
  apply Option.ext
  intro c
  rw [fileIn?_eq_some_iff, fileIn?_eq_some_iff, h]

/-- What is found by the path of a file is in its directory. -/
theorem fileIn?_of_node? (hname : IsEntryName name)
    (h : d.node? (dir.join name) = some (.file c)) : d.fileIn? dir name = some c := by
  rcases node?_eq_some_iff.1 h with ⟨goal, hgoal, hthere⟩
  rwa [fileIn?_eq_some_iff, ← (dir.isEntryOf_join hname).place, ← locate_eq_place hgoal]

/-- A file can still be found by its path if it is still there, and so are all directories. -/
theorem node?_of_fileIn? (hname : IsEntryName name)
    (hdirectories : ∀ q, d.IsDirectory q → d'.IsDirectory q)
    (hfile : d'.fileIn? dir name = d.fileIn? dir name)
    (h : d.node? (dir.join name) = some (.file c)) :
    d'.node? (dir.join name) = some (.file c) := by
  have hthere := fileIn?_of_node? hname h
  rcases node?_eq_some_iff.1 h with ⟨goal, hgoal, -⟩
  refine node?_eq_some_iff.2 ⟨goal, locate_mono hdirectories hgoal, ?_⟩
  rwa [locate_eq_place hgoal, (dir.isEntryOf_join hname).place, ← fileIn?_eq_some_iff, hfile]

end Disk

namespace Store

open Disk Node

variable {dir : Path} {name other : String} {content : Content}

/-- Replacing the file of a configuration leaves the files of the others as they are, and its own
one too if the outcome is an error. -/
theorem fileIn?_of_replaceFile {j j' : Journal} {outcome : Except Error Unit}
    (hname : IsFileName name) (hother : IsFileName other)
    (h : j.replaceFile (dir.join name) content = (outcome, j'))
    (hkept : other ≠ name ∨ outcome ≠ .ok ()) :
    j'.disk.fileIn? dir other = j.disk.fileIn? dir other := by
  have hfile := dir.fileName?_join hname.isEntryName
  have hplace := (dir.isEntryOf_join hname.isEntryName).place
  rcases Journal.replaceFile_passes hfile h with ⟨temporary, htemporary, hpasses, -, hfault⟩
  apply fileIn?_congr
  intro c
  cases hpasses.disk (dir.place ++ [other]) with
  | kept hkeeps => exact hkeeps.file_iff
  | made hmade =>
    -- There was nothing, and now there is a directory.
    refine iff_of_false (fun hafter => not_isDirectory_of_file hafter hmade.made) ?_
    rw [hmade.missing]
    simp
  | temporary htemp hq =>
    -- No configuration has the name of a temporary file.
    rcases hasSibling_of_fileName? hfile with ⟨parent, hpath⟩
    obtain rfl := Option.some.inj (hpath.beside.symm.trans htemp)
    have hsame := hpath.entry.place.symm.trans hplace
    rw [hpath.place, (List.append_inj' hsame rfl).1, List.append_cancel_left_eq,
      List.singleton_inj] at hq
    exact absurd hq.symm (hother.ne_temporaryName name)
  | replaced hq _ hafter =>
    rw [hplace, List.append_cancel_left_eq, List.singleton_inj] at hq
    have hbefore := hfault (hkept.resolve_left fun hne => hne hq.symm) _ _ hafter
    rw [hafter, hbefore]

/-! ## What a commit has done -/

/-- What a commit has done by the time that it ends, given which names it has passed: the tainted
configurations of these names are written and clean, and all else is as it was. -/
structure Reaches (dir : Path) (passed : String → Bool) (l l' : Loaded) (d d' : Disk) : Prop where
  loaded : l' = l.map fun p => (p.1, if passed p.1 then p.2.markClean else p.2)
  directories : ∀ q, d.IsDirectory q → d'.IsDirectory q
  written : ∀ name c, (name, c) ∈ l → c.tainted = true → passed name = true →
    d'.node? (dir.join name) = some (.file (.text c.render))
  kept : ∀ name, IsFileName name →
    (∀ c, (name, c) ∈ l → c.tainted = true → passed name = false) →
    d'.fileIn? dir name = d.fileIn? dir name

/-- A commit that ends at the first configuration has done nothing to any. -/
theorem reaches_none {d d' : Disk} {l : Loaded} {passed : String → Bool}
    (hpassed : ∀ p ∈ l, passed p.1 = false)
    (hdirectories : ∀ q, d.IsDirectory q → d'.IsDirectory q)
    (hfiles : ∀ name, IsFileName name → d'.fileIn? dir name = d.fileIn? dir name) :
    Reaches dir passed l l d d' where
  loaded := by
    symm
    refine (List.map_congr_left fun p hp => ?_).trans (List.map_id l)
    simp [hpassed p hp]
  directories := hdirectories
  written other c hc _ hother := by
    rw [hpassed _ hc] at hother
    cases hother
  kept other hother _ := hfiles other hother

/-- A configuration that is passed first, and the others after it. -/
theorem Reaches.cons {d mid d' : Disk} {l l' : Loaded} {c : Config} {passed : String → Bool}
    (hname : IsFileName name) (hnew : name ∉ l.map (·.1)) (hpassed : passed name = true)
    (hdirectories : ∀ q, d.IsDirectory q → mid.IsDirectory q)
    (hwritten : c.tainted = true → mid.node? (dir.join name) = some (.file (.text c.render)))
    (hkept : ∀ other, IsFileName other → other ≠ name ∨ c.tainted = false →
      mid.fileIn? dir other = d.fileIn? dir other)
    (h : Reaches dir passed l l' mid d') :
    Reaches dir passed ((name, c) :: l) ((name, c.markClean) :: l') d d' where
  loaded := by simp [h.loaded, hpassed]
  directories q hq := h.directories q (hdirectories q hq)
  written other e he htainted hother := by
    rcases List.mem_cons.1 he with heq | he
    · -- The commit does not come back to what it has written.
      cases heq
      refine node?_of_fileIn? hname.isEntryName h.directories ?_ (hwritten htainted)
      exact h.kept name hname fun e he => absurd (List.mem_map_of_mem he) hnew
    · exact h.written other e he htainted hother
  kept other hother hnot := by
    rw [h.kept other hother fun e he => hnot e (by simp [he])]
    refine hkept other hother ?_
    by_cases heq : other = name
    · subst heq
      right
      have hclean := hnot c (by simp)
      rw [hpassed] at hclean
      simpa using hclean
    · exact .inl heq

/-- What a commit has done, given its outcome: it has passed all names, or those before the name of
a tainted configuration. -/
structure HasEnded (dir : Path) (outcome : Except Error Unit) (l l' : Loaded) (d d' : Disk) :
    Prop where
  ok : outcome = .ok () → Reaches dir (fun _ => true) l l' d d'
  fault : outcome ≠ .ok () → ∃ name c, (name, c) ∈ l ∧ c.tainted = true ∧
    Reaches dir (fun other => decide (other < name)) l l' d d'

theorem HasEnded.cons {d mid d' : Disk} {l l' : Loaded} {c : Config} {outcome : Except Error Unit}
    (hname : IsFileName name) (hless : ∀ p ∈ l, name < p.1)
    (hdirectories : ∀ q, d.IsDirectory q → mid.IsDirectory q)
    (hwritten : c.tainted = true → mid.node? (dir.join name) = some (.file (.text c.render)))
    (hkept : ∀ other, IsFileName other → other ≠ name ∨ c.tainted = false →
      mid.fileIn? dir other = d.fileIn? dir other)
    (h : HasEnded dir outcome l l' mid d') :
    HasEnded dir outcome ((name, c) :: l) ((name, c.markClean) :: l') d d' := by
  have hnew : name ∉ l.map (·.1) := Loaded.notMem_of_lt hless
  refine ⟨fun ho => (h.ok ho).cons hname hnew rfl hdirectories hwritten hkept, fun ho => ?_⟩
  rcases h.fault ho with ⟨n, e, he, htainted, hreaches⟩
  have hlt : name < n := hless _ he
  exact ⟨n, e, by simp [he], htainted,
    hreaches.cons hname hnew (decide_eq_true hlt) hdirectories hwritten hkept⟩

theorem commitAll_hasEnded {l l' : Loaded} {j j' : Journal} {outcome : Except Error Unit}
    (hsorted : l.Sorted) (hnames : ∀ p ∈ l, IsFileName p.1)
    (h : commitAll dir l j = (outcome, l', j')) :
    HasEnded dir outcome l l' j.disk j'.disk := by
  induction l generalizing j l' with
  | nil =>
    cases h
    exact ⟨fun _ => reaches_none (by simp) (fun _ h => h) fun _ _ => rfl,
      fun hfault => absurd rfl hfault⟩
  | cons p rest ih =>
    rcases p with ⟨name, c⟩
    have hname : IsFileName name := hnames (name, c) (by simp)
    have hmore : ∀ p ∈ rest, IsFileName p.1 := fun p hp => hnames p (by simp [hp])
    rcases List.pairwise_cons.1 hsorted with ⟨hless, htail⟩
    have hfile := dir.fileName?_join hname.isEntryName
    rcases commitAll_cons_cases h with ⟨e, htainted, hreplace, rfl, rfl⟩ |
      ⟨mid, rest', ⟨htainted, hreplace⟩ | ⟨huntainted, rfl⟩, hrest, rfl⟩
    · -- The commit ends here.
      rcases Journal.replaceFile_passes hfile hreplace with ⟨_, _, hpasses, -, -⟩
      refine ⟨fun ho => (by cases ho), fun _ => ⟨name, c, by simp, htainted, ?_⟩⟩
      refine reaches_none ?_ (fun q => hpasses.disk.isDirectory) fun other hother =>
        fileIn?_of_replaceFile hname hother hreplace (.inr (by simp))
      intro p hp
      rw [decide_eq_false_iff_not]
      rcases List.mem_cons.1 hp with rfl | hp
      · exact String.lt_irrefl name
      · exact fun hlt => String.lt_irrefl _ (String.lt_trans hlt (hless p hp))
    · rcases Journal.replaceFile_passes hfile hreplace with ⟨_, _, hpasses, hok, -⟩
      refine (ih htail hmore hrest).cons hname hless (fun q => hpasses.disk.isDirectory)
        (fun _ => (hok rfl).1) ?_
      intro other hother hor
      have hne : other ≠ name := hor.resolve_right (by simp [htainted])
      exact fileIn?_of_replaceFile hname hother hreplace (.inl hne)
    · exact (ih htail hmore hrest).cons hname hless (fun _ h => h) (by simp [huntainted])
        fun _ _ _ => rfl

/-! ## Commits -/

/-- Whether a configuration of a name is loaded and has changes to be written. -/
def IsTainted (s : Store) (name : String) : Prop :=
  ∃ c, (name, c) ∈ s.loaded ∧ c.tainted = true

theorem commit_hasEnded {s s' : Store} {d : Disk} {j : Journal} {outcome : Except Error Unit}
    (hs : s.Holds fun name _ => IsFileName name) (h : s.commit d = (outcome, s', j)) :
    HasEnded s.dir outcome s.loaded s'.loaded d j.disk :=
  commitAll_hasEnded hs.sorted (fun p hp => hs.entries p.1 p.2 hp) (commitAll_of_commit h).1

/-- What is written has its text. -/
theorem Reaches.fileIn? {d d' : Disk} {l l' : Loaded} {c : Config} {passed : String → Bool}
    (h : Reaches dir passed l l' d d') (hname : IsFileName name) (hc : (name, c) ∈ l)
    (htainted : c.tainted = true) (hpassed : passed name = true) :
    d'.fileIn? dir name = some (.text c.render) :=
  fileIn?_of_node? hname.isEntryName (h.written name c hc htainted hpassed)

/-- What has not been written can be read by its path as before. It could be read before as well,
unless its path goes up from a directory that was missing. -/
theorem Reaches.node?_iff {d d' : Disk} {l l' : Loaded} {passed : String → Bool}
    (h : Reaches dir passed l l' d d') (hname : IsFileName name)
    (hnot : ∀ c, (name, c) ∈ l → c.tainted = true → passed name = false) (content : Content) :
    (d.node? (dir.join name) = some (.file content) →
      d'.node? (dir.join name) = some (.file content)) ∧
    (d.GoesUpInside (dir.join name) → d'.node? (dir.join name) = some (.file content) →
      d.node? (dir.join name) = some (.file content)) := by
  have hkept := h.kept name hname hnot
  refine ⟨node?_of_fileIn? hname.isEntryName h.directories hkept, fun hup hafter => ?_⟩
  rcases node?_eq_some_iff.1 hafter with ⟨goal, hgoal, hthere⟩
  have hbefore : d.find? goal = some (.file content) := by
    rw [locate_eq_place hgoal, (dir.isEntryOf_join hname.isEntryName).place,
      ← fileIn?_eq_some_iff, ← hkept]
    exact fileIn?_of_node? hname.isEntryName hafter
  refine node?_eq_some_iff.2 ⟨goal, hup.locate hgoal (by simp [hbefore]) ?_, hbefore⟩
  exact fun hdirectory => absurd hdirectory (not_isDirectory_of_file hthere)

/-- What has been passed is clean, and the others are tainted as they were. -/
theorem Reaches.isTainted_iff {s s' : Store} {d d' : Disk} {passed : String → Bool}
    (h : Reaches dir passed s.loaded s'.loaded d d') {name : String} :
    s'.IsTainted name ↔ s.IsTainted name ∧ passed name = false := by
  unfold IsTainted
  rw [h.loaded]
  constructor
  · rintro ⟨c', hc', htainted⟩
    rcases List.mem_map.1 hc' with ⟨⟨n, c⟩, hc, heq⟩
    rcases Prod.mk.inj heq with ⟨rfl, rfl⟩
    cases hpassed : passed n with
    | true => simp [hpassed, Config.markClean] at htainted
    | false => exact ⟨⟨c, hc, by simpa [hpassed] using htainted⟩, rfl⟩
  · rintro ⟨⟨c, hc, htainted⟩, hpassed⟩
    exact ⟨c, List.mem_map.2 ⟨(name, c), hc, by simp [hpassed]⟩, htainted⟩

/-- What one commit makes of a file, and what a commit that has ended early and the next one make of
it: they write the same text, or leave the file as it was at first. -/
theorem Reaches.fileIn?_resumed {s s' : Store} {passed : String → Bool} {l₂ l₀ : Loaded}
    {d mid d₂ d₂' d₀ d₀' : Disk} (h : Reaches dir passed s.loaded s'.loaded d mid)
    (h₂ : Reaches dir (fun _ => true) s'.loaded l₂ d₂ d₂')
    (h₀ : Reaches dir (fun _ => true) s.loaded l₀ d₀ d₀') (hname : IsFileName name)
    (hkept₂ : ¬ s'.IsTainted name → d₂.fileIn? dir name = mid.fileIn? dir name)
    (hkept₀ : ¬ s.IsTainted name → d₀.fileIn? dir name = d.fileIn? dir name) :
    d₂'.fileIn? dir name = d₀'.fileIn? dir name := by
  -- What is not tainted any more is left by the next commit.
  have hrest (hclean : ¬ s'.IsTainted name) :
      d₂'.fileIn? dir name = mid.fileIn? dir name := by
    rw [h₂.kept name hname fun c hc htainted => absurd ⟨c, hc, htainted⟩ hclean, hkept₂ hclean]
  by_cases htainted : s.IsTainted name
  · rcases htainted with ⟨c, hc, hmark⟩
    rw [h₀.fileIn? hname hc hmark rfl]
    cases hpassed : passed name with
    | true =>
      have hclean : ¬ s'.IsTainted name := by simp [h.isTainted_iff, hpassed]
      rw [hrest hclean, h.fileIn? hname hc hmark hpassed]
    | false =>
      have hpending : (name, c) ∈ s'.loaded := by
        rw [h.loaded]
        exact List.mem_map.2 ⟨(name, c), hc, by simp [hpassed]⟩
      exact h₂.fileIn? hname hpending hmark rfl
  · have hclean : ¬ s'.IsTainted name := fun hmark => htainted (h.isTainted_iff.1 hmark).1
    rw [hrest hclean, h.kept name hname fun c hc hmark => absurd ⟨c, hc, hmark⟩ htainted,
      h₀.kept name hname fun c hc hmark => absurd ⟨c, hc, hmark⟩ htainted, hkept₀ htainted]

/-- A commit that is in error ends at a tainted configuration. Those before it that were tainted are
written and clean, it and those after it are tainted as they were, and the files of all that have
not been written are as they were. Once the next commit is not in error, the files of all
configurations are what one commit would have made them, if no files have changed in between but
those that are yet to be written. -/
theorem commit_interrupted {s s' : Store} {d : Disk} {j : Journal} {outcome : Except Error Unit}
    (hs : s.Holds fun name _ => IsFileName name) (h : s.commit d = (outcome, s', j))
    (hfault : outcome ≠ .ok ()) :
    ∃ name, s.IsTainted name ∧
      Reaches s.dir (fun other => decide (other < name)) s.loaded s'.loaded d j.disk ∧
      (∀ other, s'.IsTainted other ↔ s.IsTainted other ∧ ¬ other < name) ∧
      (∀ other, IsFileName other → (s.IsTainted other → ¬ other < name) → ∀ content,
        (d.node? (s.dir.join other) = some (.file content) →
          j.disk.node? (s.dir.join other) = some (.file content)) ∧
        (d.GoesUpInside (s.dir.join other) →
          j.disk.node? (s.dir.join other) = some (.file content) →
          d.node? (s.dir.join other) = some (.file content))) ∧
      ∀ d₂ s₂ j₂ d₀ s₀ j₀, s'.commit d₂ = (.ok (), s₂, j₂) → s.commit d₀ = (.ok (), s₀, j₀) →
        (∀ other, IsFileName other → ¬ s'.IsTainted other →
          d₂.fileIn? s.dir other = j.disk.fileIn? s.dir other) →
        (∀ other, IsFileName other → ¬ s.IsTainted other →
          d₀.fileIn? s.dir other = d.fileIn? s.dir other) →
        ∀ other, IsFileName other →
          j₂.disk.fileIn? s.dir other = j₀.disk.fileIn? s.dir other := by
  rcases (commit_hasEnded hs h).fault hfault with ⟨name, c, hc, htainted, hreaches⟩
  refine ⟨name, ⟨c, hc, htainted⟩, hreaches, fun other => ?_, fun other hother hnot => ?_, ?_⟩
  · rw [hreaches.isTainted_iff, decide_eq_false_iff_not]
  · refine hreaches.node?_iff hother fun e he hmark => ?_
    exact decide_eq_false_iff_not.2 (hnot ⟨e, he, hmark⟩)
  · intro d₂ s₂ j₂ d₀ s₀ j₀ h₂ h₀ hkept₂ hkept₀ other hother
    have hreaches₂ := (commit_hasEnded (hs.commit (fun _ _ h => h) h) h₂).ok rfl
    have hreaches₀ := (commit_hasEnded hs h₀).ok rfl
    rw [(commitAll_of_commit h).2] at hreaches₂
    exact hreaches.fileIn?_resumed hreaches₂ hreaches₀ hother (hkept₂ other hother)
      (hkept₀ other hother)

/-- A directory stands in the place of the second file, and is removed before the next commit. -/
theorem commit_interrupted_wireless :
    let network : Config :=
      { name := "network", tainted := true, sections := [{ type := "globals" }] }
    let wireless : Config :=
      { name := "wireless", tainted := true, sections := [{ type := "wifi" }] }
    let s : Store := { dir := ⟨"conf"⟩, loaded := [("network", network), ("wireless", wireless)] }
    let d : Disk := .directory [("conf", .directory [("wireless", .directory [])])]
    let failed := s.commit d
    let d₂ : Disk := failed.2.2.disk.put none ["conf", "wireless"]
    let d₀ : Disk := d.put none ["conf", "wireless"]
    failed.1.toOption = none ∧ (failed.2.1.commit d₂).1 = .ok () ∧ (s.commit d₀).1 = .ok () ∧
      ∀ other, IsFileName other →
        (failed.2.1.commit d₂).2.2.disk.fileIn? s.dir other =
          (s.commit d₀).2.2.disk.fileIn? s.dir other := by
  intro network wireless s d failed d₂ d₀
  have hs : s.Holds fun name _ => IsFileName name := by
    refine ⟨List.pairwise_pair.2 (by decide), fun name c hc => ?_⟩
    have hnames : ∀ p ∈ s.loaded, isConfigName p.1 = true ∧ p.1.toList.head? ≠ some '.' := by
      decide
    exact hnames (name, c) hc
  have hfails : failed.1.toOption = none := by decide +kernel
  have hnext : (failed.2.1.commit d₂).1.toOption = some () := by decide +kernel
  have honce : (s.commit d₀).1.toOption = some () := by decide +kernel
  have hpending : failed.2.1.loaded.find? "wireless" = some wireless := by decide +kernel
  have hok : ∀ x : Except Error Unit × Store × Journal, x.1.toOption = some () →
      x = (.ok (), x.2.1, x.2.2) := by
    rintro ⟨e | u, s', j⟩ ho
    · cases ho
    · rfl
  have hplace : s.dir.place = ["conf"] := by decide +kernel
  -- The file of another name is not concerned when the directory is removed.
  have hremoved : ∀ (e : Disk) (other : String), other ≠ "wireless" →
      Disk.fileIn? (e.put none ["conf", "wireless"]) s.dir other = Disk.fileIn? e s.dir other := by
    intro e other hne
    have hsame : (e.put none ["conf", "wireless"]).find? ["conf", other] =
        e.find? ["conf", other] := find?_put_of_ne none e ["conf"] hne
    refine fileIn?_congr fun c => ?_
    rw [hplace, List.singleton_append, hsame]
  have hfault : failed.1 ≠ .ok () := by
    intro heq
    rw [heq] at hfails
    cases hfails
  have hcommit : s.commit d = failed := rfl
  clear_value failed
  rcases commit_interrupted hs hcommit hfault with ⟨_, -, -, -, -, hresumed⟩
  have hall := hresumed d₂ _ _ d₀ _ _ (hok _ hnext) (hok _ honce)
  refine ⟨hfails, congrArg Prod.fst (hok _ hnext), congrArg Prod.fst (hok _ honce), ?_⟩
  refine hall (fun n hn hclean => hremoved _ n ?_) (fun n hn hclean => hremoved _ n ?_)
  · rintro rfl
    exact hclean ⟨wireless, Loaded.mem_of_find? hpending, rfl⟩
  · rintro rfl
    exact hclean ⟨wireless, by simp [s], rfl⟩

end Store

end UnifiedConfig
