import UnifiedConfig.Proofs.Commits

/-!
# What the writes of a commit leave

A commit replaces the files of the tainted configurations one after the other, by name. Each of
these writes takes the temporary file beside its file away, whatever it was. A configuration may be
named like a temporary file, and then the write of another one can undo what was written for it, or
remove a file that nobody has asked to change.

* `commitAll_files`: the files after a commit are those before it with each write made in turn.
* `writeAll_iff`, `commit_writes_iff`: a commit writes what is tainted and nothing else, if and only
  if every temporary file is free for it.
-/

namespace UnifiedConfig

open UnifiedConfig.Path

namespace Store

theorem isConfigName_temporaryName {name : String} (h : isConfigName name = true) :
    isConfigName (temporaryName name) = true := by
  have hentry := isEntryName_temporaryName (isEntryName_of_isConfigName h)
  have hdot : (".").toList = ['.'] := by decide
  have htail : (".tmp").toList = ['.', 't', 'm', 'p'] := by decide
  have hlist : (temporaryName name).toList = '.' :: (name.toList ++ ['.', 't', 'm', 'p']) := by
    simp [temporaryName, hdot, htail]
  -- What stands around the name holds no slash and no backslash.
  have hname : ∀ c ∈ name.toList, ¬ (c = '/' ∨ c = '\\') := by
    unfold isConfigName at h
    simp only [Bool.and_eq_true, Bool.not_eq_true', List.any_eq_false] at h
    intro c hc
    simpa using h.2 c hc
  simp only [isConfigName, hlist, Bool.and_eq_true, decide_eq_true_eq, Bool.not_eq_true',
    List.any_eq_false]
  refine ⟨⟨⟨hentry.1, hentry.2.1⟩, hentry.2.2.1⟩, ?_⟩
  intro c hc
  simp only [List.mem_cons, List.mem_append, List.not_mem_nil, or_false] at hc
  rcases hc with rfl | hc | rfl | rfl | rfl | rfl
  · decide
  · simpa using hname c hc
  all_goals decide

/-! ## Writes as changes of the files -/

/-- What stands at the files of a directory, by their names. -/
def filesOf (d : Disk) (dir : Path) (name : String) : Option Node :=
  d.node? (dir.join name)

/-- The files after the text of a configuration is written to one of them: the file holds the text,
and the temporary file beside it is gone. -/
def writeFile (files : String → Option Node) (name : String) (c : Config) :
    String → Option Node :=
  fun other =>
    if other = name then some (.file (.text c.render))
    else if other = temporaryName name then none
    else files other

/-- The files after all that is tainted is written, one configuration after the other. -/
def writeAll (files : String → Option Node) : Loaded → String → Option Node
  | [] => files
  | (name, c) :: rest => writeAll (if c.tainted then writeFile files name c else files) rest

/-- What a file is in the end is a matter of what it was, and of no other file. -/
theorem writeAll_congr {files files' : String → Option Node} {l : Loaded} {other : String}
    (h : files other = files' other) : writeAll files l other = writeAll files' l other := by
  induction l generalizing files files' with
  | nil => exact h
  | cons p rest ih =>
    apply ih
    split
    · simp only [writeFile, h]
    · exact h

/-- A replacement that is not in error writes its file, as far as entries of the directory go. -/
theorem replaceFile_files {dir : Path} {name : String} {c : Config}
    {j j' : Journal} (hs : j.disk.GoesUpInside dir) (hname : IsEntryName name)
    (h : j.replaceFile (dir.join name) (.text c.render) = (.ok (), j')) {other : String}
    (hother : IsEntryName other) :
    filesOf j'.disk dir other = writeFile (filesOf j.disk dir) name c other := by
  rcases Journal.replaceFile_spec hs hname h with ⟨-, hkept, hok⟩
  unfold writeFile
  split
  · next heq => rw [heq]; exact (hok rfl).1
  · next hne =>
    split
    · next heq => rw [heq]; exact (hok rfl).2
    · next htemporary => exact hkept other hother htemporary (.inl hne)

/-- The files after a commit that is not in error are those before it with each write made in
turn. -/
theorem commitAll_files {dir : Path} {l l' : Loaded} {j j' : Journal}
    (hs : j.disk.GoesUpInside dir) (hnames : ∀ p ∈ l, IsEntryName p.1)
    (h : commitAll dir l j = (.ok (), l', j')) {other : String} (hother : IsEntryName other) :
    filesOf j'.disk dir other = writeAll (filesOf j.disk dir) l other := by
  induction l generalizing j l' with
  | nil =>
    cases h
    rfl
  | cons p rest ih =>
    rcases p with ⟨name, c⟩
    have hname : IsEntryName name := hnames (name, c) (by simp)
    have hmore : ∀ p ∈ rest, IsEntryName p.1 := by
      intro p hp
      exact hnames p (by simp [hp])
    rcases commitAll_cons_eq_ok h with ⟨mid, rest', ⟨htainted, hreplace⟩ | ⟨huntainted, rfl⟩, hrest, -⟩
    · have hmid := (Journal.replaceFile_spec hs hname hreplace).1
      rw [ih hmid hmore hrest, writeAll, if_pos htainted]
      exact writeAll_congr (replaceFile_files hs hname hreplace hother)
    · rw [ih hs hmore hrest, writeAll, huntainted]
      rfl

end Store

/-! ## What a file is in the end -/

/-- Whether a configuration is loaded and tainted. -/
def Loaded.IsTainted (l : Loaded) (name : String) : Prop :=
  ∃ c, (name, c) ∈ l ∧ c.tainted = true

theorem Loaded.isTainted_cons {p : String × Config} {l : Loaded} {name : String} :
    Loaded.IsTainted (p :: l) name ↔ (name = p.1 ∧ p.2.tainted = true) ∨ l.IsTainted name := by
  constructor
  · rintro ⟨c, hmem, htainted⟩
    rcases List.mem_cons.1 hmem with rfl | hmem
    · exact .inl ⟨rfl, htainted⟩
    · exact .inr ⟨c, hmem, htainted⟩
  · rintro (⟨rfl, htainted⟩ | ⟨c, hmem, htainted⟩)
    · exact ⟨p.2, List.mem_cons_self, htainted⟩
    · exact ⟨c, List.mem_cons_of_mem p hmem, htainted⟩

namespace Store

/-- No write concerns a file that is neither the file of what is written nor the temporary one
beside it. -/
theorem writeAll_of_free {files : String → Option Node} {l : Loaded} {name : String}
    (hname : ¬ l.IsTainted name)
    (htemporary : ∀ p ∈ l, p.2.tainted = true → temporaryName p.1 ≠ name) :
    writeAll files l name = files name := by
  induction l generalizing files with
  | nil => rfl
  | cons p rest ih =>
    rcases p with ⟨first, c⟩
    rw [Loaded.isTainted_cons, not_or] at hname
    rcases hname with ⟨hfirst, hrest⟩
    rw [writeAll, ih hrest fun p hp => htemporary p (by simp [hp])]
    split
    · next htainted =>
      have hne : name ≠ first := fun heq => hfirst ⟨heq, htainted⟩
      have hother : name ≠ temporaryName first :=
        (htemporary (first, c) (by simp) htainted).symm
      simp [writeFile, hne, hother]
    · rfl

/-- A file that is gone stays so, unless its own configuration is written. -/
theorem writeAll_eq_none {files : String → Option Node} {l : Loaded} {name : String}
    (hname : ¬ l.IsTainted name) (h : files name = none) : writeAll files l name = none := by
  induction l generalizing files with
  | nil => exact h
  | cons p rest ih =>
    rcases p with ⟨first, c⟩
    rw [Loaded.isTainted_cons, not_or] at hname
    rcases hname with ⟨hfirst, hrest⟩
    apply ih hrest
    split
    · next htainted =>
      have hne : name ≠ first := fun heq => hfirst ⟨heq, htainted⟩
      simp [writeFile, hne, h]
    · exact h

/-- What is tainted is in its file in the end, if every configuration that has this file for its
temporary one is written before. -/
theorem writeAll_of_tainted {files : String → Option Node} {l : Loaded} (hl : l.Sorted)
    {name : String} {c : Config} (hmem : (name, c) ∈ l) (htainted : c.tainted = true)
    (hbefore : ∀ p ∈ l, p.2.tainted = true → temporaryName p.1 = name → p.1 < name) :
    writeAll files l name = some (.file (.text c.render)) := by
  induction l generalizing files with
  | nil => cases hmem
  | cons p rest ih =>
    rcases List.pairwise_cons.1 hl with ⟨hhead, htail⟩
    rcases List.mem_cons.1 hmem with rfl | hmem
    · -- Whatever is written later has a greater name.
      have hlater : ∀ p ∈ rest, name < p.1 := hhead
      rw [writeAll, if_pos htainted, writeAll_of_free]
      · simp [writeFile]
      · rintro ⟨d, hd, -⟩
        exact String.lt_irrefl _ (hlater (name, d) hd)
      · intro p hp hp' heq
        exact String.lt_irrefl _ (String.lt_trans (hlater p hp) (hbefore p (by simp [hp]) hp' heq))
    · exact ih htail hmem fun p hp => hbefore p (by simp [hp])

/-- The temporary file beside a file that is written is gone in the end, unless a configuration
whose file it is comes later. -/
theorem writeAll_of_temporary {files : String → Option Node} {l : Loaded} (hl : l.Sorted)
    {p : String × Config} (hp : p ∈ l) (htainted : p.2.tainted = true)
    (hbefore : ∀ q ∈ l, q.2.tainted = true → q.1 = temporaryName p.1 → q.1 < p.1) :
    writeAll files l (temporaryName p.1) = none := by
  induction l generalizing files with
  | nil => cases hp
  | cons q rest ih =>
    rcases List.pairwise_cons.1 hl with ⟨hhead, htail⟩
    rcases List.mem_cons.1 hp with rfl | hp
    · rcases p with ⟨name, c⟩
      have hlater : ∀ q ∈ rest, name < q.1 := hhead
      rw [writeAll, if_pos htainted]
      apply writeAll_eq_none
      · rintro ⟨d, hd, hd'⟩
        have hlt := hbefore (temporaryName name, d) (by simp [hd]) hd' rfl
        exact String.lt_irrefl _ (String.lt_trans hlt (hlater _ hd))
      · simp [writeFile, temporaryName_ne]
    · exact ih htail hp fun q hq => hbefore q (by simp [hq])

/-! ## When a commit writes what it says -/

/-- Whether the temporary file beside a file is free: if it is the file of a tainted configuration
itself, then of one that is written later, and otherwise nothing stands there. -/
def IsFree (files : String → Option Node) (l : Loaded) (name : String) : Prop :=
  (l.IsTainted (temporaryName name) → name < temporaryName name) ∧
    (¬ l.IsTainted (temporaryName name) → files (temporaryName name) = none)

/-- Each tainted configuration is in its file in the end, and all other files are as they were, if
and only if the temporary files beside what is tainted are free. -/
theorem writeAll_iff {files : String → Option Node} {l : Loaded} (hl : l.Sorted)
    (hnames : ∀ p ∈ l, isConfigName p.1 = true) :
    ((∀ name c, (name, c) ∈ l → c.tainted = true →
          writeAll files l name = some (.file (.text c.render))) ∧
        ∀ name, isConfigName name = true → ¬ l.IsTainted name →
          writeAll files l name = files name) ↔
      ∀ name, l.IsTainted name → IsFree files l name := by
  constructor
  · rintro ⟨hwritten, hkept⟩ name ⟨c, hmem, htainted⟩
    constructor
    · -- A configuration written before has lost its file.
      rintro ⟨e, hmem', htainted'⟩
      apply Classical.byContradiction
      intro hnot
      have hlt : temporaryName name < name :=
        Std.lt_of_le_of_ne (String.not_lt.1 hnot) (temporaryName_ne name)
      have hgone := @writeAll_of_temporary files _ hl _ hmem htainted (by
        intro q _ _ heq
        rw [heq]
        exact hlt)
      rw [hwritten _ e hmem' htainted'] at hgone
      cases hgone
    · intro hnot
      rw [← hkept _ (isConfigName_temporaryName (hnames _ hmem)) hnot]
      apply writeAll_of_temporary hl hmem htainted
      intro q hq hq' heq
      exact absurd ⟨q.2, heq ▸ hq, hq'⟩ hnot
  · intro hfree
    constructor
    · intro name c hmem htainted
      apply writeAll_of_tainted hl hmem htainted
      intro p hp hp' heq
      have hlater := (hfree p.1 ⟨p.2, hp, hp'⟩).1
      rw [heq] at hlater
      exact hlater ⟨c, hmem, htainted⟩
    · intro name _ hnot
      by_cases htemporary : ∃ p ∈ l, p.2.tainted = true ∧ temporaryName p.1 = name
      · -- Nothing stood at the file, and nothing does.
        rcases htemporary with ⟨p, hp, hp', rfl⟩
        have hnone := (hfree p.1 ⟨p.2, hp, hp'⟩).2 hnot
        rw [hnone]
        exact writeAll_eq_none hnot hnone
      · apply writeAll_of_free hnot
        intro p hp hp' heq
        exact htemporary ⟨p, hp, hp', heq⟩

/-- A commit that is not in error leaves nothing tainted. Let the path of the directory go up only
where there are directories already. Then the commit has written the text of all that was tainted,
and left the files of all else as they were, if and only if the temporary files beside what was
tainted were free. -/
theorem commit_writes_iff {s s' : Store} {d : Disk} {j : Journal}
    (hinside : d.GoesUpInside s.dir) (hsorted : s.loaded.Sorted)
    (hnames : ∀ p ∈ s.loaded, isConfigName p.1 = true) (h : s.commit d = (.ok (), s', j)) :
    (∀ p ∈ s'.loaded, p.2.tainted = false) ∧
      (((∀ name c, (name, c) ∈ s.loaded → c.tainted = true →
            filesOf j.disk s.dir name = some (.file (.text c.render))) ∧
          ∀ name, isConfigName name = true → ¬ s.loaded.IsTainted name →
            filesOf j.disk s.dir name = filesOf d s.dir name) ↔
        ∀ name, s.loaded.IsTainted name → IsFree (filesOf d s.dir) s.loaded name) := by
  have hall := (commitAll_of_commit h).1
  have hentries : ∀ p ∈ s.loaded, IsEntryName p.1 := by
    intro p hp
    exact isEntryName_of_isConfigName (hnames p hp)
  have hfiles : ∀ name, isConfigName name = true →
      filesOf j.disk s.dir name = writeAll (filesOf d s.dir) s.loaded name := by
    intro name hname
    exact commitAll_files (j := { disk := d }) hinside hentries hall (isEntryName_of_isConfigName hname)
  refine ⟨untainted_of_commitAll hall, ?_⟩
  rw [← writeAll_iff hsorted hnames]
  refine and_congr ?_ ?_
  · refine forall_congr' fun name => forall_congr' fun c => forall_congr' fun hmem => ?_
    rw [hfiles name (hnames _ hmem)]
  · refine forall_congr' fun name => forall_congr' fun hname => ?_
    rw [hfiles name hname]

/-- A store on the directory `conf` with sections just added to some configurations, of a type
each. -/
def withSections (added : List (String × String)) : Store where
  dir := ⟨"conf"⟩
  loaded := added.map fun (name, type) => (name, { name, sections := [{ type }], tainted := true })

/-- The name of the temporary file is that of a configuration which is written after it is gone. -/
theorem commit_writes_iff_hyphen :
    let s := withSections [("-a", "t"), (".-a.tmp", "u")]
    let d := (s.commit Disk.empty).2.2.disk
    filesOf d s.dir "-a" = some (.file (.text "\nconfig t\n\n")) ∧
      filesOf d s.dir ".-a.tmp" = some (.file (.text "\nconfig u\n\n")) := by
  intro s d
  have hinside : Disk.empty.GoesUpInside s.dir := Disk.goesUpInside_of_notMem (by decide +kernel)
  have hsorted : s.loaded.Sorted := by
    unfold Loaded.Sorted
    decide +kernel
  have hnames : ∀ p ∈ s.loaded, isConfigName p.1 = true := by decide +kernel
  have hok : (s.commit Disk.empty).1.toOption = some () := by decide +kernel
  have hfree : ∀ name, s.loaded.IsTainted name →
      IsFree (filesOf Disk.empty s.dir) s.loaded name := by
    rintro name ⟨c, hmem, -⟩
    have hname : name = "-a" ∨ name = ".-a.tmp" := by
      simpa [s, withSections] using List.mem_map_of_mem (f := (·.1)) hmem
    rcases hname with rfl | rfl
    · refine ⟨fun _ => by decide +kernel, fun hnot => absurd ?_ hnot⟩
      exact ⟨_, List.mem_cons_of_mem _ List.mem_cons_self, rfl⟩
    · refine ⟨fun htainted => ?_, fun _ => by decide +kernel⟩
      rcases htainted with ⟨e, he, -⟩
      have hnot : temporaryName ".-a.tmp" ∉ s.loaded.map (·.1) := by decide +kernel
      exact absurd (List.mem_map_of_mem (f := (·.1)) he) hnot
  rcases hcommit : s.commit Disk.empty with ⟨_ | u, s', j⟩
  · rw [hcommit] at hok
    cases hok
  · have hwritten := ((commit_writes_iff hinside hsorted hnames hcommit).2.2 hfree).1
    simp only [d, hcommit]
    exact ⟨hwritten _ _ List.mem_cons_self rfl,
      hwritten _ _ (List.mem_cons_of_mem _ List.mem_cons_self) rfl⟩

/-- A commit that is not in error can take away the file of a configuration that it has just
written and marked clean, as the temporary file of the next one. -/
theorem not_commit_writes : ¬ ∀ (s s' : Store) (d : Disk) (j : Journal), d.GoesUpInside s.dir →
    s.loaded.Sorted → (∀ p ∈ s.loaded, isConfigName p.1 = true) → s.commit d = (.ok (), s', j) →
      (∀ name c, (name, c) ∈ s.loaded → c.tainted = true →
        filesOf j.disk s.dir name = some (.file (.text c.render))) ∧
      (∀ name, isConfigName name = true → ¬ s.loaded.IsTainted name →
        filesOf j.disk s.dir name = filesOf d s.dir name) ∧
      ∀ p ∈ s'.loaded, p.2.tainted = false := by
  intro hall
  let s := withSections [(".a.tmp", "t"), ("a", "u")]
  have hinside : Disk.empty.GoesUpInside s.dir := Disk.goesUpInside_of_notMem (by decide +kernel)
  have hsorted : s.loaded.Sorted := by
    unfold Loaded.Sorted
    decide +kernel
  have hnames : ∀ p ∈ s.loaded, isConfigName p.1 = true := by decide +kernel
  have hok : (s.commit Disk.empty).1.toOption = some () := by decide +kernel
  have hgone : filesOf (s.commit Disk.empty).2.2.disk s.dir ".a.tmp" = none := by decide +kernel
  rcases hcommit : s.commit Disk.empty with ⟨_ | u, s', j⟩
  · rw [hcommit] at hok
    cases hok
  · have hwritten := (hall s s' Disk.empty j hinside hsorted hnames hcommit).1 ".a.tmp"
      { name := ".a.tmp", sections := [{ type := "t" }], tainted := true } List.mem_cons_self rfl
    rw [hcommit] at hgone
    rw [hgone] at hwritten
    cases hwritten

end Store

end UnifiedConfig
