import UnifiedConfig.Command
import UnifiedConfig.Proofs.Replacements
import UnifiedConfig.Proofs.Requests

/-!
# What a command does to the disk

A command works on a new store, so it opens one configuration at most and commits no other. An edit
that is in error is not committed. A commit of a configuration that could be read, or whose file was
missing, finds its way free, and so it writes the file or has no effect. A path that cannot be used
at all is another matter: that the name of the temporary file is too long is found out only when the
directories are there.

* `run_eq_committed`: what an edit leaves to be committed.
* `HoldsOnly.commit_cases`: what the commit comes to.
* `run_effects`: what a command changes, by its kind and its exit code.
-/

namespace UnifiedConfig

open UnifiedConfig.Path

/-! ## What is left to be committed -/

namespace Store

/-- Whether a store has one configuration loaded, whose file could be read or was missing. -/
structure HoldsOnly (s : Store) (d : Disk) (dir : Path) (name : String) : Prop where
  dir_eq : s.dir = dir
  valid : isConfigName name = true
  loaded : ∃ c, s.loaded = [(name, c)]
  first : ∃ c, IsFirst d (dir.join name) name c

variable {s : Store} {d : Disk} {dir : Path} {name : String}

/-- What is left after an edit by a new store. -/
theorem holdsOnly_of_edit {α : Type} {opened : Opened} {a : α}
    {change : Config → Except Error (α × Config)}
    (hopened : ∀ c s', opened = .ok (c, s') → ({ dir } : Store).HasOpened d name c s')
    (h : ({ dir } : Store).edit opened name change = (.ok a, s)) : s.HoldsOnly d dir name := by
  unfold edit at h
  split at h
  · cases h
  · next c s' =>
    split at h
    · cases h
    · next b e hchange =>
      cases h
      rcases hopened c s' rfl with ⟨hvalid, ⟨hfound, -⟩ | ⟨-, hfirst, rfl⟩⟩
      · cases hfound
      · exact ⟨rfl, hvalid, ⟨e, by simp [Loaded.put]⟩, c, hfirst⟩

theorem holdsOnly_of_addSection {type : String} {n : Option String} {out : String}
    (h : ({ dir } : Store).addSection d name type n = (.ok out, s)) : s.HoldsOnly d dir name := by
  unfold addSection at h
  split at h
  · cases h
  · exact holdsOnly_of_edit (fun c s' => ensure_eq_ok) h

end Store

namespace Command

/-- Whether a command is one that edits. -/
def IsEdit : Command → Prop
  | .assign _ | .append _ | .delete _ | .add .. => True
  | _ => False

/-- The configuration that a command edits, if it is one that edits and its address can be read. -/
def edits? : Command → Option String
  | .assign text | .append text | .delete text => (Address.parse? text).map (·.config)
  | .add config _ _ => some config
  | _ => none

variable {s : Store} {d : Disk} {dir : Path} {name : String}

theorem holdsOnly_of_assignValue {address : Address} {u : Unit}
    (h : assignValue { dir } d address = (.ok u, s)) : s.HoldsOnly d dir address.config := by
  unfold assignValue at h
  split at h
  · cases h
  · cases h
  · next selector value _ _ =>
    split at h
    · exact Store.holdsOnly_of_edit (fun c s' => Store.load_eq_ok) h
    · rcases hadd : ({ dir } : Store).addSection d address.config value (some selector) with
        ⟨_ | out, s'⟩
      · rw [hadd] at h
        cases h
      · rw [hadd] at h
        cases h
        exact Store.holdsOnly_of_addSection hadd

theorem holdsOnly_of_appendValue {address : Address} {u : Unit}
    (h : appendValue { dir } d address = (.ok u, s)) : s.HoldsOnly d dir address.config := by
  unfold appendValue at h
  split at h
  · cases h
  · cases h
  · cases h
  · exact Store.holdsOnly_of_edit (fun c s' => Store.load_eq_ok) h

theorem holdsOnly_of_deleteAt {address : Address} {u : Unit}
    (h : deleteAt { dir } d address = (.ok u, s)) : s.HoldsOnly d dir address.config := by
  unfold deleteAt at h
  split at h
  · cases h
  · next selector _ =>
    cases hsetting : address.setting with
    | none =>
      rw [hsetting] at h
      simp only at h
      rcases hdeleted : ({ dir } : Store).deleteSection d address.config selector with
        ⟨_ | removed, s'⟩
      · rw [hdeleted] at h
        cases h
      · rw [hdeleted] at h
        cases removed <;> cases h
        exact Store.holdsOnly_of_edit (fun c s' => Store.load_eq_ok) hdeleted
    | some setting =>
      rw [hsetting] at h
      simp only at h
      rcases hdeleted : ({ dir } : Store).deleteSetting d address.config selector setting with
        ⟨_ | removed, s'⟩
      · rw [hdeleted] at h
        cases h
      · rw [hdeleted] at h
        cases removed <;> cases h
        exact Store.holdsOnly_of_edit (fun c s' => Store.load_eq_ok) hdeleted

/-- What an edit at an address leaves to be committed. -/
theorem holdsOnly_of_editAt {text out : String} {edit : Address → Except Error Unit × Store}
    (hedit : ∀ address u s, edit address = (.ok u, s) → s.HoldsOnly d dir address.config)
    (h : editAt { dir } text edit = (.ok out, s)) :
    ∃ name, (Address.parse? text).map (·.config) = some name ∧ s.HoldsOnly d dir name := by
  unfold editAt Address.parse at h
  cases hparse : Address.parse? text with
  | none =>
    rw [hparse] at h
    cases h
  | some address =>
    rw [hparse] at h
    simp only at h
    rcases hresult : edit address with ⟨_ | u, s'⟩
    · rw [hresult] at h
      cases h
    · rw [hresult] at h
      cases h
      exact ⟨address.config, rfl, hedit address u s' hresult⟩

/-- A command that edits commits what it has edited of the configuration that it is about. -/
theorem run_eq_committed {command : Command} (h : command.IsEdit) (dir : Path) (d : Disk) :
    ∃ edited, command.run dir d = committed d edited ∧
      ∀ out s, edited = (.ok out, s) →
        ∃ name, command.edits? = some name ∧ s.HoldsOnly d dir name := by
  cases command with
  | assign text =>
    exact ⟨_, rfl, fun out s => holdsOnly_of_editAt fun _ _ _ => holdsOnly_of_assignValue⟩
  | append text =>
    exact ⟨_, rfl, fun out s => holdsOnly_of_editAt fun _ _ _ => holdsOnly_of_appendValue⟩
  | delete text =>
    exact ⟨_, rfl, fun out s => holdsOnly_of_editAt fun _ _ _ => holdsOnly_of_deleteAt⟩
  | add config type n =>
    rcases hadd : ({ dir } : Store).addSection d config type n with ⟨outcome, s'⟩
    refine ⟨(outcome.map (· ++ "\n"), s'), by simp [run, hadd], ?_⟩
    intro out s hedited
    rcases outcome with _ | name
    · cases hedited
    · cases hedited
      refine ⟨config, rfl, ?_⟩
      exact Store.holdsOnly_of_addSection hadd
  | _ => exact h.elim

end Command

/-! ## Committing one configuration -/

/-- Whether a file of a directory has been written, and the temporary file beside it is gone. All
else is as it was, but for the directory and those on the way to it, where they were missing. -/
structure Disk.IsWrittenAt (d : Disk) (place : Location) (name : String) (d' : Disk) : Prop where
  file : ∃ text, d'.find? (place ++ [name]) = some (.file (.text text))
  temporary : d'.find? (place ++ [temporaryName name]) = none
  others : ∀ q, q ≠ place ++ [name] → q ≠ place ++ [temporaryName name] →
    (d'.find? q).map Node.entry = (d.find? q).map Node.entry ∨
      (q <+: place ∧ d.find? q = none ∧ d'.IsDirectory q)

namespace Store

variable {s s' : Store} {d : Disk} {dir : Path} {place : Location} {name : String}

/-- What was read first is a file, or nothing. -/
theorem find_of_isFirst {path : Path} {c : Config} (h : IsFirst d path name c) :
    d.find path = .error .missing ∨
      ∃ n, d.find path = .ok n ∧ ∀ entries, n ≠ some (.directory entries) := by
  have hread : d.readText path = .error .missing ∨ ∃ text, d.readText path = .ok text := by
    rcases h with hok | ⟨-, missing, hmissing⟩
    · rcases readConfig_eq_ok_iff.1 hok with ⟨text, htext, -⟩
      exact .inr ⟨text, htext⟩
    · unfold readConfig at hmissing
      split at hmissing
      · next h => exact .inl h
      · cases hmissing
      · exact absurd hmissing Config.parse_ne_notFound
  unfold Disk.readText at hread
  cases hfind : d.find path with
  | error fault =>
    rw [hfind] at hread
    simpa [bind, Except.bind] using hread
  | ok n =>
    refine .inr ⟨n, rfl, ?_⟩
    rintro entries rfl
    rw [hfind] at hread
    simp [bind, Except.bind, throw, throwThe, MonadExceptOf.throw] at hread

/-- A commit of one configuration writes its file, or has no effect at all, unless a path cannot be
used. -/
theorem HoldsOnly.commit_cases (hs : s.HoldsOnly d dir name) (hdir : dir.GoesTo place)
    {outcome : Except Error Unit} {j : Journal} (h : s.commit d = (outcome, s', j)) :
    (∃ e, outcome = .error e ∧ (e.IsOfPath ∨ j = { disk := d })) ∨
      (outcome = .ok () ∧ (j = { disk := d } ∨ d.IsWrittenAt place name j.disk)) := by
  have hall := (commitAll_of_commit h).1
  rcases s' with ⟨dir', loaded'⟩
  rcases hs with ⟨rfl, hvalid, ⟨c, hloaded⟩, first, hfirst⟩
  have hname := isEntryName_of_isConfigName hvalid
  rcases Disk.hasWay_of_find hdir hname (find_of_isFirst hfirst) with ⟨hway, hfree⟩
  rw [hloaded] at hall
  rcases commitAll_cons_cases hall with ⟨e, -, hreplace, rfl, -⟩ |
    ⟨mid, rest', ⟨-, hreplace⟩ | ⟨-, rfl⟩, hrest, -⟩
  · rcases Journal.replaceFile_cases hdir hname hway hfree hreplace with ⟨e', he', hpath⟩ | ⟨hok, -⟩
    · exact .inl ⟨e, rfl, Except.error.inj he' ▸ hpath⟩
    · cases hok
  · rcases Journal.replaceFile_cases hdir hname hway hfree hreplace with
      ⟨e', he', -⟩ | ⟨-, htouches, hfile, htemporary⟩
    · cases he'
    · cases hrest
      refine .inr ⟨rfl, .inr ⟨⟨c.render, hfile⟩, htemporary, ?_⟩⟩
      intro q hname htemporary
      exact htouches q (by simp [hname, htemporary])
  · cases hrest
    exact .inr ⟨rfl, .inl rfl⟩

end Store

/-! ## Running a command -/

/-- Whether a command was stopped by a path that cannot be used at all. -/
def Outcome.IsStoppedByPath (o : Outcome) : Prop :=
  match o.result with
  | .ok _ => False
  | .error e => e.IsOfPath

instance (o : Outcome) : Decidable o.IsStoppedByPath :=
  match h : o.result with
  | .ok _ => .isFalse (by rw [Outcome.IsStoppedByPath, h]; exact id)
  | .error e => decidable_of_iff e.IsOfPath (by rw [Outcome.IsStoppedByPath, h])

namespace Command

theorem exitCode_eq_zero_iff {o : Outcome} : o.exitCode = 0 ↔ ∃ out, o.result = .ok out := by
  unfold Outcome.exitCode
  cases o.result with
  | ok out => simp
  | error e => cases e <;> simp [Error.exitCode]

/-- A command that does not end well changes nothing, unless a path cannot be used at all, and
neither does one that only reads. An edit that ends well changes nothing either, or it has written
the file of the configuration that it edits. -/
theorem run_effects {command : Command} {dir : Path} {place : Location} {d : Disk} {o : Outcome}
    (hdir : dir.GoesTo place) (h : command.run dir d = o) :
    (o.exitCode ≠ 0 → ¬ o.IsStoppedByPath → o.journal = { disk := d }) ∧
    (¬ command.IsEdit → o.journal = { disk := d }) ∧
    (command.IsEdit → o.exitCode = 0 → ∃ name, command.edits? = some name ∧
      (o.journal = { disk := d } ∨ d.IsWrittenAt place name o.journal.disk)) := by
  subst h
  by_cases hedit : command.IsEdit
  · rcases run_eq_committed hedit dir d with ⟨⟨result, s⟩, hrun, hedited⟩
    rw [hrun]
    cases result with
    | error e =>
      -- Nothing is committed.
      refine ⟨fun _ _ => rfl, fun hnot => absurd hedit hnot, fun _ hzero => ?_⟩
      rcases exitCode_eq_zero_iff.1 hzero with ⟨out, hout⟩
      cases hout
    | ok out =>
      rcases hedited out s rfl with ⟨name, hname, hs⟩
      rcases hcommit : s.commit d with ⟨outcome, s', j⟩
      have hcommitted : committed d (.ok out, s) =
          { result := outcome.map fun _ => out, journal := j } := by
        simp [committed, hcommit]
      rw [hcommitted]
      rcases hs.commit_cases hdir hcommit with ⟨e, rfl, he⟩ | ⟨rfl, hj⟩
      · refine ⟨fun _ hpath => he.resolve_left hpath, fun hnot => absurd hedit hnot,
          fun _ hzero => ?_⟩
        rcases exitCode_eq_zero_iff.1 hzero with ⟨out, hout⟩
        cases hout
      · exact ⟨fun hcode => absurd rfl hcode, fun hnot => absurd hedit hnot,
          fun _ _ => ⟨name, hname, hj⟩⟩
  · -- A command that reads has no journal of its own.
    have hjournal : (command.run dir d).journal = { disk := d } := by
      cases command with
      | display | print | dump | read => rfl
      | _ => exact absurd trivial hedit
    exact ⟨fun _ _ => hjournal, fun _ => hjournal, fun h => absurd h hedit⟩

/-- The directory is made for a section of a new configuration. Nothing is done where a directory
stands in the place of the temporary file. -/
theorem run_effects_firewall :
    let command : Command := .add "firewall" "rule" none
    let d : Disk := .directory [("etc", .directory [("hosts", .file (.text "127.0.0.1"))])]
    let blocked : Disk := .directory [("etc", .directory [(".firewall.tmp", .directory [])])]
    (command.run ⟨"/etc/config"⟩ d).exitCode = 0 ∧
      d.IsWrittenAt ["etc", "config"] "firewall" (command.run ⟨"/etc/config"⟩ d).journal.disk ∧
      (command.run ⟨"/etc"⟩ blocked).exitCode = 4 ∧
      (command.run ⟨"/etc"⟩ blocked).journal = { disk := blocked } := by
  intro command d blocked
  have hdir : Path.GoesTo ⟨"/etc/config"⟩ ["etc", "config"] :=
    ⟨by decide +kernel, by decide +kernel⟩
  have hetc : Path.GoesTo ⟨"/etc"⟩ ["etc"] := ⟨by decide +kernel, by decide +kernel⟩
  have hok : (command.run ⟨"/etc/config"⟩ d).exitCode = 0 := by decide +kernel
  have hfails : (command.run ⟨"/etc"⟩ blocked).exitCode = 4 := by decide +kernel
  have hchanges : (command.run ⟨"/etc/config"⟩ d).journal.changes ≠ [] := by decide +kernel
  have hpath : ¬ (command.run ⟨"/etc"⟩ blocked).IsStoppedByPath := by decide +kernel
  refine ⟨hok, ?_, hfails, ?_⟩
  · rcases (@run_effects command _ _ d _ hdir rfl).2.2 trivial hok with
      ⟨name, hname, hsame | hwritten⟩
    · exact absurd (congrArg Journal.changes hsame) hchanges
    · cases hname
      exact hwritten
  · exact (@run_effects command _ _ blocked _ hetc rfl).1 (by simp [hfails]) hpath

end Command

end UnifiedConfig
