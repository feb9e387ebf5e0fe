import UnifiedConfig.Config.Merge
import UnifiedConfig.Proofs.Durability

/-!
# What is not tainted is in its file

Beside the requests, whoever has a configuration in hand can change it: add a section, merge one or
a whole configuration, delete one, or have one handed out to be changed in any way
(`Config.Operation`). All of these taint a configuration unless they leave it as it is, and so a
configuration that is not tainted agrees with its file, whatever was done with what is loaded, and
whether or not it could be done.

* `operate_marks`: a configuration that is changed is tainted.
* `act_isInSync`: one action keeps up what holds of a session.
* `isInSync_of_acts`: what is loaded and not tainted after a run is in sync with its file.
-/

namespace UnifiedConfig

/-! ## Operations on a configuration in hand -/

namespace Config

/-- What can be done with a configuration in hand. Where a section is handed out by it, a change is
made to the section afterwards. -/
inductive Operation where
  | add (s : Section) (change : Section → Section)
  /-- Merges a section that is intended to have `ordinal` sections of its type before it. -/
  | merge (s : Section) (ordinal : Nat) (change : Section → Section)
  | overlay (other : Config)
  | delete (selector : String)
  | edit (selector : String) (change : Section → Section)

/-- The configuration after an operation. -/
def operate (c : Config) : Operation → Config
  | .add s change => (c.push s).changeAt c.sections.length change
  | .merge s ordinal change => (c.mergeAt s ordinal).1.changeAt (c.mergeAt s ordinal).2 change
  | .overlay other => c.overlay other
  | .delete selector => (c.delete selector).2
  | .edit selector change =>
    match c.edit selector fun s => ((), change s) with
    | .ok (_, c') => c'
    -- The selector is in error, so no section is handed out.
    | .error _ => c

theorem mergeAt_tainted (c : Config) (s : Section) (ordinal : Nat) :
    (c.mergeAt s ordinal).1.tainted = true := by
  unfold mergeAt
  split <;> rfl

theorem overlayFrom_marks (c : Config) (before sections : List Section) :
    c.Marks (c.overlayFrom before sections) := by
  induction sections generalizing c before with
  | nil => exact .inr rfl
  | cons s rest ih =>
    left
    rcases ih (c.mergeAt s (before.countP (·.type == s.type))).1 (before ++ [s]) with h | h
    · exact h
    · rw [overlayFrom, h]
      exact mergeAt_tainted c s _

/-- What is changed is tainted. -/
theorem operate_marks (c : Config) (op : Operation) : c.Marks (c.operate op) := by
  cases op with
  | add s change => exact .inl rfl
  | merge s ordinal change => exact .inl (mergeAt_tainted c s ordinal)
  | overlay other => exact overlayFrom_marks c [] other.sections
  | delete selector => exact delete_marks c selector
  | edit selector change =>
    simp only [operate]
    split
    · next hedit => exact (edit_eq_ok hedit).marks
    · exact .inr rfl

/-- Whether a configuration is what its file says, or its file has its text, or it has no section
and no file. -/
def IsInSync (c : Config) (d : Disk) (path : Path) (name : String) : Prop :=
  c.IsOnDisk d path name ∨ d.readText path = .ok c.render

theorem isInSync_congr {c : Config} {d d' : Disk} {path : Path} {name : String}
    (h : d'.node? path = d.node? path) (hc : c.IsInSync d path name) : c.IsInSync d' path name := by
  rcases hc with hc | hc
  · exact .inl (isOnDisk_congr h hc)
  · right
    rw [Disk.readText_eq_ok_iff] at hc ⊢
    rwa [h]

/-- Whether a configuration is tainted if it is not in sync with its file, which is not hidden. -/
def IsTracked (d : Disk) (dir : Path) (name : String) (c : Config) : Prop :=
  Store.IsFileName name ∧ (c.tainted = true ∨ c.IsInSync d (dir.join name) name)

theorem IsTracked.marks {d : Disk} {dir : Path} {name : String} {c c' : Config}
    (hc : IsTracked d dir name c) (h : c.Marks c') : IsTracked d dir name c' := by
  rcases h with htainted | rfl
  · exact ⟨hc.1, .inl htainted⟩
  · exact hc

/-- A configuration is in sync when it is loaded first. -/
theorem isTracked_of_isFirst {d : Disk} {dir : Path} {name : String} {c : Config}
    (hname : Store.IsFileName name) (h : Store.IsFirst d (dir.join name) name c) :
    IsTracked d dir name c :=
  ⟨hname, .inr (.inl (isOnDisk_of_isFirst h))⟩

end Config

/-! ## Commits -/

namespace Store

/-- Where nothing is tainted, there is nothing to write. -/
theorem commitAll_of_untainted {dir : Path} {l : Loaded} (h : ∀ p ∈ l, p.2.tainted = false)
    (j : Journal) : commitAll dir l j = (.ok (), l, j) := by
  induction l with
  | nil => rfl
  | cons p rest ih =>
    rcases p with ⟨name, c⟩
    have hc : c.tainted = false := h (name, c) (by simp)
    have ih := ih fun p hp => h p (by simp [hp])
    simp [commitAll, hc, ih]

/-- A commit that is not in error leaves nothing to be done for another one. -/
theorem commit_again {s s' : Store} {d : Disk} {j : Journal} (h : s.commit d = (.ok (), s', j)) :
    s'.commit j.disk = (.ok (), s', { disk := j.disk }) := by
  have hclean := untainted_of_commitAll (commitAll_of_commit h).1
  simp only [commit, commitAll_of_untainted hclean]

/-- A commit keeps what is loaded in sync or tainted, whatever its outcome is. -/
theorem commit_isTracked {s s' : Store} {d : Disk} {j : Journal}
    {outcome : Except Error Unit} (hs : s.Holds (Config.IsTracked d s.dir))
    (hinside : d.GoesUpInside s.dir) (h : s.commit d = (outcome, s', j)) :
    s'.Holds (Config.IsTracked j.disk s.dir) ∧ s'.dir = s.dir ∧ j.disk.GoesUpInside s.dir := by
  rcases commitAll_of_commit h with ⟨hall, hdir⟩
  have hcommitted := commitAll_spec (j := { disk := d }) hinside
    (fun p hp => (hs.entries p.1 p.2 hp).1) hs.sorted hall
  refine ⟨⟨Loaded.sorted_congr hcommitted.names hs.sorted, ?_⟩, hdir, hcommitted.inside⟩
  intro name c' hc'
  rcases hcommitted.loaded name c' hc' with ⟨c, hc, hcases⟩
  rcases hs.entries name c hc with ⟨hname, htracked⟩
  refine ⟨hname, ?_⟩
  rcases hcases with ⟨rfl, hnode⟩ | ⟨rfl, hnode⟩
  · exact htracked.imp id (Config.isInSync_congr hnode)
  · -- It was written just now.
    exact .inr (.inr (Disk.readText_eq_ok_iff.2 hnode))

end Store

/-! ## Runs -/

namespace Session

/-- What can be done with a session: it is asked for something, or something is done with a
configuration that it has loaded. -/
inductive Action where
  | request (r : Request)
  | operate (config : String) (op : Config.Operation)

/-- Whether an action asks for no configuration whose name begins with a dot, and a new store is one
on the same directory. -/
def Action.IsOn (dir : Path) : Action → Prop
  | .request r => (∀ name, r.config? = some name → name.toList.head? ≠ some '.') ∧
      ∀ other, r = .reopen other → other = dir
  | .operate _ _ => True

/-- The session after an action. Nothing is done with a configuration that is not loaded. -/
def act (w : Session) : Action → Session
  | .request r => (w.step r).2
  | .operate config op =>
    match w.store.loaded.find? config with
    | none => w
    | some c =>
      { w with store := { w.store with loaded := w.store.loaded.put config (c.operate op) } }

/-- The session after a run of actions. -/
def acts (w : Session) (actions : List Action) : Session :=
  actions.foldl act w

/-- Whether what is loaded is in sync with its file or tainted. -/
structure IsInSync (w : Session) (dir : Path) : Prop where
  dir_eq : w.store.dir = dir
  store : w.store.Holds (Config.IsTracked w.disk dir)
  inside : w.disk.GoesUpInside dir

variable {w : Session} {dir : Path}

theorem step_isInSync (hw : w.IsInSync dir) {r : Request}
    (hr : Action.IsOn dir (.request r)) : (w.step r).2.IsInSync dir := by
  rcases hw with ⟨rfl, hstore, hinside⟩
  rcases Request.opens_cases r w.store w.disk with
    ⟨name, opened, hname, hopens⟩ | rfl | rfl | ⟨config, rfl⟩ | ⟨other, rfl⟩
  · have hdisk : (w.step r).2.disk = w.disk := step_disk_of_config? hname
    have hstep := step_holds hstore hname hopens
      (fun c hvalid h => Config.isTracked_of_isFirst ⟨hvalid, hr.1 name hname⟩ h)
      (fun c a c' hc h => hc.marks (Request.act_marks h))
    exact ⟨hstep.2, hdisk ▸ hstep.1, hdisk ▸ hinside⟩
  · exact ⟨rfl, hstore, hinside⟩
  · rcases hcommit : w.store.commit w.disk with ⟨outcome, s', j⟩
    rcases Store.commit_isTracked hstore hinside hcommit with ⟨hs', hdir, hj⟩
    simp only [step, hcommit]
    exact ⟨hdir, hs', hj⟩
  · exact ⟨rfl, hstore.revert config, hinside⟩
  · cases hr.2 other rfl
    exact ⟨rfl, Store.holds_empty _ _, hinside⟩

/-- Every action keeps what is loaded in sync or tainted. -/
theorem act_isInSync (hw : w.IsInSync dir) {a : Action} (ha : a.IsOn dir) :
    (w.act a).IsInSync dir := by
  cases a with
  | request r => exact step_isInSync hw ha
  | operate config op =>
    simp only [act]
    split
    · exact hw
    · next c hfound =>
      have hc := hw.store.entries config c (Loaded.mem_of_find? hfound)
      exact ⟨hw.dir_eq, hw.store.put (hc.marks (c.operate_marks op)), hw.inside⟩

theorem acts_isInSync (hw : w.IsInSync dir) {actions : List Action}
    (hactions : ∀ a ∈ actions, a.IsOn dir) : (w.acts actions).IsInSync dir := by
  induction actions generalizing w with
  | nil => exact hw
  | cons a rest ih =>
    have ha := act_isInSync hw (hactions a (by simp))
    exact ih ha fun b hb => hactions b (by simp [hb])

/-- Nothing that is not tainted is out of sync. Let a store be opened on a directory whose path goes
up only where there are directories already, and let whatever actions follow ask for no hidden file.
Then what is loaded and not tainted agrees with its file, whatever the outcomes were. Only a commit
changes the disk, and a commit right after one that was not in error changes nothing. -/
theorem isInSync_of_acts {actions : List Action} (hstore : w.store = { dir })
    (hinside : w.disk.GoesUpInside dir) (hactions : ∀ a ∈ actions, a.IsOn dir) :
    (∀ name c, (w.acts actions).store.loaded.find? name = some c → c.tainted = false →
        c.IsInSync (w.acts actions).disk (dir.join name) name) ∧
      (∀ a, a ≠ .request .commit → ((w.acts actions).act a).disk = (w.acts actions).disk) ∧
      ∀ answer w', (w.acts actions).step .commit = (.ok answer, w') →
        w'.step .commit = (.ok .done, w') := by
  have hw : w.IsInSync dir :=
    ⟨by rw [hstore], hstore ▸ Store.holds_empty dir _, hinside⟩
  have hrun := acts_isInSync hw hactions
  refine ⟨?_, ?_, ?_⟩
  · intro name c hfound hclean
    have hc := hrun.store.entries name c (Loaded.mem_of_find? hfound)
    exact hc.2.resolve_left (by simp [hclean])
  · intro a ha
    cases a with
    | request r => exact step_disk fun hr => ha (by rw [hr])
    | operate config op =>
      simp only [act]
      split <;> rfl
  · intro answer w' hcommit
    rcases hresult : (w.acts actions).store.commit (w.acts actions).disk with ⟨outcome, s', j⟩
    simp only [step, hresult, Prod.mk.injEq] at hcommit
    rcases hcommit with ⟨hok, rfl⟩
    cases outcome with
    | error e => cases hok
    | ok u =>
      have hagain := Store.commit_again hresult
      simp only [step, hagain]
      rfl

/-- A section that is merged in hand is written. -/
theorem isInSync_of_acts_merge :
    let w := ofFile "dhcp" "config pool 'lan'\n"
    let actions : List Action :=
      [.request (.load "dhcp"), .operate "dhcp" (.merge { type := "pool", name := "wan" } 0 id),
        .request .commit]
    ({ name := "dhcp", sections := [{ type := "pool", name := "lan" },
        { type := "pool", name := "wan" }] } : Config).IsInSync (w.acts actions).disk
      (Store.defaultDir.join "dhcp") "dhcp" := by
  intro w actions
  have hinside : w.disk.GoesUpInside Store.defaultDir :=
    Disk.goesUpInside_of_notMem (by decide +kernel)
  have hactions : ∀ a ∈ actions, a.IsOn Store.defaultDir := by
    simp [actions, Action.IsOn, Request.config?]
  have hloaded : (w.acts actions).store.loaded.find? "dhcp" = some
      { name := "dhcp", sections := [{ type := "pool", name := "lan" },
        { type := "pool", name := "wan" }] } := by decide +kernel
  exact (isInSync_of_acts rfl hinside hactions).1 "dhcp" _ hloaded rfl

/-- A path that leads through a missing directory and back leads nowhere at first. A commit that
makes the missing directory lets it lead to another directory, and to whatever files are there. -/
theorem not_isInSync_of_acts :
    let dir : Path := ⟨"new/../conf"⟩
    let w : Session :=
      { store := { dir }
        disk := .directory [("conf", .directory [("b", .file (.text "config t n\n"))])] }
    let w' := w.acts [.request (.ensure "b"), .request (.addSection "a" "t" none), .request .commit]
    ∃ c, w'.store.loaded.find? "b" = some c ∧ c.tainted = false ∧
      ¬ c.IsInSync w'.disk (dir.join "b") "b" := by
  intro dir w w'
  have hloaded : w'.store.loaded.find? "b" = some { name := "b" } := by decide +kernel
  have htext : (w'.disk.readText (dir.join "b")).toOption = some "config t n\n" := by decide +kernel
  refine ⟨{ name := "b" }, hloaded, rfl, ?_⟩
  have hread : w'.disk.readText (dir.join "b") = .ok "config t n\n" := by
    cases hr : w'.disk.readText (dir.join "b") with
    | error e => simp [hr, Except.toOption] at htext
    | ok text => simpa [hr, Except.toOption] using htext
  rintro ((⟨hnone, -⟩ | ⟨text, e, htext', he, hsections⟩) | hrender)
  · rw [Disk.readText_eq_ok_iff, hnone] at hread
    cases hread
  · rw [hread] at htext'
    cases htext'
    have hparse : (Config.parse "b" "config t n\n").toOption.map (·.sections) =
        some [{ type := "t", name := "n" }] := by decide +kernel
    rw [he] at hparse
    simp only [Except.toOption, Option.map_some, Option.some.injEq, hsections] at hparse
    cases hparse
  · rw [hread] at hrender
    have hempty : "config t n\n" ≠ ({ name := "b" } : Config).render := by decide +kernel
    exact hempty (Except.ok.inj hrender)

end Session

end UnifiedConfig
