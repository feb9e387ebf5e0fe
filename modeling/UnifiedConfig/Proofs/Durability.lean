import UnifiedConfig.Proofs.Edits
import UnifiedConfig.Proofs.Requests

/-!
# Nothing is lost by a commit

While nobody else writes to the directory of a store, and all that is asked for can be written, what
is loaded is durable, and what is loaded and not tainted is what its file says
(`Session.IsDurable`). Every request keeps this up, also one that is in error, and a commit leaves
nothing tainted.

* `step_isDurable`, `run_isDurable`: what holds of a session goes on to hold.
* `load_of_commit`: a new store reads back what was loaded at a commit.
-/

namespace UnifiedConfig

open Text

/-! ## Files of configurations -/

namespace Disk

/-- Whether the files of some configurations hold, as far as they can be read, only sections that
can be written and whose names do not begin with `@`. -/
def HoldsWritable (d : Disk) (dir : Path) (used : String → Prop) : Prop :=
  ∀ name, used name → ∀ text c, d.readText (dir.join name) = .ok text →
    Config.parse name text = .ok c →
      ∀ s ∈ c.sections, s.IsWritable ∧ s.name.toList.head? ≠ some '@'

end Disk

namespace Config

/-- Whether a configuration is what its file says, or has no section and no file. -/
def IsOnDisk (c : Config) (d : Disk) (path : Path) (name : String) : Prop :=
  (d.node? path = none ∧ c.sections = []) ∨
    ∃ text e, d.readText path = .ok text ∧ parse name text = .ok e ∧ e.sections = c.sections

theorem isOnDisk_congr {c : Config} {d d' : Disk} {path : Path} {name : String}
    (h : d'.node? path = d.node? path) (hc : c.IsOnDisk d path name) : c.IsOnDisk d' path name := by
  unfold IsOnDisk at hc ⊢
  simp only [Disk.readText_eq_ok_iff] at hc ⊢
  rwa [h]

/-- Whether a configuration that is loaded is durable, and either tainted or what its file says. -/
structure IsKept (c : Config) (d : Disk) (path : Path) (name : String) : Prop where
  durable : c.IsDurable
  onDisk : c.tainted = true ∨ c.IsOnDisk d path name

/-- A durable configuration is what its file says once its text is in it. -/
theorem isOnDisk_render {c : Config} (hc : c.IsDurable) {d : Disk} {path : Path}
    (h : d.node? path = some (.file (.text c.render))) (name : String) :
    c.markClean.IsOnDisk d path name :=
  .inr ⟨c.render, _, Disk.readText_eq_ok_iff.2 h, parse_render hc.writable name, rfl⟩

/-- What is loaded first is what its file says. -/
theorem isOnDisk_of_isFirst {c : Config} {d : Disk} {path : Path} {name : String}
    (h : Store.IsFirst d path name c) : c.IsOnDisk d path name := by
  rcases h with hread | ⟨rfl, missing, hmissing⟩
  · rcases Store.readConfig_eq_ok_iff.1 hread with ⟨text, htext, hc⟩
    exact .inr ⟨text, c, htext, hc, rfl⟩
  · exact .inl ⟨Store.node?_of_readConfig_notFound hmissing, rfl⟩

/-- What is loaded first is kept, as its file holds only what can be written. -/
theorem isKept_of_isFirst {c : Config} {d : Disk} {dir : Path} {used : String → Prop}
    {name : String} (hfiles : d.HoldsWritable dir used) (hname : used name)
    (h : Store.IsFirst d (dir.join name) name c) : c.IsKept d (dir.join name) name := by
  refine ⟨?_, .inr (isOnDisk_of_isFirst h)⟩
  rcases h with hread | ⟨rfl, -⟩
  · rcases Store.readConfig_eq_ok_iff.1 hread with ⟨text, htext, hc⟩
    exact isDurable_of_parse hc (hfiles name hname text c htext hc)
  · exact isDurable_nil name

theorem IsKept.keepsUp {c c' : Config} {d : Disk} {path : Path} {name : String}
    (hc : c.IsKept d path name) (h : c.KeepsUp c') : c'.IsKept d path name := by
  rcases h with ⟨hdurable, htainted | rfl⟩
  · exact ⟨hdurable, .inl htainted⟩
  · exact hc

end Config

/-! ## What a store keeps -/

namespace Store

/-- Whether what a store on a directory has loaded is durable, and either tainted or what its file
says. -/
structure IsDurable (s : Store) (d : Disk) (dir : Path) (used : String → Prop) : Prop where
  dir_eq : s.dir = dir
  sorted : s.loaded.Sorted
  entries : ∀ name c, (name, c) ∈ s.loaded → used name ∧ c.IsKept d (dir.join name) name

variable {s s' : Store} {d : Disk} {dir : Path} {used : String → Prop} {name : String}

/-- A store with nothing loaded. -/
theorem isDurable_reopen : ({ dir } : Store).IsDurable d dir used where
  dir_eq := rfl
  sorted := List.Pairwise.nil
  entries := by simp

theorem IsDurable.holds (hs : s.IsDurable d dir used) :
    s.Holds fun name c => used name ∧ c.IsKept d (dir.join name) name :=
  ⟨hs.sorted, hs.entries⟩

theorem Holds.isDurable (hdir : s.dir = dir)
    (hs : s.Holds fun name c => used name ∧ c.IsKept d (dir.join name) name) :
    s.IsDurable d dir used :=
  ⟨hdir, hs.sorted, hs.entries⟩

/-- A commit keeps the files and what is loaded durable, and marks everything clean unless its
outcome is an error. -/
theorem commit_isDurable {outcome : Except Error Unit} {j : Journal}
    (hs : s.IsDurable d dir used) (hfiles : d.HoldsWritable dir used) (hinside : d.GoesUpInside dir)
    (hused : ∀ name, used name → IsFileName name) (h : s.commit d = (outcome, s', j)) :
    s'.IsDurable j.disk dir used ∧ j.disk.HoldsWritable dir used ∧ j.disk.GoesUpInside dir ∧
      (outcome = .ok () → s'.loaded = s.loaded.markClean) := by
  rcases commitAll_of_commit h with ⟨hall, hdir⟩
  rw [hs.dir_eq] at hall hdir
  have hcommitted := commitAll_spec (j := { disk := d }) hinside
    (fun p hp => hused p.1 (hs.entries p.1 p.2 hp).1) hs.sorted hall
  refine ⟨⟨hdir, Loaded.sorted_congr hcommitted.names hs.sorted, fun name c' hc' => ?_⟩,
    fun name hname text e htext he => ?_, hcommitted.inside,
    fun ho => markClean_of_commitAll (ho ▸ hall)⟩
  · -- What is loaded was written just now, or was not touched.
    obtain ⟨c, hc, hcases⟩ := hcommitted.loaded name c' hc'
    obtain ⟨hname, hkept⟩ := hs.entries name c hc
    rcases hcases with ⟨rfl, hnode⟩ | ⟨rfl, hnode⟩
    · exact ⟨hname, hkept.durable, hkept.onDisk.imp id (Config.isOnDisk_congr hnode)⟩
    · exact ⟨hname, Config.isDurable_congr hkept.durable rfl,
        .inr (Config.isOnDisk_render hkept.durable hnode name)⟩
  · have hold : j.disk.node? (dir.join name) = d.node? (dir.join name) →
        ∀ t ∈ e.sections, t.IsWritable ∧ t.name.toList.head? ≠ some '@' := by
      intro hnode
      rw [Disk.readText_eq_ok_iff, hnode, ← Disk.readText_eq_ok_iff] at htext
      exact hfiles name hname text e htext he
    -- A file holds what it held, unless its configuration is loaded and was written.
    by_cases hmem : name ∈ s.loaded.map (·.1)
    · rw [← hcommitted.names] at hmem
      obtain ⟨⟨_, c'⟩, hc', rfl⟩ := List.mem_map.1 hmem
      obtain ⟨c, hc, ⟨-, hnode⟩ | ⟨-, hnode⟩⟩ := hcommitted.loaded _ c' hc'
      · exact hold hnode
      · have hdurable := (hs.entries _ c hc).2.durable
        rw [Disk.readText_eq_ok_iff, hnode] at htext
        cases htext
        rw [Config.parse_render hdurable.writable] at he
        cases he
        exact fun t ht => ⟨hdurable.writable.sections t ht, hdurable.names t ht⟩
    · exact hold (hcommitted.others name (hused name hname) hmem)

/-- A new store loads what is on disk, and what is on disk has a file unless it has no section. -/
theorem load_of_isOnDisk {c : Config} (hname : IsFileName name)
    (hdisk : c.IsOnDisk d (dir.join name) name) :
    (d.node? (dir.join name) = none → c.sections = []) ∧
      ∀ n, d.node? (dir.join name) = some n →
        ∃ e s', ({ dir } : Store).load d name = .ok (e, s') ∧ e.sections = c.sections := by
  rcases hdisk with ⟨hnone, hempty⟩ | ⟨text, e, htext, he, hsections⟩
  · refine ⟨fun _ => hempty, fun n hn => ?_⟩
    rw [hnone] at hn
    cases hn
  · refine ⟨fun hnone => ?_, fun n _ => ?_⟩
    · rw [Disk.readText_eq_ok_iff, hnone] at htext
      cases htext
    · have hread : readConfig d (dir.join name) name = .ok e :=
        readConfig_eq_ok_iff.2 ⟨text, htext, he⟩
      refine ⟨e, { dir, loaded := [(name, e)] }, ?_, hsections⟩
      simp [load, openWith, configPath, hname.1, Loaded.find?, hread, Loaded.put]

end Store

/-! ## Requests -/

namespace Request

/-- Whether all that a request brings in can be written, and a new store is one on the same
directory. -/
def IsProper (dir : Path) : Request → Prop
  | .set _ _ setting kind values => ({ name := setting, kind, values } : Setting).IsWritable
  | .addToList _ _ setting value => IsPlain setting.toList ∧ IsQuotable value.toList
  | .addSection _ type name => IsPlain type.toList ∧ ∀ n, name = some n → IsQuotable n.toList
  | .reopen other => other = dir
  | _ => True

/-- What a request makes of a durable configuration is durable, and tainted or as it was. -/
theorem act_keepsUp {dir : Path} {r : Request} {c c' : Config} {a : Answer}
    (hproper : r.IsProper dir) (hc : c.IsDurable) (h : r.act c = .ok (a, c')) : c.KeepsUp c' := by
  cases r with
  | load | ensure | names | commit | revert | reopen =>
    cases h
    exact Config.keepsUp_self hc
  | get | getLast | getBool =>
    rcases map_eq_ok_iff.1 h with ⟨b, -, heq⟩
    cases heq
    exact Config.keepsUp_self hc
  | set =>
    rcases map_eq_ok_iff.1 h with ⟨⟨b, e⟩, hok, heq⟩
    cases heq
    exact Config.setValues_keepsUp hc hproper hok
  | addToList =>
    rcases map_eq_ok_iff.1 h with ⟨⟨b, e⟩, hok, heq⟩
    cases heq
    exact Config.addToList_keepsUp hc hproper.1 hproper.2 hok
  | addSection =>
    rcases map_eq_ok_iff.1 h with ⟨⟨b, e⟩, hok, heq⟩
    cases heq
    exact Config.addSection_keepsUp hc hproper.1 hproper.2 hok
  | deleteSection config selector =>
    cases h
    exact Config.delete_keepsUp hc selector
  | deleteSetting =>
    rcases map_eq_ok_iff.1 h with ⟨⟨b, e⟩, hok, heq⟩
    cases heq
    exact Config.deleteSetting_keepsUp hc hok

end Request

/-! ## Sessions -/

namespace Session

/-- Whether what is loaded and what the files hold is durable, and what is loaded and not tainted is
what its file says. -/
structure IsDurable (w : Session) (dir : Path) (used : String → Prop) : Prop where
  store : w.store.IsDurable w.disk dir used
  files : w.disk.HoldsWritable dir used
  inside : w.disk.GoesUpInside dir

variable {w : Session} {dir : Path} {used : String → Prop}

/-- Every request keeps a session durable, whatever its outcome is. -/
theorem step_isDurable (hused : ∀ name, used name → Store.IsFileName name)
    (hw : w.IsDurable dir used) {r : Request} (hproper : r.IsProper dir)
    (hname : ∀ name, r.config? = some name → used name) :
    (w.step r).2.IsDurable dir used := by
  rcases Request.opens_cases r w.store w.disk with
    ⟨name, opened, hconfig, hopens⟩ | rfl | rfl | ⟨config, rfl⟩ | ⟨other, rfl⟩
  · have hused := hname name hconfig
    have hstep := step_holds hw.store.holds hconfig hopens
      (fun c _ h => ⟨hused, Config.isKept_of_isFirst hw.files hused (hw.store.dir_eq ▸ h)⟩)
      (fun c a c' hc h => ⟨hc.1, hc.2.keepsUp (Request.act_keepsUp hproper hc.2.durable h)⟩)
    have hstore := hstep.1.isDurable (hstep.2.trans hw.store.dir_eq)
    have hdisk : (w.step r).2.disk = w.disk := step_disk_of_config? hconfig
    exact ⟨hdisk ▸ hstore, hdisk ▸ hw.files, hdisk ▸ hw.inside⟩
  · exact ⟨hw.store, hw.files, hw.inside⟩
  · obtain ⟨hstore, hfiles, hinside, -⟩ :=
      Store.commit_isDurable hw.store hw.files hw.inside hused rfl
    exact ⟨hstore, hfiles, hinside⟩
  · exact ⟨(hw.store.holds.revert config).isDurable hw.store.dir_eq, hw.files, hw.inside⟩
  · cases (show other = dir from hproper)
    exact ⟨Store.isDurable_reopen, hw.files, hw.inside⟩

/-- A run of requests keeps a session durable. -/
theorem run_isDurable (hused : ∀ name, used name → Store.IsFileName name)
    (hw : w.IsDurable dir used) {requests : List Request}
    (hproper : ∀ r ∈ requests, r.IsProper dir)
    (hnames : ∀ r ∈ requests, ∀ name, r.config? = some name → used name) :
    (w.run requests).IsDurable dir used := by
  induction requests generalizing w with
  | nil => exact hw
  | cons r rest ih =>
    have hstep := step_isDurable hused hw (hproper r (by simp)) (hnames r (by simp))
    exact ih hstep (fun r hr => hproper r (by simp [hr])) fun r hr => hnames r (by simp [hr])

/-- A commit that is not in error loses nothing. Let a store be opened on a directory of which the
files that are used hold nothing that cannot be written, and let whatever requests follow be about
configurations whose files are not hidden and bring in nothing that cannot be written. Then a commit
marks clean what is loaded and changes nothing else of it, a configuration without a file has no
section, and a new store loads each of the others with the sections that it has.

The directory need not be there, but its path is to go up only where there are directories already:
a path that goes up out of a missing directory leads nowhere, until the commit makes the directory,
and then to a directory with files that the store has not read. -/
theorem load_of_commit {w w' : Session} {dir : Path} {requests : List Request} {answer : Answer}
    (hstore : w.store = { dir }) (hinside : w.disk.GoesUpInside dir)
    (hfiles : w.disk.HoldsWritable dir fun name => ∃ r ∈ requests, r.config? = some name)
    (hnames : ∀ r ∈ requests, ∀ name, r.config? = some name → Store.IsFileName name)
    (hproper : ∀ r ∈ requests, r.IsProper dir)
    (hcommit : (w.run requests).step .commit = (.ok answer, w')) :
    w'.store.loaded = (w.run requests).store.loaded.markClean ∧
      ∀ name c, w'.store.loaded.find? name = some c →
        (w'.disk.node? (dir.join name) = none → c.sections = []) ∧
          ∀ n, w'.disk.node? (dir.join name) = some n →
            ∃ e s, ({ dir } : Store).load w'.disk name = .ok (e, s) ∧ e.sections = c.sections := by
  have hused : ∀ name, (∃ r ∈ requests, r.config? = some name) → Store.IsFileName name := by
    rintro name ⟨r, hr, hname⟩
    exact hnames r hr name hname
  have hw : w.IsDurable dir fun name => ∃ r ∈ requests, r.config? = some name :=
    ⟨hstore ▸ Store.isDurable_reopen, hfiles, hinside⟩
  have hrun := run_isDurable hused hw hproper fun r hr name hname => ⟨r, hr, hname⟩
  cases hresult : (w.run requests).store.commit (w.run requests).disk with
  | mk outcome r =>
    obtain ⟨s', j⟩ := r
    obtain ⟨hdurable, -, -, hclean⟩ :=
      Store.commit_isDurable hrun.store hrun.files hrun.inside hused hresult
    simp only [step, hresult, Prod.mk.injEq] at hcommit
    obtain ⟨hok, rfl⟩ := hcommit
    cases outcome with
    | error e => cases hok
    | ok u =>
      refine ⟨hclean rfl, fun name c hc => ?_⟩
      have hmem := Loaded.mem_of_find? hc
      obtain ⟨hname, hkept⟩ := hdurable.entries name c hmem
      have huntainted : c.tainted = false := by
        rw [hclean rfl] at hmem
        obtain ⟨p, -, heq⟩ := List.mem_map.1 hmem
        cases heq
        rfl
      -- Only what is tainted may differ from its file.
      have hdisk := hkept.onDisk.resolve_left (by simp [huntainted])
      exact Store.load_of_isOnDisk (hused name hname) hdisk

/-- A setting becomes a list, and another section is added. -/
theorem load_of_commit_dhcp :
    let w := ofFile "dhcp" "config pool 'lan'\n\toption dns 'a'\n"
    let requests := [Request.addToList "dhcp" "lan" "dns" "b", .addSection "dhcp" "pool" none]
    ∃ e s, ({ dir := Store.defaultDir } : Store).load
        ((w.run requests).step .commit).2.disk "dhcp" = .ok (e, s) ∧
      e.sections =
        [{ type := "pool", name := "lan",
            settings := [{ name := "dns", kind := .list, values := ["a", "b"] }] },
          { type := "pool" }] := by
  intro w requests
  have hjoin : Store.defaultDir.join "dhcp" = ⟨"/etc/config/dhcp"⟩ := by decide +kernel
  have htext : w.disk.readText ⟨"/etc/config/dhcp"⟩ =
      .ok "config pool 'lan'\n\toption dns 'a'\n" := rfl
  have hread : Config.parse "dhcp" "config pool 'lan'\n\toption dns 'a'\n" = .ok
      { name := "dhcp", sections :=
        [{ type := "pool", name := "lan",
            settings := [{ name := "dns", kind := .scalar, values := ["a"] }] }] } := rfl
  have hnames : ∀ r ∈ requests, ∀ name, r.config? = some name → name = "dhcp" := by
    simp [requests, Request.config?]
  have hfiles : w.disk.HoldsWritable Store.defaultDir
      fun name => ∃ r ∈ requests, r.config? = some name := by
    rintro name ⟨r, hr, hname⟩ text c htext' hc
    cases hnames r hr name hname
    rw [hjoin, htext] at htext'
    cases htext'
    rw [hread] at hc
    cases hc
    have hsetting : ({ name := "dns", kind := .scalar, values := ["a"] } : Setting).IsWritable :=
      ⟨by decide, by decide, by decide⟩
    simp only [List.mem_singleton, forall_eq]
    exact ⟨⟨by decide, by decide, fun _ => by decide, by decide, by simpa using hsetting⟩,
      by decide⟩
  have hproper : ∀ r ∈ requests, r.IsProper Store.defaultDir := by
    simp [requests, Request.IsProper]
    decide
  have hok : ((w.run requests).step .commit).1.toOption = some .done := by decide +kernel
  have hloaded : ((w.run requests).step .commit).2.store.loaded.find? "dhcp" = some
      { name := "dhcp", sections :=
        [{ type := "pool", name := "lan",
            settings := [{ name := "dns", kind := .list, values := ["a", "b"] }] },
          { type := "pool" }] } := by decide +kernel
  have hfile : (((w.run requests).step .commit).2.disk.node?
      (Store.defaultDir.join "dhcp")).isSome := by decide +kernel
  have hinside : w.disk.GoesUpInside Store.defaultDir :=
    Disk.goesUpInside_of_notMem (by decide +kernel)
  have hfileName : ∀ r ∈ requests, ∀ name, r.config? = some name → Store.IsFileName name := by
    intro r hr name hname
    cases hnames r hr name hname
    exact ⟨by decide, by decide⟩
  cases hstep : (w.run requests).step .commit with
  | mk outcome w' =>
    rw [hstep] at hok hloaded hfile
    obtain ⟨n, hn⟩ := Option.isSome_iff_exists.1 hfile
    cases outcome with
    | error e => cases hok
    | ok answer =>
      have hread := load_of_commit rfl hinside hfiles hfileName hproper hstep
      exact (hread.2 "dhcp" _ hloaded).2 n hn

/-- The path goes up out of a missing directory. The store has found no file of the configuration,
and a new one finds that of the directory `conf`. -/
example :
    let dir : Path := ⟨"new/../conf"⟩
    let w : Session :=
      { store := { dir }
        disk := .directory [("conf", .directory [("b", .file (.text "config t n\n"))])] }
    let after := (w.run [.ensure "b", .addSection "a" "t" none]).step .commit
    after.1.toOption = some .done ∧
      (after.2.store.loaded.find? "b").map (·.sections) = some [] ∧
      (({ dir } : Store).load after.2.disk "b").toOption.map (·.1.sections) =
        some [{ type := "t", name := "n" }] := by
  decide +kernel

end Session

end UnifiedConfig
