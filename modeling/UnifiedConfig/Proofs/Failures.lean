import UnifiedConfig.Proofs.Readahead

/-!
# What an edit in error leaves behind

An edit opens its configuration before anything else is checked, but for the empty type of a
section, and so an edit that is in error may leave its configuration loaded. Nobody can tell, as it
is loaded as it was read (`Readahead`), with one exception: a section that is added to a
configuration without a file begins an empty one, and when the name of the section is then refused,
the empty configuration stays.

* `failed_step_iff`: an edit in error has no effect at all, unless it leaves an empty configuration.
-/

namespace UnifiedConfig

namespace Request

/-- Whether a request asks for a change of a configuration. -/
def IsEdit : Request → Prop
  | .set .. | .addToList .. | .addSection .. | .deleteSection .. | .deleteSetting .. => True
  | _ => False

/-- Whether a request adds a section to a configuration that begins with it, as it is not loaded and
has no file. The file is not to be a hidden one. -/
def Begins (r : Request) (w : Session) : Prop :=
  ∃ config type name, r = .addSection config type name ∧ type ≠ "" ∧ Store.IsFileName config ∧
    w.store.loaded.find? config = none ∧ ∃ missing,
      Store.readConfig w.disk (w.store.dir.join config) config = .error (.notFound missing)

theorem IsEdit.config? {r : Request} (h : r.IsEdit) : ∃ name, r.config? = some name := by
  cases r <;> simp [IsEdit, Request.config?] at h ⊢

/-- Only where a section is added, a configuration begins without a file. -/
theorem IsEdit.eq_addSection {r : Request} (h : r.IsEdit) {s s' : Store} {d : Disk} {c : Config}
    {name : String} {missing : Missing} (hname : r.config? = some name)
    (hopens : r.opens s d = some (.ok (c, s'))) (hnew : s.loaded.find? name = none)
    (hmissing : Store.readConfig d (s.dir.join name) name = .error (.notFound missing)) :
    ∃ type n, r = .addSection name type n ∧ type ≠ "" := by
  have hload : s.load d name ≠ .ok (c, s') := by
    intro hok
    rcases Store.openWith_eq_ok hok with ⟨-, ⟨hfound, -⟩ | ⟨-, hread, -⟩⟩
    · rw [hnew] at hfound
      cases hfound
    · rw [hmissing] at hread
      cases hread
  cases r with
  | set | addToList | deleteSection | deleteSetting =>
    cases hname
    exact absurd (Option.some.inj hopens) hload
  | addSection config type n =>
    cases hname
    refine ⟨type, n, rfl, ?_⟩
    rintro rfl
    simp [opens] at hopens
  | _ => cases h

/-- What begins is opened as an empty configuration. -/
theorem Begins.opens {r : Request} {w : Session} (h : r.Begins w) :
    ∃ name, r.config? = some name ∧ r.opens w.store w.disk = some (.ok ({ name },
      { w.store with loaded := w.store.loaded.put name { name } })) := by
  rcases h with ⟨config, type, name, rfl, htype, hname, hnew, missing, hmissing⟩
  refine ⟨config, rfl, ?_⟩
  simp only [Request.opens, if_neg htype, Store.ensure, Store.openWith, Store.configPath, hname.1,
    if_true, hnew, hmissing]

end Request

namespace Session

/-- Whether two sessions cannot be told by any run of requests for configurations whose files are
not hidden: they give the same replies, with the same configurations handed out, and come to the
same disk. To forget a configuration is not asked of them, as that tells whether it was loaded. -/
def HaveSameFuture (w w' : Session) : Prop :=
  ∀ requests : List Request,
    (∀ r ∈ requests, ∀ name, r.config? = some name → name.toList.head? ≠ some '.') →
    (∀ r ∈ requests, ∀ name, r ≠ .revert name) →
    w'.replies requests = w.replies requests ∧ (w'.run requests).disk = (w.run requests).disk

theorem IsAhead.haveSameFuture {w w' : Session} (h : w.IsAhead w') : w.HaveSameFuture w' := by
  intro requests hdot hrevert
  rcases run_isAhead h hdot hrevert with ⟨hrun, hreplies⟩
  exact ⟨hreplies, hrun.disk⟩

/-- What is missing for one session and loaded by the other tells them apart. -/
theorem not_haveSameFuture {w w' : Session} {name : String} {c : Config} {missing : Missing}
    (hname : Store.IsFileName name) (hnew : w.store.loaded.find? name = none)
    (hmissing : Store.readConfig w.disk (w.store.dir.join name) name = .error (.notFound missing))
    (hc : w'.store.loaded.find? name = some c) : ¬ w.HaveSameFuture w' := by
  intro h
  have hload := (h [.load name] (by simpa [Request.config?] using hname.2) (by simp)).1
  simp [replies, reply, step, keepDisk, Store.query, Store.load, Store.openWith, Store.configPath,
    hname.1, hnew, hmissing, hc, Except.map] at hload

/-- What an edit in error leaves behind: nothing, or its configuration, which is as it was read or
has just begun. -/
theorem failed_step_cases {w w' : Session} {r : Request} {e : Error}
    (hsorted : w.store.loaded.Sorted) (hedit : r.IsEdit) (h : w.step r = (.error e, w')) :
    (w' = w ∧ ¬ r.Begins w) ∨
      ∃ name c, r.config? = some name ∧ Store.isConfigName name = true ∧
        w.store.loaded.find? name = none ∧
        w' = { w with store := { w.store with loaded := w.store.loaded.put name c } } ∧
        (Store.readConfig w.disk (w.store.dir.join name) name = .ok c ∨
          ((∃ missing,
            Store.readConfig w.disk (w.store.dir.join name) name = .error (.notFound missing)) ∧
          c = { name } ∧ ∃ type n, r = .addSection name type n ∧ type ≠ "")) := by
  rcases hedit.config? with ⟨name, hname⟩
  rcases Request.opens_cases r w.store w.disk with
    ⟨_, opened, -, hopens⟩ | rfl | rfl | ⟨config, rfl⟩ | ⟨other, rfl⟩
  · rw [step_eq_actOn hsorted hname hopens] at h
    rcases opened with fault | ⟨c, s⟩
    · -- Nothing was opened, so nothing has begun.
      left
      cases h
      refine ⟨rfl, fun hbegins => ?_⟩
      rcases hbegins.opens with ⟨_, -, hopens'⟩
      rw [hopens] at hopens'
      cases hopens'
    · have hw' : w' = { w with store := s } := by
        simp only [actOn] at h
        split at h
        · cases h
          rfl
        · cases h
      rcases Request.opens_eq_ok hname hopens with
        ⟨hvalid, ⟨hfound, rfl⟩ | ⟨hnew, hfirst, rfl⟩⟩
      · refine .inl ⟨hw', ?_⟩
        rintro ⟨config, type, n, rfl, -, -, hnew, -⟩
        cases hname
        rw [hnew] at hfound
        cases hfound
      · refine .inr ⟨name, c, hname, hvalid, hnew, hw', ?_⟩
        rcases hfirst with hread | ⟨rfl, missing, hmissing⟩
        · exact .inl hread
        · exact .inr ⟨⟨missing, hmissing⟩, rfl, hedit.eq_addSection hname hopens hnew hmissing⟩
  all_goals cases hedit

/-- An edit in error changes nothing that is loaded and nothing on the disk. It cannot be told that
it was made, if and only if it did not leave an empty configuration. -/
theorem failed_step_iff {w w' : Session} {r : Request} {e : Error}
    (hsorted : w.store.loaded.Sorted) (hnames : ∀ p ∈ w.store.loaded, Store.isConfigName p.1 = true)
    (hedit : r.IsEdit) (h : w.step r = (.error e, w')) :
    w'.disk = w.disk ∧
      (∀ name c, w.store.loaded.find? name = some c → w'.store.loaded.find? name = some c) ∧
      (w.HaveSameFuture w' ↔ ¬ r.Begins w) := by
  have hrefl : w.store.IsAhead w.store w.disk := Store.isAhead_refl hsorted hnames
  have hsame : ∀ {w' : Session}, w.IsAhead w' → ¬ r.Begins w →
      (w.HaveSameFuture w' ↔ ¬ r.Begins w) :=
    fun hahead hnot => ⟨fun _ => hnot, fun _ => hahead.haveSameFuture⟩
  rcases failed_step_cases hsorted hedit h with
    ⟨rfl, hnot⟩ | ⟨name, c, hname, hvalid, hnew, rfl, hc⟩
  · exact ⟨rfl, fun _ _ hc => hc, hsame ⟨rfl, hrefl⟩ hnot⟩
  · refine ⟨rfl, ?_, ?_⟩
    · intro other d hd
      have hne : other ≠ name := by
        rintro rfl
        rw [hnew] at hd
        cases hd
      rw [Loaded.find?_put_of_ne hne]
      exact hd
    · rcases hc with hread | ⟨⟨missing, hmissing⟩, rfl, type, n, rfl, htype⟩
      · rcases Store.readConfig_eq_ok_iff.1 hread with ⟨text, -, hparse⟩
        have hclean := Config.tainted_of_parse hparse
        refine hsame ⟨rfl, hrefl.read hvalid hnew hclean fun _ => hread⟩ ?_
        rintro ⟨config, type, n, rfl, -, -, -, missing, hmissing⟩
        cases hname
        rw [hread] at hmissing
        cases hmissing
      · by_cases hdot : name.toList.head? = some '.'
        · -- Nobody asks for a hidden file.
          have hahead := hrefl.read hvalid hnew (show ({ name } : Config).tainted = false from rfl)
            fun hvisible => absurd hdot hvisible
          refine hsame ⟨rfl, hahead⟩ ?_
          rintro ⟨config, type, n, heq, -, hvisible, -⟩
          cases heq
          exact hvisible.2 hdot
        · have hbegins : (Request.addSection name type n).Begins w :=
            ⟨name, type, n, rfl, htype, ⟨hvalid, hdot⟩, hnew, missing, hmissing⟩
          refine ⟨fun hfuture => ?_, fun hnot => absurd hbegins hnot⟩
          exact absurd hfuture (not_haveSameFuture ⟨hvalid, hdot⟩ hnew hmissing
            (Loaded.find?_put_self w.store.loaded name { name }))

/-- A setting of a section that is not there. -/
theorem failed_step_iff_set :
    let w := ofFile "dhcp" "config pool 'lan'\n"
    w.HaveSameFuture (w.step (.set "dhcp" "wan" "dns" .scalar ["a"])).2 := by
  intro w
  have hfails : (w.step (.set "dhcp" "wan" "dns" .scalar ["a"])).1.toOption = none := by
    decide +kernel
  cases hstep : w.step (.set "dhcp" "wan" "dns" .scalar ["a"]) with
  | mk outcome w' =>
    rw [hstep] at hfails
    cases outcome with
    | ok a => cases hfails
    | error e =>
      have hnot : ¬ (Request.set "dhcp" "wan" "dns" .scalar ["a"]).Begins w := by
        rintro ⟨config, type, n, heq, -⟩
        cases heq
      have hedit : (Request.set "dhcp" "wan" "dns" .scalar ["a"]).IsEdit := trivial
      have hsorted : w.store.loaded.Sorted := List.Pairwise.nil
      have hnames : ∀ p ∈ w.store.loaded, Store.isConfigName p.1 = true := by simp [w, ofFile]
      exact (failed_step_iff hsorted hnames hedit hstep).2.2.2 hnot

/-- A section whose name is refused leaves an empty configuration where there was none, which is
told by the next lookup. -/
theorem not_failed_step : ¬ ∀ (w w' : Session) (r : Request) (e : Error),
    w.store.loaded.Sorted → (∀ p ∈ w.store.loaded, Store.isConfigName p.1 = true) → r.IsEdit →
      w.step r = (.error e, w') → w'.disk = w.disk ∧
        (∀ name c, w.store.loaded.find? name = some c → w'.store.loaded.find? name = some c) ∧
        w.HaveSameFuture w' := by
  intro hall
  let w : Session := { store := { dir := ⟨"conf"⟩ }, disk := Disk.empty }
  let r : Request := .addSection "a" "t" (some "@x")
  have hfails : (w.step r).1.toOption = none := by decide +kernel
  have hmissing : (w.step (.get "a" "s" "o")).1.toOption = none := by decide +kernel
  have hempty : ((w.step r).2.step (.get "a" "s" "o")).1.toOption = some (.texts? none) := by
    decide +kernel
  cases hstep : w.step r with
  | mk outcome w' =>
    rw [hstep] at hfails hempty
    cases outcome with
    | ok a => cases hfails
    | error e =>
      have hfuture := (hall w w' r e List.Pairwise.nil (by simp [w]) trivial hstep).2.2
      have hreplies := (hfuture [.get "a" "s" "o"] (by simp [Request.config?]) (by simp)).1
      simp only [replies, reply, List.cons.injEq, Reply.mk.injEq] at hreplies
      rw [hreplies.1.1, hmissing] at hempty
      cases hempty

end Session

end UnifiedConfig
