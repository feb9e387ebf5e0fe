import UnifiedConfig.Proofs.Files
import UnifiedConfig.Store.Session

/-!
# What a commit writes

A commit goes through what is loaded by name. A configuration that it writes is marked clean, and
its file has the text of it. Whatever else is loaded stays as it is, and so do the files of all
other configurations, as no file that is not hidden is the temporary file of another one
(`IsFileName.ne_temporaryName`).

* `sorted_put`, `mem_put`: what is loaded stays in order, with each name once.
* `commitAll_cons_cases`: what a commit does with the first configuration, and how it goes on.
* `commitAll_split`: what a commit does to what is loaded.
* `commitAll_spec`: which files a commit writes, and what is loaded after it.
-/

namespace UnifiedConfig

open UnifiedConfig.Path UnifiedConfig.Text

/-! ## Loaded configurations -/

namespace Loaded

/-- Whether each name comes once, in ascending order. -/
def Sorted (l : Loaded) : Prop :=
  l.Pairwise fun p q => p.1 < q.1

theorem mem_put {l : Loaded} (h : l.Sorted) {name : String} {c : Config} {p : String × Config} :
    p ∈ l.put name c → p = (name, c) ∨ (p ∈ l ∧ p.1 ≠ name) := by
  induction l with
  | nil =>
    intro hp
    exact .inl (by simpa [put] using hp)
  | cons q rest ih =>
    obtain ⟨other, d⟩ := q
    obtain ⟨hhead, htail⟩ := List.pairwise_cons.1 h
    have hgreater : ∀ q ∈ rest, other < q.1 := hhead
    unfold put
    split
    · next hname =>
      intro hp
      rcases List.mem_cons.1 hp with rfl | hp
      · exact .inl rfl
      · -- What comes after has a greater name.
        have hafter : name < p.1 := hname ▸ hgreater p hp
        exact .inr ⟨by simp [hp], Ne.symm (String.ne_of_lt hafter)⟩
    · next hname =>
      split
      · next hlt =>
        intro hp
        rcases List.mem_cons.1 hp with rfl | hp
        · exact .inl rfl
        · have hafter : name < p.1 := by
            rcases List.mem_cons.1 hp with rfl | hp
            · exact hlt
            · exact String.lt_trans hlt (hgreater p hp)
          exact .inr ⟨hp, Ne.symm (String.ne_of_lt hafter)⟩
      · intro hp
        rcases List.mem_cons.1 hp with rfl | hp
        · exact .inr ⟨by simp, Ne.symm hname⟩
        · rcases ih htail hp with heq | ⟨hp, hne⟩
          · exact .inl heq
          · exact .inr ⟨by simp [hp], hne⟩

theorem sorted_put {l : Loaded} (h : l.Sorted) (name : String) (c : Config) :
    (l.put name c).Sorted := by
  induction l with
  | nil => simp [put, Sorted]
  | cons q rest ih =>
    obtain ⟨other, d⟩ := q
    obtain ⟨hhead, htail⟩ := List.pairwise_cons.1 h
    have hgreater : ∀ q ∈ rest, other < q.1 := hhead
    unfold put
    split
    · next hname => exact List.pairwise_cons.2 ⟨by simpa [hname] using hgreater, htail⟩
    · next hname =>
      split
      · next hlt =>
        refine List.pairwise_cons.2 ⟨?_, h⟩
        intro p hp
        rcases List.mem_cons.1 hp with rfl | hp
        · exact hlt
        · exact String.lt_trans hlt (hgreater p hp)
      · next hnot =>
        refine List.pairwise_cons.2 ⟨?_, ih htail⟩
        intro p hp
        rcases mem_put htail hp with rfl | ⟨hp, -⟩
        · exact Std.lt_of_le_of_ne (String.not_lt.1 hnot) (Ne.symm hname)
        · exact hgreater p hp

theorem notMem_of_lt {l : Loaded} {name : String} (h : ∀ p ∈ l, name < p.1) :
    name ∉ l.map (·.1) := by
  intro hmem
  obtain ⟨p, hp, rfl⟩ := List.mem_map.1 hmem
  exact String.lt_irrefl _ (h p hp)

theorem mem_of_find? {l : Loaded} {name : String} {c : Config} (h : l.find? name = some c) :
    (name, c) ∈ l := by
  rw [find?, List.lookup_eq_some_iff] at h
  obtain ⟨before, after, rfl, -⟩ := h
  simp

/-- The order is a matter of the names. -/
theorem sorted_congr {l l' : Loaded} (h : l'.map (·.1) = l.map (·.1)) (hl : l.Sorted) :
    l'.Sorted := by
  have hnames : (l.map (·.1)).Pairwise (· < ·) := List.pairwise_map.2 hl
  rw [← h] at hnames
  exact List.pairwise_map.1 hnames

/-- What is loaded, with no change to remember. -/
def markClean (l : Loaded) : Loaded :=
  l.map fun p => (p.1, p.2.markClean)

end Loaded

/-! ## Committing -/

theorem Config.markClean_of_untainted {c : Config} (h : c.tainted = false) : c.markClean = c := by
  rw [markClean, ← h]

namespace Store

/-- Whether a name is that of a configuration whose file is not hidden. -/
def IsFileName (name : String) : Prop :=
  isConfigName name = true ∧ name.toList.head? ≠ some '.'

theorem isEntryName_of_isConfigName {name : String} (hname : isConfigName name = true) :
    IsEntryName name := by
  unfold isConfigName at hname
  simp only [Bool.and_eq_true, decide_eq_true_eq, Bool.not_eq_true', List.any_eq_false,
    Bool.or_eq_true, not_or] at hname
  obtain ⟨⟨⟨hne, hdot⟩, hup⟩, hslash⟩ := hname
  exact ⟨by simpa using hne, by simpa using hdot, by simpa using hup,
    fun hmem => (hslash _ hmem).1 (by simp)⟩

theorem IsFileName.isEntryName {name : String} (h : IsFileName name) : IsEntryName name :=
  isEntryName_of_isConfigName h.1

/-- No file that is not hidden is a temporary one. -/
theorem IsFileName.ne_temporaryName {name : String} (h : IsFileName name) (other : String) :
    name ≠ temporaryName other := by
  rintro rfl
  have hdot : (".").toList = ['.'] := by decide
  exact h.2 (by simp [temporaryName, hdot])

/-- What a commit comes to: a configuration that is loaded is as it was, and so is its file, or it
is marked clean and its file has its text. Other files are as they were. -/
structure Committed (dir : Path) (l l' : Loaded) (d d' : Disk) : Prop where
  inside : d'.GoesUpInside dir
  names : l'.map (·.1) = l.map (·.1)
  others : ∀ name, IsFileName name → name ∉ l.map (·.1) →
    d'.node? (dir.join name) = d.node? (dir.join name)
  loaded : ∀ name c', (name, c') ∈ l' → ∃ c, (name, c) ∈ l ∧
    ((c' = c ∧ d'.node? (dir.join name) = d.node? (dir.join name)) ∨
      (c' = c.markClean ∧ d'.node? (dir.join name) = some (.file (.text c.render))))

/-- A configuration that is committed first, and the others after it. -/
theorem Committed.cons {dir : Path} {l l' : Loaded} {d mid d' : Disk}
    {name : String} {c c' : Config} (hname : IsFileName name) (hnew : name ∉ l.map (·.1))
    (hnames : ∀ p ∈ l, IsFileName p.1)
    (hmid : ∀ other, IsFileName other → other ≠ name →
      mid.node? (dir.join other) = d.node? (dir.join other))
    (hhead : (c' = c ∧ mid.node? (dir.join name) = d.node? (dir.join name)) ∨
      (c' = c.markClean ∧ mid.node? (dir.join name) = some (.file (.text c.render))))
    (h : Committed dir l l' mid d') :
    Committed dir ((name, c) :: l) ((name, c') :: l') d d' where
  inside := h.inside
  names := by rw [List.map_cons, List.map_cons, h.names]
  others other hother hnot := by
    rw [List.map_cons, List.mem_cons, not_or] at hnot
    rw [h.others other hother hnot.2, hmid other hother hnot.1]
  loaded other e' he' := by
    rcases List.mem_cons.1 he' with heq | he'
    · cases heq
      refine ⟨c, by simp, ?_⟩
      rwa [h.others name hname hnew]
    · obtain ⟨e, he, hcases⟩ := h.loaded other e' he'
      have hne : other ≠ name := fun heq => hnew (heq ▸ List.mem_map_of_mem he)
      rw [hmid other (hnames _ he) hne] at hcases
      exact ⟨e, by simp [he], hcases⟩

/-- A commit goes through what is loaded. -/
theorem commitAll_of_commit {s s' : Store} {d : Disk} {j : Journal} {outcome : Except Error Unit}
    (h : s.commit d = (outcome, s', j)) :
    commitAll s.dir s.loaded { disk := d } = (outcome, s'.loaded, j) ∧ s'.dir = s.dir := by
  rcases hall : commitAll s.dir s.loaded { disk := d } with ⟨o, l', j'⟩
  simp only [commit, hall, Prod.mk.injEq] at h
  rcases h with ⟨rfl, rfl, rfl⟩
  exact ⟨rfl, rfl⟩

/-- A commit ends at the first configuration if it cannot be written. Else it passes it, as written
or as not tainted, marks it clean and goes on with the others. -/
theorem commitAll_cons_cases {dir : Path} {name : String} {c : Config} {rest l' : Loaded}
    {j j' : Journal} {outcome : Except Error Unit}
    (h : commitAll dir ((name, c) :: rest) j = (outcome, l', j')) :
    (∃ e, c.tainted = true ∧
        j.replaceFile (dir.join name) (.text c.render) = (.error e, j') ∧
        outcome = .error e ∧ l' = (name, c) :: rest) ∨
      ∃ mid rest', ((c.tainted = true ∧
          j.replaceFile (dir.join name) (.text c.render) = (.ok (), mid)) ∨
            (c.tainted = false ∧ mid = j)) ∧
        commitAll dir rest mid = (outcome, rest', j') ∧ l' = (name, c.markClean) :: rest' := by
  unfold commitAll at h
  split at h
  · next htainted =>
    split at h
    · next e mid hreplace =>
      cases h
      exact .inl ⟨e, htainted, hreplace, rfl, rfl⟩
    · next mid hreplace =>
      rcases hrest : commitAll dir rest mid with ⟨o, rest', j''⟩
      rw [hrest] at h
      cases h
      exact .inr ⟨mid, rest', .inl ⟨htainted, hreplace⟩, hrest, rfl⟩
  · next huntainted =>
    have huntainted : c.tainted = false := by simpa using huntainted
    rcases hrest : commitAll dir rest j with ⟨o, rest', j''⟩
    rw [hrest] at h
    cases h
    refine .inr ⟨j, rest', .inr ⟨huntainted, rfl⟩, hrest, ?_⟩
    rw [Config.markClean_of_untainted huntainted]

/-- A commit that is not in error passes the first configuration. -/
theorem commitAll_cons_eq_ok {dir : Path} {name : String} {c : Config} {rest l' : Loaded}
    {j j' : Journal} (h : commitAll dir ((name, c) :: rest) j = (.ok (), l', j')) :
    ∃ mid rest', ((c.tainted = true ∧
        j.replaceFile (dir.join name) (.text c.render) = (.ok (), mid)) ∨
          (c.tainted = false ∧ mid = j)) ∧
      commitAll dir rest mid = (.ok (), rest', j') ∧ l' = (name, c.markClean) :: rest' := by
  rcases commitAll_cons_cases h with ⟨e, -, -, hfault, -⟩ | hpassed
  · cases hfault
  · exact hpassed

/-- A commit that is not in error leaves nothing tainted. -/
theorem markClean_of_commitAll {dir : Path} {l l' : Loaded} {j j' : Journal}
    (h : commitAll dir l j = (.ok (), l', j')) : l' = l.markClean := by
  induction l generalizing j l' with
  | nil =>
    cases h
    rfl
  | cons q rest ih =>
    rcases q with ⟨name, c⟩
    rcases commitAll_cons_eq_ok h with ⟨mid, rest', -, hrest, rfl⟩
    rw [ih hrest]
    rfl

theorem untainted_of_commitAll {dir : Path} {l l' : Loaded} {j j' : Journal}
    (h : commitAll dir l j = (.ok (), l', j')) : ∀ p ∈ l', p.2.tainted = false := by
  intro p hp
  rw [markClean_of_commitAll h] at hp
  rcases List.mem_map.1 hp with ⟨q, -, rfl⟩
  rfl

/-- A commit marks clean what it gets through, and leaves the rest as it is. -/
theorem commitAll_split {dir : Path} {l l' : Loaded} {j j' : Journal}
    {outcome : Except Error Unit} (h : commitAll dir l j = (outcome, l', j')) :
    ∃ done pending : Loaded, l = done ++ pending ∧ l' = done.markClean ++ pending := by
  induction l generalizing j l' with
  | nil =>
    cases h
    exact ⟨[], [], rfl, rfl⟩
  | cons p rest ih =>
    rcases p with ⟨name, c⟩
    rcases commitAll_cons_cases h with ⟨e, -, -, -, rfl⟩ | ⟨mid, rest', -, hrest, rfl⟩
    · exact ⟨[], (name, c) :: rest, rfl, rfl⟩
    · rcases ih hrest with ⟨done, pending, rfl, rfl⟩
      exact ⟨(name, c) :: done, pending, rfl, rfl⟩

theorem commitAll_spec {dir : Path} {l l' : Loaded} {j j' : Journal}
    {outcome : Except Error Unit} (hs : j.disk.GoesUpInside dir)
    (hnames : ∀ p ∈ l, IsFileName p.1) (hsorted : l.Sorted)
    (h : commitAll dir l j = (outcome, l', j')) : Committed dir l l' j.disk j'.disk := by
  induction l generalizing j l' with
  | nil =>
    cases h
    exact ⟨hs, rfl, fun _ _ _ => rfl, by simp⟩
  | cons q rest ih =>
    obtain ⟨name, c⟩ := q
    have hname : IsFileName name := hnames (name, c) (by simp)
    have hmore : ∀ p ∈ rest, IsFileName p.1 := fun p hp => hnames p (by simp [hp])
    obtain ⟨hhead, htail⟩ := List.pairwise_cons.1 hsorted
    have hnew : name ∉ rest.map (·.1) := Loaded.notMem_of_lt hhead
    rcases commitAll_cons_cases h with ⟨e, -, hreplace, -, rfl⟩ | ⟨mid, rest', hpassed, hrest, rfl⟩
    · -- The commit ends here, and the file is what it was.
      obtain ⟨hmid, hothers, -⟩ := Journal.replaceFile_spec hs hname.isEntryName hreplace
      have hkept : ∀ other, IsFileName other →
          j'.disk.node? (dir.join other) = j.disk.node? (dir.join other) := fun other hother =>
        hothers other hother.isEntryName (hother.ne_temporaryName name) (.inr (by simp))
      refine ⟨hmid, rfl, fun other hother _ => hkept other hother, ?_⟩
      intro other e' he'
      exact ⟨e', he', .inl ⟨rfl, hkept other (hnames _ he')⟩⟩
    · rcases hpassed with ⟨-, hreplace⟩ | ⟨huntainted, rfl⟩
      · obtain ⟨hmid, hothers, hok⟩ := Journal.replaceFile_spec hs hname.isEntryName hreplace
        refine (ih hmid hmore htail hrest).cons hname hnew hmore (fun other hother hne => ?_)
          (.inr ⟨rfl, (hok rfl).1⟩)
        exact hothers other hother.isEntryName (hother.ne_temporaryName name) (.inl hne)
      · -- What is not tainted is not written.
        exact (ih hs hmore htail hrest).cons hname hnew hmore (fun _ _ _ => rfl)
          (.inl ⟨Config.markClean_of_untainted huntainted, rfl⟩)

end Store

end UnifiedConfig
