import UnifiedConfig.Proofs.Requests

/-!
# Reading ahead

Two stores on one disk may have loaded different configurations, and still nobody can tell them
apart: what only one of them has loaded was read from its file, nothing was changed in it, and the
other one would read the same. Whatever both are asked for, they give the same answers, write the
same files, and still differ by no more than that (`Session.step_isAhead`).

A configuration whose file is hidden may be an exception to this, as its file may be the temporary
one of another configuration. It makes no difference as long as nobody asks for it.

* `commitAll_filter`: what is not tainted might as well not be loaded when a commit is made.
* `step_isAhead`, `run_isAhead`: a store that has read ahead cannot be told by its answers.
-/

namespace UnifiedConfig

open UnifiedConfig.Path

/-! ## Loaded configurations -/

namespace Loaded

theorem find?_filter (l : Loaded) (kept : String → Bool) (name : String) :
    Loaded.find? (l.filter (kept ·.1)) name = if kept name then l.find? name else none := by
  induction l with
  | nil => simp [find?]
  | cons p rest ih =>
    rcases p with ⟨other, d⟩
    unfold find? at ih ⊢
    by_cases heq : name = other
    · subst heq
      cases hkept : kept name
      · simp [hkept] at ih ⊢
        exact ih
      · simp [hkept]
    · have hne : (name == other) = false := by simpa using heq
      cases hkept : kept other
      all_goals
        simp [hkept, hne, List.lookup_cons] at ih ⊢
        exact ih

theorem find?_eq_some_iff {l : Loaded} (h : l.Sorted) {name : String} {c : Config} :
    l.find? name = some c ↔ (name, c) ∈ l :=
  ⟨mem_of_find?, find?_of_mem h⟩

/-- What is loaded in order is known by what is in it. -/
theorem Sorted.ext {l l' : Loaded} (h : l.Sorted) (h' : l'.Sorted)
    (hmem : ∀ p, p ∈ l ↔ p ∈ l') : l = l' := by
  have hnodup : ∀ {l : Loaded}, l.Sorted → l.Nodup := by
    intro l h
    refine h.imp ?_
    rintro p q hlt rfl
    exact String.lt_irrefl _ hlt
  have hperm := (List.perm_ext_iff_of_nodup (hnodup h) (hnodup h')).2 hmem
  refine hperm.eq_of_pairwise ?_ h h'
  intro p q _ _ hpq hqp
  exact absurd (String.lt_trans hpq hqp) (String.lt_irrefl _)

/-- What is loaded of what is loaded elsewhere, by the names. -/
theorem eq_filter {l l' : Loaded} (h : l.Sorted) (h' : l'.Sorted)
    (hsub : ∀ name c, l.find? name = some c → l'.find? name = some c) :
    l = l'.filter fun p => (l.find? p.1).isSome := by
  refine h.ext (h'.filter _) ?_
  rintro ⟨name, c⟩
  rw [List.mem_filter, ← find?_eq_some_iff h, ← find?_eq_some_iff h']
  constructor
  · intro hc
    exact ⟨hsub name c hc, by simp [hc]⟩
  · rintro ⟨hc, hsome⟩
    rcases Option.isSome_iff_exists.1 hsome with ⟨e, he⟩
    have heq := hsub name e he
    rw [hc] at heq
    rw [heq]
    exact he

end Loaded

/-! ## Commits -/

namespace Store

/-- What is not tainted might as well not be loaded when a commit is made, and is as it was after
it. -/
theorem commitAll_filter {dir : Path} {l l' : Loaded} {j j' : Journal}
    {outcome : Except Error Unit} {kept : String → Bool}
    (hclean : ∀ p ∈ l, kept p.1 = false → p.2.tainted = false)
    (h : commitAll dir l j = (outcome, l', j')) :
    commitAll dir (l.filter (kept ·.1)) j = (outcome, l'.filter (kept ·.1), j') ∧
      l'.filter (!kept ·.1) = l.filter (!kept ·.1) ∧ l'.map (·.1) = l.map (·.1) := by
  induction l generalizing j l' with
  | nil =>
    cases h
    exact ⟨rfl, rfl, rfl⟩
  | cons p rest ih =>
    rcases p with ⟨name, c⟩
    have hmore : ∀ p ∈ rest, kept p.1 = false → p.2.tainted = false := by
      intro p hp
      exact hclean p (by simp [hp])
    -- What is tainted is kept.
    have hkept : c.tainted = true → kept name = true := by
      intro htainted
      apply Classical.byContradiction
      intro hnot
      have hc : c.tainted = false := hclean (name, c) (by simp) (by simpa using hnot)
      rw [hc] at htainted
      cases htainted
    rcases commitAll_cons_cases h with ⟨e, htainted, hreplace, rfl, rfl⟩ |
      ⟨mid, rest', ⟨htainted, hreplace⟩ | ⟨huntainted, rfl⟩, hrest, rfl⟩
    · simp [commitAll, hkept htainted, htainted, hreplace]
    · rcases ih hmore hrest with ⟨hsame, hothers, hnames⟩
      simp [commitAll, hkept htainted, htainted, hreplace, hsame, hothers, hnames]
    · rcases ih hmore hrest with ⟨hsame, hothers, hnames⟩
      rw [Config.markClean_of_untainted huntainted]
      cases hname : kept name
      · simp [hname, hsame, hothers, hnames]
      · simp [hname, commitAll, huntainted, hsame, hothers, hnames]

/-- A commit concerns no file but those of what is tainted, and hidden ones. -/
theorem commitAll_keeps {dir : Path} {l l' : Loaded} {j j' : Journal}
    {outcome : Except Error Unit} (hs : j.disk.GoesUpInside dir)
    (hnames : ∀ p ∈ l, isConfigName p.1 = true) (h : commitAll dir l j = (outcome, l', j'))
    {other : String} (hother : IsFileName other)
    (hfree : ∀ p ∈ l, p.2.tainted = true → p.1 ≠ other) :
    j'.disk.node? (dir.join other) = j.disk.node? (dir.join other) := by
  induction l generalizing j l' with
  | nil =>
    cases h
    rfl
  | cons p rest ih =>
    rcases p with ⟨name, c⟩
    have hname := isEntryName_of_isConfigName (hnames (name, c) (by simp))
    have hmore : ∀ p ∈ rest, isConfigName p.1 = true := fun p hp => hnames p (by simp [hp])
    have hothers : ∀ p ∈ rest, p.2.tainted = true → p.1 ≠ other :=
      fun p hp => hfree p (by simp [hp])
    have hwritten : ∀ {o : Except Error Unit} {mid : Journal}, c.tainted = true →
        j.replaceFile (dir.join name) (.text c.render) = (o, mid) → mid.disk.GoesUpInside dir ∧
          mid.disk.node? (dir.join other) = j.disk.node? (dir.join other) := by
      intro o mid htainted hreplace
      rcases Journal.replaceFile_spec hs hname hreplace with ⟨hmid, hkept, -⟩
      have hne : other ≠ name := (hfree (name, c) (by simp) htainted).symm
      exact ⟨hmid, hkept other hother.isEntryName (hother.ne_temporaryName name) (.inl hne)⟩
    rcases commitAll_cons_cases h with ⟨e, htainted, hreplace, rfl, rfl⟩ |
      ⟨mid, rest', ⟨htainted, hreplace⟩ | ⟨-, rfl⟩, hrest, rfl⟩
    · exact (hwritten htainted hreplace).2
    · rcases hwritten htainted hreplace with ⟨hmid, hnode⟩
      rw [ih hmid hmore hrest hothers, hnode]
    · exact ih hs hmore hrest hothers

/-- The path of a directory with a file that can be read goes up only inside. -/
theorem goesUpInside_of_readConfig {d : Disk} {dir : Path} {name : String} {c : Config}
    (hname : IsEntryName name) (h : readConfig d (dir.join name) name = .ok c) :
    d.GoesUpInside dir := by
  rcases readConfig_eq_ok_iff.1 h with ⟨text, htext, -⟩
  rcases Disk.node?_eq_some_iff.1 (Disk.readText_eq_ok_iff.1 htext) with ⟨goal, hgoal, -⟩
  have hsteps := (Disk.locateFrom_of_locate hgoal).2.2
  rw [dir.steps_join hname, Disk.locateFrom_append_eq_ok_iff] at hsteps
  rcases hsteps with ⟨place, hplace, hrest⟩
  exact Disk.goesUpInside_of_isDirectory hplace (Disk.locateFrom_cons_eq_ok_iff.1 hrest).1

/-- What is not tainted is read after a commit as it was before. Its file was read, so its directory
is there, and no write of another file concerns it. -/
theorem readConfig_of_commitAll {dir : Path} {l l' : Loaded} {j j' : Journal}
    {outcome : Except Error Unit} (hsorted : l.Sorted)
    (hnames : ∀ p ∈ l, isConfigName p.1 = true) (h : commitAll dir l j = (outcome, l', j'))
    {name : String} {c e : Config} (hc : l.find? name = some c) (hclean : c.tainted = false)
    (hdot : name.toList.head? ≠ some '.')
    (hread : readConfig j.disk (dir.join name) name = .ok e) :
    readConfig j'.disk (dir.join name) name = .ok e := by
  have hname : IsFileName name := ⟨hnames _ (Loaded.mem_of_find? hc), hdot⟩
  have hs := goesUpInside_of_readConfig hname.isEntryName hread
  have hnode : j'.disk.node? (dir.join name) = j.disk.node? (dir.join name) := by
    refine commitAll_keeps hs hnames h hname ?_
    rintro p hp htainted rfl
    rw [Loaded.find?_of_mem hsorted hp] at hc
    cases hc
    simp [hclean] at htainted
  rw [readConfig_eq_ok_iff] at hread ⊢
  simp only [Disk.readText_eq_ok_iff, hnode] at hread ⊢
  exact hread

/-! ## Stores that have read ahead -/

/-- Whether two stores have the same configuration of a name, or one of them has read it ahead:
nothing was changed in it, and the other one would read the same unless the file is hidden. -/
def IsAheadAt (d : Disk) (dir : Path) (name : String) (found found' : Option Config) : Prop :=
  found' = found ∨ (found = none ∧ ∃ c, found' = some c ∧ c.tainted = false ∧
    (name.toList.head? ≠ some '.' → readConfig d (dir.join name) name = .ok c))

/-- Whether a store differs from another one by no more than what it has read ahead. -/
structure IsAhead (s s' : Store) (d : Disk) : Prop where
  dir : s'.dir = s.dir
  sorted : s.loaded.Sorted
  aheadSorted : s'.loaded.Sorted
  names : ∀ p ∈ s'.loaded, isConfigName p.1 = true
  entries : ∀ name, IsAheadAt d s.dir name (s.loaded.find? name) (s'.loaded.find? name)

variable {s s' : Store} {d : Disk}

theorem isAhead_refl (hsorted : s.loaded.Sorted)
    (hnames : ∀ p ∈ s.loaded, isConfigName p.1 = true) : s.IsAhead s d :=
  ⟨rfl, hsorted, hsorted, hnames, fun _ => .inl rfl⟩

theorem IsAhead.loaded (h : s.IsAhead s' d) {name : String} {c : Config}
    (hc : s.loaded.find? name = some c) : s'.loaded.find? name = some c := by
  rcases h.entries name with heq | ⟨hnone, -⟩
  · rw [heq, hc]
  · rw [hnone] at hc
    cases hc

theorem IsAhead.more (h : s.IsAhead s' d) {name : String} {c : Config}
    (hnone : s.loaded.find? name = none) (hc : s'.loaded.find? name = some c) :
    c.tainted = false ∧
      (name.toList.head? ≠ some '.' → readConfig d (s.dir.join name) name = .ok c) := by
  rcases h.entries name with heq | ⟨-, e, he, hclean, hread⟩
  · rw [heq, hnone] at hc
    cases hc
  · rw [he] at hc
    cases hc
    exact ⟨hclean, hread⟩

theorem names_put {l : Loaded} (hl : l.Sorted) (hnames : ∀ p ∈ l, isConfigName p.1 = true)
    {name : String} (hname : isConfigName name = true) (c : Config) :
    ∀ p ∈ l.put name c, isConfigName p.1 = true := by
  intro p hp
  rcases Loaded.mem_put hl hp with rfl | ⟨hp, -⟩
  · exact hname
  · exact hnames p hp

/-- One more configuration is read ahead. -/
theorem IsAhead.read (h : s.IsAhead s' d) {name : String} {c : Config}
    (hname : isConfigName name = true) (hnew : s.loaded.find? name = none)
    (hclean : c.tainted = false)
    (hread : name.toList.head? ≠ some '.' → readConfig d (s.dir.join name) name = .ok c) :
    s.IsAhead { s' with loaded := s'.loaded.put name c } d where
  dir := h.dir
  sorted := h.sorted
  aheadSorted := Loaded.sorted_put h.aheadSorted name c
  names := names_put h.aheadSorted h.names hname c
  entries other := by
    by_cases heq : other = name
    · subst heq
      rw [Loaded.find?_put_self]
      exact .inr ⟨hnew, c, rfl, hclean, hread⟩
    · rw [Loaded.find?_put_of_ne heq]
      exact h.entries other

/-- The store that is behind loads what the other one has loaded. -/
theorem IsAhead.catchUp (h : s.IsAhead s' d) {name : String} {c : Config}
    (hc : s'.loaded.find? name = some c) :
    ({ s with loaded := s.loaded.put name c } : Store).IsAhead s' d where
  dir := h.dir
  sorted := Loaded.sorted_put h.sorted name c
  aheadSorted := h.aheadSorted
  names := h.names
  entries other := by
    by_cases heq : other = name
    · subst heq
      rw [Loaded.find?_put_self]
      exact .inl hc
    · rw [Loaded.find?_put_of_ne heq]
      exact h.entries other

/-- Both stores change a configuration in the same way. -/
theorem IsAhead.put (h : s.IsAhead s' d) {name : String} (hname : isConfigName name = true)
    (c : Config) :
    ({ s with loaded := s.loaded.put name c } : Store).IsAhead
      { s' with loaded := s'.loaded.put name c } d where
  dir := h.dir
  sorted := Loaded.sorted_put h.sorted name c
  aheadSorted := Loaded.sorted_put h.aheadSorted name c
  names := names_put h.aheadSorted h.names hname c
  entries other := by
    by_cases heq : other = name
    · subst heq
      rw [Loaded.find?_put_self, Loaded.find?_put_self]
      exact .inl rfl
    · rw [Loaded.find?_put_of_ne heq, Loaded.find?_put_of_ne heq]
      exact h.entries other

theorem IsAhead.revert (h : s.IsAhead s' d) (name : String) :
    (s.revert name).2.IsAhead (s'.revert name).2 d where
  dir := h.dir
  sorted := h.sorted.filter _
  aheadSorted := h.aheadSorted.filter _
  names p hp := h.names p (List.mem_filter.1 hp).1
  entries other := by
    simp only [Store.revert]
    by_cases heq : other = name
    · subst heq
      rw [Loaded.find?_remove_self, Loaded.find?_remove_self]
      exact .inl rfl
    · rw [Loaded.find?_remove_of_ne heq, Loaded.find?_remove_of_ne heq]
      exact h.entries other

/-- Both stores make the same commit. -/
theorem IsAhead.commit (h : s.IsAhead s' d) :
    (s'.commit d).1 = (s.commit d).1 ∧ (s'.commit d).2.2.disk = (s.commit d).2.2.disk ∧
      (s.commit d).2.1.IsAhead (s'.commit d).2.1 (s.commit d).2.2.disk := by
  let kept : String → Bool := fun name => (s.loaded.find? name).isSome
  have hfilter : s.loaded = s'.loaded.filter (kept ·.1) :=
    Loaded.eq_filter h.sorted h.aheadSorted fun _ _ hc => h.loaded hc
  have hclean : ∀ p ∈ s'.loaded, kept p.1 = false → p.2.tainted = false := by
    intro p hp hnot
    exact (h.more (by simpa [kept] using hnot) (Loaded.find?_of_mem h.aheadSorted hp)).1
  rcases hall : commitAll s.dir s'.loaded { disk := d } with ⟨outcome, l', j⟩
  rcases commitAll_filter hclean hall with ⟨hsame, hothers, hmap⟩
  rw [← hfilter] at hsame
  simp only [Store.commit, h.dir, hall, hsame, true_and]
  have hsorted : Loaded.Sorted l' := Loaded.sorted_congr hmap h.aheadSorted
  refine ⟨rfl, hsorted.filter _, hsorted, ?_, fun name => ?_⟩
  · intro p hp
    have hmem : p.1 ∈ s'.loaded.map (·.1) := by
      rw [← hmap]
      exact List.mem_map_of_mem hp
    rcases List.mem_map.1 hmem with ⟨q, hq, heq⟩
    exact heq ▸ h.names q hq
  · have hthere : Loaded.find? (l'.filter (kept ·.1)) name =
        if kept name then Loaded.find? l' name else none := Loaded.find?_filter l' kept name
    rw [hthere]
    split
    · exact .inl rfl
    · next hnot =>
      have hnone : s.loaded.find? name = none := by simpa [kept] using hnot
      -- What was loaded ahead is as it was, for it is not tainted.
      have hahead : Loaded.find? l' name = s'.loaded.find? name := by
        have heq := Loaded.find?_filter l' (fun name => !kept name) name
        rw [hothers, Loaded.find?_filter s'.loaded (fun name => !kept name) name] at heq
        simpa [hnot] using heq.symm
      rw [hahead]
      cases hc : s'.loaded.find? name with
      | none => exact .inl rfl
      | some c =>
        rcases h.more hnone hc with ⟨huntainted, hread⟩
        exact .inr ⟨rfl, c, rfl, huntainted, fun hdot =>
          readConfig_of_commitAll (j := { disk := d }) h.aheadSorted h.names hall hc huntainted hdot
            (hread hdot)⟩

/-! ## Opening -/

/-- What two stores have opened: the same configuration, or neither has any. -/
def SameOpened (d : Disk) (name : String) (opened opened' : Opened) : Prop :=
  (∃ e, opened = .error e ∧ opened' = .error e) ∨
    ∃ c s s', opened = .ok (c, s) ∧ opened' = .ok (c, s') ∧ isConfigName name = true ∧
      s.IsAhead s' d

/-- Two stores open the same where a file that can be read is read. -/
theorem IsAhead.openWith (h : s.IsAhead s' d) {name : String} (hdot : name.toList.head? ≠ some '.')
    {read : Path → Except Error Config}
    (hread : ∀ path c, readConfig d path name = .ok c → read path = .ok c) :
    SameOpened d name (s.openWith name read) (s'.openWith name read) := by
  unfold Store.openWith configPath
  by_cases hname : isConfigName name = true
  · simp only [hname, if_true, h.dir]
    cases hfound : s.loaded.find? name with
    | some c =>
      simp only [h.loaded hfound]
      exact .inr ⟨c, s, s', rfl, rfl, hname, h⟩
    | none =>
      cases hahead : s'.loaded.find? name with
      | some c =>
        simp only [hread _ c ((h.more hfound hahead).2 hdot)]
        exact .inr ⟨c, _, s', rfl, rfl, hname, h.catchUp hahead⟩
      | none =>
        cases read (s.dir.join name) with
        | error e => exact .inl ⟨e, rfl, rfl⟩
        | ok c =>
          refine .inr ⟨c, _, _, rfl, rfl, hname, ?_⟩
          simpa only [h.dir] using h.put hname c
  · simp only [hname]
    exact .inl ⟨_, rfl, rfl⟩

theorem IsAhead.load (h : s.IsAhead s' d) {name : String}
    (hdot : name.toList.head? ≠ some '.') :
    SameOpened d name (s.load d name) (s'.load d name) :=
  h.openWith hdot fun _ _ hread => hread

theorem IsAhead.ensure (h : s.IsAhead s' d) {name : String}
    (hdot : name.toList.head? ≠ some '.') :
    SameOpened d name (s.ensure d name) (s'.ensure d name) :=
  h.openWith hdot fun _ _ hread => by simp only [hread]

theorem IsAhead.opens (h : s.IsAhead s' d) {r : Request} {name : String}
    (hname : r.config? = some name) (hdot : name.toList.head? ≠ some '.') {opened : Opened}
    (hopens : r.opens s d = some opened) :
    ∃ opened', r.opens s' d = some opened' ∧ SameOpened d name opened opened' := by
  cases r with
  | names | commit | revert | reopen => cases hopens
  | load | get | getLast | getBool | set | addToList | deleteSection | deleteSetting =>
    cases hname
    cases hopens
    exact ⟨_, rfl, h.load hdot⟩
  | ensure =>
    cases hname
    cases hopens
    exact ⟨_, rfl, h.ensure hdot⟩
  | addSection config type =>
    cases hname
    cases hopens
    refine ⟨_, rfl, ?_⟩
    split
    · exact .inl ⟨_, rfl, rfl⟩
    · exact h.ensure hdot

end Store

/-! ## Sessions -/

namespace Session

/-- Whether two sessions have the same disk, and the store of one has read ahead. -/
structure IsAhead (w w' : Session) : Prop where
  disk : w'.disk = w.disk
  store : w.store.IsAhead w'.store w.disk

/-- A store that has read ahead hands out the same configurations. -/
theorem handedOut?_isAhead {w w' : Session} (h : w.IsAhead w') {r : Request}
    (hdot : ∀ name, r.config? = some name → name.toList.head? ≠ some '.') :
    w'.handedOut? r = w.handedOut? r := by
  have hsame : ∀ {name : String} {opened opened' : Store.Opened},
      Store.SameOpened w.disk name opened opened' →
        opened'.toOption.map (·.1) = opened.toOption.map (·.1) := by
    intro name opened opened' hopened
    rcases hopened with ⟨e, rfl, rfl⟩ | ⟨c, s, s', rfl, rfl, -⟩
    · rfl
    · rfl
  cases r with
  | load config =>
    simp only [handedOut?, h.disk]
    exact hsame (h.store.load (hdot config rfl))
  | ensure config =>
    simp only [handedOut?, h.disk]
    exact hsame (h.store.ensure (hdot config rfl))
  | _ => rfl

/-- A store that has read ahead gives the same answer and makes the same changes. Only when it
forgets a configuration it may tell that it was loaded. -/
theorem step_isAhead {w w' : Session} (h : w.IsAhead w') {r : Request}
    (hdot : ∀ name, r.config? = some name → name.toList.head? ≠ some '.') :
    (w.step r).2.IsAhead (w'.step r).2 ∧
      ((∀ name, r ≠ .revert name) → (w'.step r).1 = (w.step r).1) := by
  rcases w with ⟨s, d⟩
  rcases w' with ⟨s', d'⟩
  rcases h with ⟨hdisk, h⟩
  simp only at hdisk h
  subst hdisk
  rcases Request.opens_cases r s d' with
    ⟨name, opened, hname, hopens⟩ | rfl | rfl | ⟨config, rfl⟩ | ⟨other, rfl⟩
  · rcases h.opens hname (hdot name hname) hopens with ⟨opened', hopens', hsame⟩
    rw [step_eq_actOn (w := ⟨s, d'⟩) h.sorted hname hopens,
      step_eq_actOn (w := ⟨s', d'⟩) h.aheadSorted hname hopens']
    rcases hsame with ⟨e, rfl, rfl⟩ | ⟨c, t, t', rfl, rfl, hvalid, ht⟩
    · exact ⟨⟨rfl, h⟩, fun _ => rfl⟩
    · simp only [actOn]
      cases r.act c with
      | error e => exact ⟨⟨rfl, ht⟩, fun _ => rfl⟩
      | ok p => exact ⟨⟨rfl, ht.put hvalid p.2⟩, fun _ => rfl⟩
  · refine ⟨⟨rfl, h⟩, fun _ => ?_⟩
    simp only [step, Store.configNames, h.dir, keepDisk]
  · rcases h.commit with ⟨houtcome, hdisk, hstore⟩
    refine ⟨⟨hdisk, hstore⟩, fun _ => ?_⟩
    simp only [step, houtcome]
  · exact ⟨⟨rfl, h.revert config⟩, fun hne => absurd rfl (hne config)⟩
  · have hempty : ({ dir := other } : Store).IsAhead { dir := other } d' :=
      Store.isAhead_refl List.Pairwise.nil (by simp)
    exact ⟨⟨rfl, hempty⟩, fun _ => rfl⟩

/-- What a session tells one request, a store that has read ahead tells it as well, unless the
request is to forget a configuration. -/
theorem reply_isAhead {w w' : Session} (h : w.IsAhead w') {r : Request}
    (hdot : ∀ name, r.config? = some name → name.toList.head? ≠ some '.')
    (hrevert : ∀ name, r ≠ .revert name) : w'.reply r = w.reply r := by
  have hanswer := (step_isAhead h hdot).2 hrevert
  rw [reply, reply, hanswer, handedOut?_isAhead h hdot]

/-- What a run of requests is told. -/
def replies (w : Session) : List Request → List Reply
  | [] => []
  | r :: rest => w.reply r :: (w.step r).2.replies rest

/-- A store that has read ahead cannot be told by what a run of requests is told. -/
theorem run_isAhead {w w' : Session} (h : w.IsAhead w') {requests : List Request}
    (hdot : ∀ r ∈ requests, ∀ name, r.config? = some name → name.toList.head? ≠ some '.')
    (hrevert : ∀ r ∈ requests, ∀ name, r ≠ .revert name) :
    (w.run requests).IsAhead (w'.run requests) ∧ w'.replies requests = w.replies requests := by
  induction requests generalizing w w' with
  | nil => exact ⟨h, rfl⟩
  | cons r rest ih =>
    have hstep := (step_isAhead h (hdot r (by simp))).1
    have hreply := reply_isAhead h (hdot r (by simp)) (hrevert r (by simp))
    rcases ih hstep (fun r hr => hdot r (by simp [hr])) fun r hr => hrevert r (by simp [hr]) with
      ⟨hrun, hreplies⟩
    refine ⟨hrun, ?_⟩
    rw [replies, replies, hreplies, hreply]

end Session

end UnifiedConfig
