import UnifiedConfig.Proofs.Readahead

/-!
# Lookups cannot be told

Whoever looks something up in a store may make it load a configuration, and so the store may have
loaded more than it would have without. It has read ahead then (`Readahead`), and nothing else has
happened. So lookups can be put into a run of calls wherever one likes: the other calls give the
same outcomes, but for those that tell what is loaded, and the same is tainted and on the disk.

* `load_ahead`: a store that loads a configuration has read ahead.
* `call_isAhead`, `lookup_isAhead`: what a call keeps that both make, or that one makes alone.
* `call_of_inserts`: a call after a run, and after the same run with lookups put into it.
-/

namespace UnifiedConfig

/-! ## Loading -/

/-- A store that loads a configuration has read ahead, if it had not loaded it already. -/
theorem Store.IsAhead.load_ahead {s s' t : Store} {d : Disk} (h : s.IsAhead s' d) {name : String}
    {c : Config} (hload : s'.load d name = .ok (c, t)) : s.IsAhead t d := by
  rcases openWith_eq_ok hload with ⟨hname, ⟨-, rfl⟩ | ⟨hnew, hread, rfl⟩⟩
  · exact h
  · -- What the store behind has loaded, the other one has loaded as well.
    have hbehind : s.loaded.find? name = none := by
      cases hfound : s.loaded.find? name with
      | none => rfl
      | some e =>
        have hahead := h.loaded hfound
        rw [hnew] at hahead
        cases hahead
    have hclean : c.tainted = false := by
      rcases readConfig_eq_ok_iff.1 hread with ⟨text, -, hparse⟩
      exact Config.tainted_of_parse hparse
    rw [h.dir] at hread
    exact h.read hname hbehind hclean fun _ => hread

namespace Session

/-! ## Calls -/

/-- What can be done with a store: to ask it for something, or to look at what it has loaded. -/
inductive Call where
  | request (r : Request)
  | loaded (config : String)
deriving DecidableEq, Repr

/-- What a call gives. -/
inductive Outcome where
  | replied (r : Reply)
  | found (c : Option Config)

/-- What a call does. To look at what is loaded does nothing. -/
def call (w : Session) : Call → Outcome × Session
  | .request r => (.replied (w.reply r), (w.step r).2)
  | .loaded config => (.found (w.store.loaded.find? config), w)

/-- The session after a run of calls. -/
def calls (w : Session) (cs : List Call) : Session :=
  cs.foldl (fun w c => (w.call c).2) w

namespace Call

/-- Whether a call only looks something up. -/
def IsLookup : Call → Prop
  | .request (.load _) | .request .names | .request (.get _ _ _) | .request (.getLast _ _ _)
  | .request (.getBool _ _ _) | .loaded _ => True
  | .request _ => False

/-- Whether the outcome of a call tells what is loaded. -/
def TellsLoaded : Call → Prop
  | .request (.revert _) | .loaded _ => True
  | .request _ => False

/-- Whether a call asks for no configuration whose name begins with a dot. -/
def IsVisible : Call → Prop
  | .request r => ∀ name, r.config? = some name → name.toList.head? ≠ some '.'
  | .loaded _ => True

end Call

/-- Whether a run of calls is another one with lookups put into it. -/
inductive Inserts : List Call → List Call → Prop where
  | nil : Inserts [] []
  | call {cs cs' : List Call} (c : Call) (h : Inserts cs cs') : Inserts (c :: cs) (c :: cs')
  | lookup {cs cs' : List Call} {c : Call} (hc : c.IsLookup) (h : Inserts cs cs') :
    Inserts cs (c :: cs')

/-! ## What calls keep -/

variable {w w' : Session}

theorem actOn_load (h : w.IsAhead w') {r : Request} {name : String}
    (hact : ∀ c a c', r.act c = .ok (a, c') → c' = c) :
    w.IsAhead (w'.actOn r name (w'.store.load w'.disk name)).2 := by
  cases hload : w'.store.load w'.disk name with
  | error e => exact h
  | ok p =>
    rcases p with ⟨c, t⟩
    have ht : w.store.IsAhead t w.disk := h.store.load_ahead (h.disk ▸ hload)
    simp only [actOn]
    cases hr : r.act c with
    | error e => exact ⟨h.disk, ht⟩
    | ok p =>
      rcases p with ⟨a, c'⟩
      cases hact c a c' hr
      have hopened := Store.load_eq_ok hload
      have hput := Loaded.put_of_find? (hopened.sorted h.store.aheadSorted) hopened.find?
      simp only [hput]
      exact ⟨h.disk, ht⟩

/-- A lookup lets a store read ahead, if anything. -/
theorem lookup_isAhead (h : w.IsAhead w') {c : Call} (hc : c.IsLookup) :
    w.IsAhead (w'.call c).2 := by
  have hsorted := h.store.aheadSorted
  cases c with
  | loaded config => exact h
  | request r =>
    simp only [call]
    cases r with
    | names => exact h
    | load config =>
      rw [step_eq_actOn hsorted rfl rfl]
      refine actOn_load h ?_
      intro c a c' hact
      cases hact
      rfl
    | get | getLast | getBool =>
      rw [step_eq_actOn hsorted rfl rfl]
      refine actOn_load h ?_
      intro c a c' hact
      rcases map_eq_ok_iff.1 hact with ⟨b, -, heq⟩
      cases heq
      rfl
    | _ => cases hc

/-- A call that both make keeps what one of them has read ahead. -/
theorem call_isAhead (h : w.IsAhead w') {c : Call} (hc : c.IsVisible) :
    (w.call c).2.IsAhead (w'.call c).2 ∧ (¬ c.TellsLoaded → (w'.call c).1 = (w.call c).1) := by
  cases c with
  | loaded config => exact ⟨h, fun hnot => absurd trivial hnot⟩
  | request r =>
    refine ⟨(step_isAhead h hc).1, fun hnot => ?_⟩
    have hrevert : ∀ name, r ≠ .revert name := by
      rintro name rfl
      exact hnot trivial
    simp only [call, reply_isAhead h hc hrevert]

theorem calls_isAhead (h : w.IsAhead w') {cs cs' : List Call} (hinserts : Inserts cs cs')
    (hcs : ∀ c ∈ cs, c.IsVisible) : (w.calls cs).IsAhead (w'.calls cs') := by
  induction hinserts generalizing w w' with
  | nil => exact h
  | call c _ ih =>
    exact ih (call_isAhead h (hcs c (by simp))).1 fun d hd => hcs d (by simp [hd])
  | lookup hc _ ih => exact ih (lookup_isAhead h hc) hcs

/-- What is tainted is loaded by both. -/
theorem IsAhead.tainted (h : w.IsAhead w') {name : String} {c : Config} (hc : c.tainted = true) :
    w'.store.loaded.find? name = some c ↔ w.store.loaded.find? name = some c := by
  refine ⟨fun hahead => ?_, fun hbehind => h.store.loaded hbehind⟩
  cases hbehind : w.store.loaded.find? name with
  | none =>
    have hclean := (h.store.more hbehind hahead).1
    rw [hc] at hclean
    cases hclean
  | some d =>
    rw [h.store.loaded hbehind] at hahead
    exact hahead

/-- Lookups cannot be told. A store is opened on a directory, calls are made that ask for no hidden
file, and lookups of whatever kind are put anywhere between them, whether or not they succeed. Each
call then has the same outcome as without the lookups, with the same configuration handed out if it
loads one, unless it tells what is loaded. After it the disk is the same and so is what is tainted. -/
theorem call_of_inserts {dir : Path} (hstore : w.store = { dir }) {cs cs' : List Call}
    (hinserts : Inserts cs cs') (hcs : ∀ c ∈ cs, c.IsVisible) {c : Call} (hc : c.IsVisible) :
    (¬ c.TellsLoaded → ((w.calls cs').call c).1 = ((w.calls cs).call c).1) ∧
      ((w.calls cs').call c).2.disk = ((w.calls cs).call c).2.disk ∧
      ∀ name d, d.tainted = true →
        (((w.calls cs').call c).2.store.loaded.find? name = some d ↔
          ((w.calls cs).call c).2.store.loaded.find? name = some d) := by
  have hw : w.IsAhead w :=
    ⟨rfl, Store.isAhead_refl (by rw [hstore]; exact List.Pairwise.nil) (by simp [hstore])⟩
  rcases call_isAhead (calls_isAhead hw hinserts hcs) hc with ⟨hafter, houtcome⟩
  exact ⟨houtcome, hafter.disk, fun name d hd => hafter.tainted hd⟩

/-- A configuration that is looked up before it is edited, and again before the commit. -/
theorem call_of_inserts_dhcp :
    let w := ofFile "dhcp" "config pool 'lan'\n"
    let edit : Call := .request (.set "dhcp" "lan" "dns" .scalar ["a"])
    let cs' : List Call := [.request (.load "dhcp"), .loaded "dhcp", edit,
      .request (.get "none" "lan" "dns"), .request .names]
    ((w.calls cs').call (.request .commit)).1 = ((w.calls [edit]).call (.request .commit)).1 ∧
      ((w.calls cs').call (.request .commit)).2.disk =
        ((w.calls [edit]).call (.request .commit)).2.disk := by
  intro w edit cs'
  have hinserts : Inserts [edit] cs' :=
    .lookup trivial (.lookup trivial (.call edit (.lookup trivial (.lookup trivial .nil))))
  have hedit : ∀ c ∈ [edit], c.IsVisible := by
    simp [edit, Call.IsVisible, Request.config?]
  have hcommit : (Call.request .commit).IsVisible := by
    simp [Call.IsVisible, Request.config?]
  have hsame := call_of_inserts (w := w) rfl hinserts hedit hcommit
  exact ⟨hsame.1 id, hsame.2.1⟩

end Session

end UnifiedConfig
