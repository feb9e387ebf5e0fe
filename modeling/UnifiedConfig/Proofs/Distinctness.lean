import UnifiedConfig.Proofs.Edits
import UnifiedConfig.Proofs.Requests

/-!
# What tells the parts of a configuration apart

Sections are told apart by their names, settings by theirs within a section. Neither a section nor a
setting is compared with the others when it is appended; it is looked up before that.

* `Request.Edits.isDistinct`: whatever an action does, no name comes twice.
* `step_isDistinct`, `run_isDistinct`: what is loaded goes on to be told apart.
* `isDistinct_of_run`: the same for all that a store ever loads, and for all that is read.
-/

namespace UnifiedConfig

/-- Whether every section has a type, no two sections have the same name, and no two settings of a
section do. A section without a name has none to share. -/
structure Config.IsDistinct (c : Config) : Prop where
  types : ∀ s ∈ c.sections, s.type ≠ ""
  names : (c.sections.map (·.name)).Pairwise fun a b => b ≠ "" → a ≠ b
  settings : ∀ s ∈ c.sections, (s.settings.map (·.name)).Nodup

/-! ## Edits -/

namespace Config

theorem isDistinct_nil (name : String) : ({ name } : Config).IsDistinct :=
  ⟨by simp, by simp, by simp⟩

/-- What is read from a text is regular, and more than distinct. -/
theorem isDistinct_of_parse {c : Config} {name text : String} (h : parse name text = .ok c) :
    c.IsDistinct := by
  have hregular := parse_isRegular h
  exact ⟨fun s hs => (hregular.sections s hs).type_ne, hregular.fresh.distinct,
    fun s hs => (hregular.sections s hs).distinct⟩

theorem isDistinct_changeAt {c : Config} (h : c.IsDistinct) (i : Nat) {change : Section → Section}
    (hheading : ∀ s, (change s).heading = s.heading)
    (hchange : ∀ s, (s.settings.map (·.name)).Nodup → ((change s).settings.map (·.name)).Nodup) :
    (c.changeAt i change).IsDistinct where
  types := by
    refine forall_changeAt h.types i fun s hs => ?_
    have htype : (change s).type = s.type := congrArg Prod.fst (hheading s)
    rwa [htype]
  names := by
    have hnames := congrArg (·.map Prod.snd) (headings_changeAt c i hheading)
    simp only [List.map_map] at hnames
    exact (congrArg (·.Pairwise fun a b => b ≠ "" → a ≠ b) hnames).mpr h.names
  settings := forall_changeAt h.settings i hchange

theorem isDistinct_push {c : Config} (h : c.IsDistinct) {type name : String} (htype : type ≠ "")
    (hname : name = "" ∨ c.findNamed? name = none) : (c.push { type, name }).IsDistinct where
  types := forall_push h.types htype
  names := by
    have hpush : (c.push { type, name }).sections = c.sections ++ [({ type, name } : Section)] :=
      rfl
    rw [hpush, List.map_append, List.map_singleton]
    refine List.pairwise_append.2 ⟨h.names, List.pairwise_singleton _ _, ?_⟩
    intro a ha b hb hne heq
    rcases List.mem_map.1 ha with ⟨s, hs, rfl⟩
    rw [List.mem_singleton] at hb
    subst hb
    -- The section that has the name would have been found by it.
    rcases findNamed?_of_mem hs (heq ▸ hne) with ⟨t, ht⟩
    rw [heq, hname.resolve_left hne] at ht
    cases ht
  settings := forall_push h.settings (by simp)

theorem isDistinct_eraseIdx {c : Config} (h : c.IsDistinct) (i : Nat) (tainted : Bool) :
    ({ c with sections := c.sections.eraseIdx i, tainted } : Config).IsDistinct := by
  have hsub := List.eraseIdx_sublist c.sections i
  exact ⟨fun s hs => h.types s (hsub.subset hs), h.names.sublist (hsub.map _),
    fun s hs => h.settings s (hsub.subset hs)⟩

theorem IsDistinct.markClean {c : Config} (h : c.IsDistinct) : c.markClean.IsDistinct :=
  ⟨h.types, h.names, h.settings⟩

end Config

namespace Request

/-- Each change is one by name, and so makes no name come twice. -/
theorem nodup_of_change? {r : Request} {change : Section → Section} (h : r.change? = some change)
    (s : Section) : (change s).heading = s.heading ∧
      ((s.settings.map (·.name)).Nodup → ((change s).settings.map (·.name)).Nodup) := by
  cases r with
  | set | addToList =>
    cases h
    exact ⟨rfl, fun hs => nodup_changeFirstOr hs rfl fun _ => rfl⟩
  | deleteSetting =>
    cases h
    exact ⟨rfl, fun hs => hs.sublist (List.eraseP_sublist.map _)⟩
  | _ => cases h

/-- An edit keeps the parts of a configuration told apart, if it brings in no empty type. -/
theorem Edits.isDistinct {r : Request} {c c' : Config} (h : r.Edits c c') (hc : c.IsDistinct)
    (htype : ∀ config name, r ≠ .addSection config "" name) : c'.IsDistinct := by
  cases h with
  | same => exact hc
  | changed hchange i =>
    have hchanged := Config.isDistinct_changeAt hc i (fun s => (nodup_of_change? hchange s).1)
      fun s => (nodup_of_change? hchange s).2
    exact ⟨hchanged.types, hchanged.names, hchanged.settings⟩
  | unnamed config type =>
    exact Config.isDistinct_push hc (fun heq => htype config none (heq ▸ rfl)) (.inl rfl)
  | @named config type name hnone =>
    exact Config.isDistinct_push hc (fun heq => htype config (some name) (heq ▸ rfl)) (.inr hnone)
  | deleted _ _ i => exact Config.isDistinct_eraseIdx hc i true

end Request

/-! ## Runs -/

namespace Session

/-- Whether the parts of each configuration that is loaded are told apart. -/
def IsDistinct (w : Session) : Prop :=
  w.store.Holds fun _ c => c.IsDistinct

/-- A configuration is read from its file, or begins empty. -/
theorem isDistinct_of_isFirst {d : Disk} {path : Path} {name : String} {c : Config}
    (h : Store.IsFirst d path name c) : c.IsDistinct := by
  rcases h with hread | ⟨rfl, -⟩
  · rcases Store.readConfig_eq_ok_iff.1 hread with ⟨text, -, hparse⟩
    exact Config.isDistinct_of_parse hparse
  · exact Config.isDistinct_nil name

/-- A request keeps what is loaded told apart, whatever its arguments and its outcome are. -/
theorem step_isDistinct {w : Session} (hw : w.IsDistinct) (r : Request) :
    (w.step r).2.IsDistinct := by
  rcases Request.opens_cases r w.store w.disk with
    ⟨name, opened, hname, hopens⟩ | rfl | rfl | ⟨config, rfl⟩ | ⟨dir, rfl⟩
  · by_cases htype : ∃ config n, r = .addSection config "" n
    · -- The empty type is refused before anything is opened.
      rcases htype with ⟨config, n, rfl⟩
      cases hopens
      rw [step_eq_actOn hw.sorted hname rfl]
      exact hw
    · have htype : ∀ config n, r ≠ .addSection config "" n :=
        fun config n heq => htype ⟨config, n, heq⟩
      exact (step_holds hw hname hopens (fun c _ h => isDistinct_of_isFirst h)
        fun c a c' hc h => (Request.act_edits h).isDistinct hc htype).1
  · exact hw
  · rcases hcommit : w.store.commit w.disk with ⟨outcome, s', j⟩
    simp only [step, hcommit]
    exact hw.commit (fun _ _ hc => hc.markClean) hcommit
  · exact hw.revert config
  · exact Store.holds_empty dir _

theorem run_isDistinct {w : Session} (hw : w.IsDistinct) (requests : List Request) :
    (w.run requests).IsDistinct := by
  induction requests generalizing w with
  | nil => exact hw
  | cons r rest ih => exact ih (step_isDistinct hw r)

/-- In whatever a store has loaded, after any run of requests on any disk, each section has a type,
no two sections have the same name, and no two settings of a section do. The same is so of whatever
is read from a text. -/
theorem isDistinct_of_run {w : Session} {dir : Path} (hstore : w.store = { dir })
    (requests : List Request) :
    (∀ name c, (w.run requests).store.loaded.find? name = some c → c.IsDistinct) ∧
      ∀ name text c, Config.parse name text = .ok c → c.IsDistinct := by
  refine ⟨?_, fun name text c h => Config.isDistinct_of_parse h⟩
  intro name c hc
  have hempty : w.IsDistinct := by
    rw [IsDistinct, hstore]
    exact Store.holds_empty dir _
  exact (run_isDistinct hempty requests).entries name c (Loaded.mem_of_find? hc)

/-- A section is opened again by its synthetic name, and another one gets that name when the first
is deleted. -/
theorem isDistinct_of_run_firewall :
    let w := ofFile "firewall"
      "config rule\nconfig zone 'lan'\nconfig rule '@rule[0]'\nconfig rule\n"
    let requests := [Request.deleteSection "firewall" "@rule[0]",
      .addSection "firewall" "zone" (some "lan"), .set "firewall" "@rule[-1]" "src" .scalar ["a"],
      .addToList "firewall" "@rule[0]" "src" "b", .addSection "firewall" "rule" none]
    let c : Config :=
      { name := "firewall", tainted := true, sections :=
        [{ type := "zone", name := "lan" },
          { type := "rule", settings := [{ name := "src", kind := .list, values := ["a", "b"] }] },
          { type := "rule" }] }
    (w.run requests).store.loaded.find? "firewall" = some c ∧ c.IsDistinct := by
  intro w requests c
  have hloaded : (w.run requests).store.loaded.find? "firewall" = some c := by decide +kernel
  exact ⟨hloaded, (isDistinct_of_run rfl requests).1 "firewall" c hloaded⟩

end Session

end UnifiedConfig
