import UnifiedConfig.Command
import UnifiedConfig.Proofs.Lookups
import UnifiedConfig.Proofs.Names
import UnifiedConfig.Proofs.Requests
import UnifiedConfig.Proofs.Selectors

/-!
# Names address what they name

A section is printed under the name that it goes by, in an address of its own. The name is the
section's own or counts the sections of its type, and an address is cut at signs that a name could
hold as well. Where no name is open to a second reading, what is printed leads back to the section.

* `find_nameOf`, `nameOf_injective`: a section is found by the name that it goes by.
* `parse_addressOf`: the address of a section is read as its configuration and its name.
* `names_address_sections`: all of this, and what is shown at an address.
-/

namespace UnifiedConfig

open Text

/-! ## Names as selectors -/

/-- Whether the sections of a configuration are told apart by selectors: none of the names can be
taken for a positional selector, no two are the same, and the type of an unnamed section can stand
in a positional selector. The ordinals fit the integers that a selector can hold. -/
structure Config.IsSelectable (c : Config) : Prop where
  size : (c.sections.length : Int) ≤ int64Max
  distinct : (c.sections.map (·.name)).Pairwise fun a b => b ≠ "" → a ≠ b
  names : ∀ s ∈ c.sections, s.name.toList.head? ≠ some '@'
  types : ∀ s ∈ c.sections, s.name = "" → Selector.Admits s.type

instance (c : Config) : Decidable c.IsSelectable :=
  decidable_of_iff ((c.sections.length : Int) ≤ int64Max ∧
      (c.sections.map (·.name)).Pairwise (fun a b => b ≠ "" → a ≠ b) ∧
      (∀ s ∈ c.sections, s.name.toList.head? ≠ some '@') ∧
      ∀ s ∈ c.sections, s.name = "" → Selector.Admits s.type)
    ⟨fun ⟨a, b, c, d⟩ => ⟨a, b, c, d⟩, fun ⟨a, b, c, d⟩ => ⟨a, b, c, d⟩⟩

namespace Config

theorem nameOf_eq {c : Config} {i : Nat} {s : Section} (hs : c.sections[i]? = some s) :
    c.nameOf s i = .ok (s.nameAt (c.countBefore s.type i)) := by
  unfold nameOf Section.nameAt
  split
  · simp [ordinalOf, ordinal?, hs, Except.map]
  · rfl

/-- The first section that has a name is the one that has it, as no other does. -/
theorem placeNamed?_of_distinct {c : Config}
    (h : (c.sections.map (·.name)).Pairwise fun a b => b ≠ "" → a ≠ b) {i : Nat} {s : Section}
    (hs : c.sections[i]? = some s) (hne : s.name ≠ "") : c.placeNamed? s.name = some i := by
  obtain ⟨hi, rfl⟩ := List.getElem?_eq_some_iff.1 hs
  refine List.findIdx?_eq_some_iff_getElem.2 ⟨hi, ?_, ?_⟩
  · simp [Section.hasName, Section.isUnnamed, hne]
  · intro j hj
    have hpair := List.pairwise_iff_getElem.1 h j i (by simp; omega) (by simpa using hi) hj
    simp only [List.getElem_map] at hpair
    simp [Section.hasName, hpair hne]

/-- A section is at the place that the name it goes by selects. -/
theorem place_nameAt {c : Config} (hc : c.IsSelectable) {i : Nat} {s : Section}
    (hs : c.sections[i]? = some s) :
    c.place (s.nameAt (c.countBefore s.type i)) = .ok (some i) := by
  have hmem := List.mem_of_getElem? hs
  by_cases hname : s.name = ""
  · -- The ordinal is in range, and there is no other section at it.
    have hlt := countBefore_lt_count hs
    have hcount : c.count s.type ≤ c.sections.length := List.countP_le_length
    have hsize := hc.size
    have hparse := Selector.parse_text (hc.types s hmem hname)
      (show (c.countBefore s.type i : Int) ≤ int64Max by omega)
    have hresolve : Selector.resolve (c.countBefore s.type i) (c.count s.type) =
        .ok (c.countBefore s.type i) := by
      rw [Selector.resolve, if_neg (by omega), if_neg (by omega), Int.toNat_natCast]
    have hplace : placeOf? s.type (c.countBefore s.type i) c.sections = some i :=
      placeOf?_eq_some_iff.2 ⟨s, hs, rfl, rfl⟩
    rw [Section.nameAt, if_pos (by simpa [Section.isUnnamed] using hname), place, hparse]
    simp [bind, Except.bind, placeAt, hresolve, hplace, Except.map]
  · have hat := hc.names s hmem
    rw [Section.nameAt, if_neg (by simpa [Section.isUnnamed] using hname), place, Selector.parse,
      if_neg hat]
    simp [bind, Except.bind, pure, Except.pure, placeNamed?_of_distinct hc.distinct hs hname]

/-- A section is found by the name that it goes by, and at its own place. -/
theorem find_nameOf {c : Config} (hc : c.IsSelectable) {i : Nat} {s : Section}
    (hs : c.sections[i]? = some s) :
    ∃ name, c.nameOf s i = .ok name ∧ c.place name = .ok (some i) ∧
      c.find name = .ok (some s) := by
  have hplace := place_nameAt hc hs
  exact ⟨_, nameOf_eq hs, hplace, by simp [find, hplace, hs, Except.map]⟩

/-- No two sections go by the same name. -/
theorem nameOf_injective {c : Config} (hc : c.IsSelectable) {i j : Nat} {s t : Section}
    {name : String} (hs : c.sections[i]? = some s) (ht : c.sections[j]? = some t)
    (hsname : c.nameOf s i = .ok name) (htname : c.nameOf t j = .ok name) : i = j := by
  have hi := place_nameAt hc hs
  have hj := place_nameAt hc ht
  rw [Except.ok.inj ((nameOf_eq hs).symm.trans hsname)] at hi
  rw [Except.ok.inj ((nameOf_eq ht).symm.trans htname), hi] at hj
  simpa using hj

end Config

/-! ## Addresses of sections -/

/-- Whether the name of a configuration and the names of its sections can stand in an address. -/
structure Config.FitsAddress (c : Config) : Prop where
  config : '.' ∉ c.name.toList ∧ '=' ∉ c.name.toList
  names : ∀ s ∈ c.sections, '.' ∉ s.name.toList ∧ '=' ∉ s.name.toList
  types : ∀ s ∈ c.sections, s.name = "" → '=' ∉ s.type.toList

instance (c : Config) : Decidable c.FitsAddress :=
  decidable_of_iff (('.' ∉ c.name.toList ∧ '=' ∉ c.name.toList) ∧
      (∀ s ∈ c.sections, '.' ∉ s.name.toList ∧ '=' ∉ s.name.toList) ∧
      ∀ s ∈ c.sections, s.name = "" → '=' ∉ s.type.toList)
    ⟨fun ⟨a, b, c⟩ => ⟨a, b, c⟩, fun ⟨a, b, c⟩ => ⟨a, b, c⟩⟩

namespace Address

/-- Whether a text is the whole of a selector in an address, with nothing of a setting in it. -/
structure IsSelector (name : List Char) : Prop where
  nonempty : name ≠ []
  cut : cutSelector name = some (name, none)
  noEquals : '=' ∉ name

theorem isSelector_named {name : List Char} (hne : name ≠ []) (hat : name.head? ≠ some '@')
    (hdot : '.' ∉ name) (hequals : '=' ∉ name) : IsSelector name where
  nonempty := hne
  cut := by rw [cutSelector, if_neg hat, cut_eq_none_iff.2 ⟨hdot, rfl⟩]
  noEquals := hequals

/-- A synthetic name ends at its first closing bracket, whatever dots its type has. -/
theorem isSelector_text {type : String} (htype : Selector.Admits type) (hequals : '=' ∉ type.toList)
    (ordinal : Nat) : IsSelector (SyntheticName.text type ordinal).toList := by
  have hlist := SyntheticName.toList_text type ordinal
  have hdigits : ']' ∉ Nat.toDigits 10 ordinal := notMem_toDigits (by decide) ordinal
  have hcut : Text.cut ']' (SyntheticName.text type ordinal).toList =
      ('@' :: (type.toList ++ '[' :: Nat.toDigits 10 ordinal), some []) := by
    rw [cut_eq_some_iff, hlist]
    exact ⟨by simp [htype.noClose, hdigits], by simp⟩
  refine ⟨by simp [hlist], ?_, ?_⟩
  · rw [cutSelector, if_pos (by rw [hlist]; rfl), hcut, hlist]
    simp
  · rw [hlist]
    simp [hequals, notMem_toDigits (by decide : '='.isDigit = false) ordinal]

/-- A configuration and a selector are read back from their address. -/
theorem parse_selector {config name : String} (hne : config ≠ "") (hdot : '.' ∉ config.toList)
    (hequals : '=' ∉ config.toList) (hname : IsSelector name.toList) :
    parse s!"{config}.{name}" = .ok { config, selector := some name } := by
  have hlist : s!"{config}.{name}".toList = config.toList ++ '.' :: name.toList := by
    simp [toString]
  have hvalue : cut '=' (config.toList ++ '.' :: name.toList) =
      (config.toList ++ '.' :: name.toList, none) := by
    rw [cut_eq_none_iff]
    exact ⟨by simp [hequals, hname.noEquals], rfl⟩
  have hconfig : cut '.' (config.toList ++ '.' :: name.toList) =
      (config.toList, some name.toList) := cut_eq_some_iff.2 ⟨hdot, rfl⟩
  have hselector : readSelector name.toList = some (name.toList, none) := by
    have hne := hname.nonempty
    unfold readSelector
    rw [hname.cut]
    simp
  have hparse : parse? s!"{config}.{name}" = some { config, selector := some name } := by
    have hne : config.toList ≠ [] := by simpa using hne
    unfold parse?
    simp only [hlist, hvalue, hconfig]
    simp [hselector]
  rw [parse, hparse]

/-- The name of a configuration is its address. -/
theorem parse_config {config : String} (hne : config ≠ "") (hdot : '.' ∉ config.toList)
    (hequals : '=' ∉ config.toList) : parse config = .ok { config } := by
  have hparse : parse? config = some { config } := by
    have hne : config.toList ≠ [] := by simpa using hne
    unfold parse?
    simp only [cut_eq_none_iff.2 ⟨hequals, rfl⟩, cut_eq_none_iff.2 ⟨hdot, rfl⟩]
    simp
  rw [parse, hparse]

end Address

namespace Config

/-- The address of a section is read as its configuration and its name. -/
theorem parse_addressOf {c : Config} (hc : c.IsSelectable) (hfits : c.FitsAddress)
    (hne : c.name ≠ "") {i : Nat} {s : Section} {name : String} (hs : c.sections[i]? = some s)
    (hname : c.nameOf s i = .ok name) :
    Address.parse (c.addressOf name) = .ok { config := c.name, selector := some name } := by
  have hmem := List.mem_of_getElem? hs
  refine Address.parse_selector hne hfits.config.1 hfits.config.2 ?_
  have hgoes := Except.ok.inj (hname.symm.trans (nameOf_eq hs))
  unfold Section.nameAt at hgoes
  split at hgoes
  · next hunnamed =>
    have hempty : s.name = "" := by simpa [Section.isUnnamed] using hunnamed
    rw [hgoes]
    exact Address.isSelector_text (hc.types s hmem hempty) (hfits.types s hmem hempty) _
  · next hnamed =>
    rw [hgoes]
    exact Address.isSelector_named (by simpa [Section.isUnnamed] using hnamed) (hc.names s hmem)
      (hfits.names s hmem).1 (hfits.names s hmem).2

end Config

/-! ## Showing by address -/

namespace Command

/-- What `display` prints for an address. -/
theorem displayed_eq {s s' : Store} {d : Disk} {text : String} {address : Address} {c : Config}
    (hparse : Address.parse text = .ok address) (hload : s.load d address.config = .ok (c, s')) :
    displayed s d (some text) = displayIn c address := by
  simp [displayed, hparse, hload, bind, Except.bind]

/-- A section is shown by itself at the name that it goes by, whatever it was selected by. -/
theorem displayIn_selector {c : Config} {i : Nat} {s : Section} {selector name : String}
    (hs : c.sections[i]? = some s) (hplace : c.place selector = .ok (some i))
    (hname : c.nameOf s i = .ok name) (config : String) :
    displayIn c { config, selector := some selector } = .ok (s.showAt (c.addressOf name)) := by
  have hfound : (c.place selector).mapError Error.selector = .ok (some i) := by
    rw [hplace]
    rfl
  simp [displayIn, hfound, hs, hname, bind, Except.bind, pure, Except.pure]

end Command

namespace Config

/-- The lines of a section are among those of its configuration, at the place of the section. -/
theorem shown_getElem? {c : Config} {i : Nat} {s : Section} {name : String}
    (hs : c.sections[i]? = some s) (hname : c.nameOf s i = .ok name) :
    ((c.names.zip c.sections).map fun (name, s) => s.showAt (c.addressOf name))[i]? =
      some (s.showAt (c.addressOf name)) := by
  have hgoes := Except.ok.inj ((nameOf_eq hs).symm.trans hname)
  have hzip : (c.names.zip c.sections)[i]? = some (name, s) := by
    rw [List.getElem?_zip_eq_some]
    exact ⟨by simp [names_getElem?, hs, hgoes], hs⟩
  simp [hzip]

/-- Each section is found by the name that it goes by, and no two go by the same one. The address
that is made of it leads to the section, and what is shown there is what the whole configuration
shows of the section. -/
theorem names_address_sections {c : Config} (hc : c.IsSelectable) :
    (∀ i s, c.sections[i]? = some s → ∃ name, c.nameOf s i = .ok name ∧
      c.place name = .ok (some i) ∧ c.find name = .ok (some s)) ∧
    (∀ i j s t name, c.sections[i]? = some s → c.sections[j]? = some t →
      c.nameOf s i = .ok name → c.nameOf t j = .ok name → i = j) ∧
    (c.FitsAddress → ∀ (store store' : Store) (d : Disk), store.load d c.name = .ok (c, store') →
      ∃ parts : List String, parts.length = c.sections.length ∧
        Command.displayed store d (some c.name) = .ok (String.join parts) ∧
        ∀ i s name, c.sections[i]? = some s → c.nameOf s i = .ok name →
          Address.parse (c.addressOf name) = .ok { config := c.name, selector := some name } ∧
          parts[i]? = some (s.showAt (c.addressOf name)) ∧
          Command.displayed store d (some (c.addressOf name)) =
            .ok (s.showAt (c.addressOf name))) := by
  refine ⟨fun i s hs => find_nameOf hc hs, fun i j s t name => nameOf_injective hc, ?_⟩
  intro hfits store store' d hload
  have hne : c.name ≠ "" := by
    intro hempty
    have hvalid := (Store.load_eq_ok hload).1
    simp [hempty, Store.isConfigName] at hvalid
  have hconfig := Address.parse_config hne hfits.config.1 hfits.config.2
  refine ⟨(c.names.zip c.sections).map fun (name, s) => s.showAt (c.addressOf name),
    by simp [length_names], ?_, ?_⟩
  · rw [Command.displayed_eq hconfig hload]
    rfl
  intro i s name hs hname
  have hparse := parse_addressOf hc hfits hne hs hname
  obtain ⟨goes, hgoes, hplace, -⟩ := find_nameOf hc hs
  obtain rfl := Except.ok.inj (hname.symm.trans hgoes)
  refine ⟨hparse, shown_getElem? hs hname, ?_⟩
  rw [Command.displayed_eq hparse hload]
  exact Command.displayIn_selector hs hplace hname c.name

/-- Of three rules the second has a name, and an unnamed section is of a type with a dot. -/
theorem names_address_sections_firewall :
    let last : Section :=
      { type := "rule", settings := [{ name := "src", kind := .list, values := ["a", "b"] }] }
    let c : Config :=
      { name := "firewall", sections :=
        [{ type := "rule" }, { type := "rule", name := "dns" }, { type := "zone.v6" }, last] }
    let store : Store := { dir := Store.defaultDir, loaded := [("firewall", c)] }
    c.IsSelectable ∧ c.FitsAddress ∧ store.load .empty "firewall" = .ok (c, store) ∧
      c.find "@rule[2]" = .ok (some last) ∧
      Address.parse "firewall.@zone.v6[0]" =
        .ok { config := "firewall", selector := some "@zone.v6[0]" } ∧
      Command.displayed store .empty (some "firewall.@rule[2]") =
        .ok "firewall.@rule[2]=rule\nfirewall.@rule[2].src='a' 'b'\n" := by
  intro last c store
  have hc : c.IsSelectable := by decide +kernel
  have hfits : c.FitsAddress := by decide +kernel
  have hload : store.load .empty "firewall" = .ok (c, store) := rfl
  have hzone : c.nameOf { type := "zone.v6" } 2 = .ok "@zone.v6[0]" :=
    (nameOf_eq rfl).trans (congrArg Except.ok (by decide +kernel))
  have hlast : c.nameOf last 3 = .ok "@rule[2]" :=
    (nameOf_eq rfl).trans (congrArg Except.ok (by decide +kernel))
  obtain ⟨hfind, -, hshown⟩ := names_address_sections hc
  obtain ⟨parts, -, -, hparts⟩ := hshown hfits store store .empty hload
  obtain ⟨name, hname, -, hfound⟩ := hfind 3 last rfl
  obtain rfl : name = "@rule[2]" := Except.ok.inj (hname.symm.trans hlast)
  exact ⟨hc, hfits, hload, hfound, (hparts 2 _ _ rfl hzone).1, (hparts 3 _ _ rfl hlast).2.2⟩

end Config

end UnifiedConfig
