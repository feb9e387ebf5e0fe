import UnifiedConfig.Config.Basic

/-!
# Loaded configurations

The configurations that a store has read, by name and in ascending order of their names, which is
the order in which they are committed.

* `find?_put_self`, `find?_put_of_ne`, `find?_remove_self`, `find?_remove_of_ne`: what is loaded
  after an operation.
-/

namespace UnifiedConfig

/-- Configurations by name, in ascending order. -/
abbrev Loaded := List (String × Config)

namespace Loaded

/-- The configuration of a name, if it is loaded. -/
def find? (l : Loaded) (name : String) : Option Config :=
  l.lookup name

/-- Puts a configuration under a name, in its place by the order of names or in that of the one that
has the name. -/
def put (name : String) (c : Config) : Loaded → Loaded
  | [] => [(name, c)]
  | (other, d) :: rest =>
    if name = other then (name, c) :: rest
    else if name < other then (name, c) :: (other, d) :: rest
    else (other, d) :: put name c rest

/-- Forgets the configuration of a name. -/
def remove (l : Loaded) (name : String) : Loaded :=
  l.filter (·.1 ≠ name)

theorem find?_put_self (l : Loaded) (name : String) (c : Config) :
    (l.put name c).find? name = some c := by
  induction l with
  | nil => simp [put, find?]
  | cons p rest ih =>
    obtain ⟨n, d⟩ := p
    unfold put
    split
    · simp [find?]
    · next hn =>
      split
      · simp [find?]
      · have hn : (name == n) = false := by simpa using hn
        simpa [find?, List.lookup_cons, hn] using ih

theorem find?_put_of_ne {name other : String} (h : other ≠ name) (l : Loaded) (c : Config) :
    (l.put name c).find? other = l.find? other := by
  have hother : (other == name) = false := by simpa using h
  induction l with
  | nil => simp [put, find?, List.lookup_cons, hother]
  | cons p rest ih =>
    obtain ⟨n, d⟩ := p
    unfold put
    split
    · next hn => subst hn; simp [find?, List.lookup_cons, hother]
    · split
      · simp [find?, List.lookup_cons, hother]
      · cases hn : other == n
        · simpa [find?, List.lookup_cons, hn] using ih
        · simp [find?, List.lookup_cons, hn]

theorem find?_remove_self (l : Loaded) (name : String) : (l.remove name).find? name = none := by
  rw [find?, List.lookup_eq_none_iff]
  intro p hp
  have hne : p.1 ≠ name := by simpa using (List.mem_filter.1 hp).2
  simpa using hne.symm

theorem find?_remove_of_ne {name other : String} (h : other ≠ name) (l : Loaded) :
    (l.remove name).find? other = l.find? other := by
  induction l with
  | nil => rfl
  | cons p rest ih =>
    obtain ⟨n, d⟩ := p
    unfold remove find? at ih ⊢
    by_cases hn : n = name
    · have hother : (other == n) = false := by simpa [hn] using h
      simpa [hn, List.lookup_cons, hn ▸ hother] using ih
    · cases ho : other == n <;> simp [hn, List.lookup_cons, ho] at ih ⊢
      exact ih

end Loaded

end UnifiedConfig
