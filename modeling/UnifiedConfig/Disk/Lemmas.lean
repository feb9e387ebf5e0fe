import UnifiedConfig.Disk.Listing

/-!
# What a change of a disk leaves alone

`Node.put` is the one way in which a disk changes. It changes what stands at its location, and
nothing that is not at that location or below it.

* `Node.find?_put_self`: what was put there is found there.
* `Node.entry_find?_put`: anywhere else the same file, or a directory, is found as before.
-/

namespace UnifiedConfig.Node

/-! ## Entries of one directory -/

theorem lookup_putEntry_self (entries : List (String × Node)) (name : String)
    (new : Option Node) : (putEntry entries name new).lookup name = new := by
  have hnone : (entries.filter (·.1 ≠ name)).lookup name = none := by
    rw [List.lookup_eq_none_iff]
    intro p hp
    have hne : p.1 ≠ name := by simpa using (List.mem_filter.1 hp).2
    simpa using hne.symm
  rw [putEntry, List.lookup_append, hnone]
  cases new <;> simp

theorem lookup_putEntry_of_ne {name other : String} (h : other ≠ name)
    (entries : List (String × Node)) (new : Option Node) :
    (putEntry entries name new).lookup other = entries.lookup other := by
  have hother : (other == name) = false := by simpa using h
  have hfilter : (entries.filter (·.1 ≠ name)).lookup other = entries.lookup other := by
    induction entries with
    | nil => rfl
    | cons p rest ih =>
      obtain ⟨n, child⟩ := p
      by_cases hn : n = name
      · subst hn
        simpa [List.lookup_cons, hother] using ih
      · by_cases ho : other = n
        · simp [hn, ho]
        · have ho' : (other == n) = false := by simpa using ho
          simp [hn, List.lookup_cons, ho'] at ih ⊢
          exact ih
  rw [putEntry, List.lookup_append, hfilter]
  cases new <;> simp [List.lookup_cons, hother]

/-! ## Locations -/

theorem find?_put_self (new : Option Node) {n : Node} {parent : Location}
    {entries : List (String × Node)} (h : n.find? parent = some (.directory entries))
    (name : String) : (n.put new (parent ++ [name])).find? (parent ++ [name]) = new := by
  induction parent generalizing n with
  | nil =>
    cases n with
    | file c => simp [find?] at h
    | directory es => cases new <;> simp [put, find?, lookup_putEntry_self]
  | cons a parent ih =>
    cases n with
    | file c => simp [find?] at h
    | directory es =>
      simp only [find?, Option.bind_eq_some_iff] at h
      obtain ⟨child, hchild, h⟩ := h
      have ih := ih h
      cases hp : parent ++ [name] with
      | nil => simp at hp
      | cons b rest =>
        rw [hp] at ih
        simp [put, hp, hchild, find?, lookup_putEntry_self, ih]

/-- Directories above the location stay directories, but hold something else. -/
theorem entry_find?_put (new : Option Node) (n : Node) {place other : Location}
    (h : ¬ place <+: other) :
    ((n.put new place).find? other).map entry = (n.find? other).map entry := by
  induction place generalizing n other with
  | nil => simp at h
  | cons a place ih =>
    cases n with
    | file c => cases place <;> simp [put]
    | directory es =>
      cases other with
      | nil =>
        cases place with
        | nil => simp [put, find?, entry]
        | cons b rest => cases hc : es.lookup a <;> simp [put, hc, find?, entry]
      | cons b other =>
        by_cases hb : b = a
        · subst hb
          have h : ¬ place <+: other := by simpa using h
          cases place with
          | nil => simp at h
          | cons d rest =>
            cases hc : es.lookup b with
            | none => simp [put, hc]
            | some child => simpa [put, hc, find?, lookup_putEntry_self] using ih child h
        · cases place with
          | nil => simp [put, find?, lookup_putEntry_of_ne hb]
          | cons d rest =>
            cases hc : es.lookup a with
            | none => simp [put, hc]
            | some child => simp [put, hc, find?, lookup_putEntry_of_ne hb]

end UnifiedConfig.Node
