import Mathlib.Data.List.Induction
import Mathlib.Data.List.Nodup
import UnifiedConfig.Setting

/-!
# Merging values

Values that are merged into others are appended one by one, unless they are there already. What is
appended depends only on which values were there and on where the others first come (`Adds`), and
merges can be grouped in any way: to merge what two lists come to is to merge one after the other.

A set of the values beside the list of them tells at once whether a value is there already. Each
step extends both, and they hold the same values throughout (`Collection`).

* `mergeValues_eq_iff`: the values that are appended, and no others.
* `mergeValues_of_subset`: values that are there already change nothing.
* `mergeValues_assoc`: merges can be grouped in any way, whatever is repeated in the lists.
* `Collection.values_insertAll`: a merge with a set of the values beside the list.
* `Setting.merge_laws`: what merging values does to settings.
-/

namespace UnifiedConfig

variable {values more added : List String} {value : String}

theorem mergeValues_singleton (values : List String) (value : String) :
    mergeValues values [value] = if value ∈ values then values else values ++ [value] := rfl

theorem mergeValues_append (values more others : List String) :
    mergeValues values (more ++ others) = mergeValues (mergeValues values more) others :=
  List.foldl_append

/-- One more value is appended unless it is among those that have been merged. -/
theorem mergeValues_concat (values more : List String) (value : String) :
    mergeValues values (more ++ [value]) =
      if value ∈ mergeValues values more then mergeValues values more
      else mergeValues values more ++ [value] := by
  rw [mergeValues_append, mergeValues_singleton]

/-! ## The values that are appended -/

/-- Whether a list adds these values to others: all of its values that are not among the others,
each of them once and in the order in which they first come. -/
structure Adds (values more added : List String) : Prop where
  mem : ∀ v, v ∈ added ↔ v ∈ more ∧ v ∉ values
  ordered : added.Pairwise fun v w => more.idxOf v < more.idxOf w

namespace Adds

theorem nil (values : List String) : Adds values [] [] :=
  ⟨by simp, List.Pairwise.nil⟩

theorem nodup (h : Adds values more added) : added.Nodup := by
  refine h.ordered.imp ?_
  rintro v w hlt rfl
  exact Nat.lt_irrefl _ hlt

/-- There is only one order for the values that are added. -/
theorem unique {others : List String} (h : Adds values more added) (h' : Adds values more others) :
    added = others := by
  have hperm : added.Perm others :=
    (List.perm_ext_iff_of_nodup h.nodup h'.nodup).2 fun v => (h.mem v).trans (h'.mem v).symm
  refine hperm.eq_of_pairwise (fun v w _ _ hvw hwv => ?_) h.ordered h'.ordered
  exact absurd hwv (Nat.lt_asymm hvw)

/-- A value that comes at the end does not change where the others first come. -/
theorem ordered_concat (h : Adds values more added) (value : String) :
    added.Pairwise fun v w => (more ++ [value]).idxOf v < (more ++ [value]).idxOf w := by
  refine h.ordered.imp_of_mem fun {v w} hv hw hlt => ?_
  rwa [List.idxOf_append_of_mem ((h.mem v).1 hv).1, List.idxOf_append_of_mem ((h.mem w).1 hw).1]

theorem concat_of_mem (h : Adds values more added) (hmem : value ∈ values ++ added) :
    Adds values (more ++ [value]) added := by
  refine ⟨fun v => ?_, h.ordered_concat value⟩
  have hold : value ∈ more ∨ value ∈ values := by
    rcases List.mem_append.1 hmem with hvalues | hadded
    · exact .inr hvalues
    · exact .inl ((h.mem value).1 hadded).1
  rw [h.mem, List.mem_append, List.mem_singleton]
  grind

theorem concat_of_notMem (h : Adds values more added) (hnot : value ∉ values ++ added) :
    Adds values (more ++ [value]) (added ++ [value]) := by
  obtain ⟨hvalues, hadded⟩ : value ∉ values ∧ value ∉ added := by simpa using hnot
  have hmore : value ∉ more := fun hmem => hadded ((h.mem value).2 ⟨hmem, hvalues⟩)
  refine ⟨fun v => ?_, List.pairwise_append.2 ⟨h.ordered_concat value, by simp, ?_⟩⟩
  · rw [List.mem_append, List.mem_append, List.mem_singleton, h.mem]
    grind
  · intro v hv w hw
    rw [List.mem_singleton.1 hw, List.idxOf_append_of_mem ((h.mem v).1 hv).1,
      List.idxOf_append_of_notMem hmore]
    have hlt := List.idxOf_lt_length_iff.2 ((h.mem v).1 hv).1
    omega

end Adds

/-- A merge appends what the merged values add. -/
theorem mergeValues_eq (values more : List String) :
    ∃ added, mergeValues values more = values ++ added ∧ Adds values more added := by
  -- From the end, as a merge takes the last value when all others have been merged.
  induction more using List.reverseRecOn with
  | nil => exact ⟨[], (List.append_nil values).symm, Adds.nil values⟩
  | append_singleton more value ih =>
    obtain ⟨added, heq, hadds⟩ := ih
    rw [mergeValues_concat, heq]
    split
    · next hmem => exact ⟨added, rfl, hadds.concat_of_mem hmem⟩
    · next hnot => exact ⟨added ++ [value], List.append_assoc .., hadds.concat_of_notMem hnot⟩

theorem mergeValues_eq_iff : mergeValues values more = values ++ added ↔ Adds values more added := by
  obtain ⟨others, heq, hadds⟩ := mergeValues_eq values more
  rw [heq, List.append_cancel_left_eq]
  constructor
  · rintro rfl
    exact hadds
  · exact hadds.unique

/-- A merge of values appends those that are not there yet, in the order in which they first
come. -/
theorem mergeValues_eq_append (values more : List String) : mergeValues values more =
    values ++ (more.filter fun value => value ∉ values).eraseDups := by
  induction more generalizing values with
  | nil => simp [mergeValues]
  | cons value more ih =>
    have hcons : mergeValues values (value :: more) =
        mergeValues (mergeValues values [value]) more := rfl
    rw [hcons, ih, mergeValues_singleton]
    by_cases hmem : value ∈ values
    · rw [if_pos hmem, List.filter_cons_of_neg (by simpa using hmem)]
    · rw [if_neg hmem, List.filter_cons_of_pos (by simpa using hmem), List.eraseDups_cons,
        List.filter_filter, List.append_assoc, List.singleton_append]
      congr 3
      apply List.filter_congr
      intro other _
      by_cases hother : other = value <;> simp [hother]

/-! ## Laws -/

theorem prefix_mergeValues (values more : List String) : values <+: mergeValues values more := by
  obtain ⟨added, heq, -⟩ := mergeValues_eq values more
  exact ⟨added, heq.symm⟩

theorem mem_mergeValues {v : String} : v ∈ mergeValues values more ↔ v ∈ values ∨ v ∈ more := by
  obtain ⟨added, heq, hadds⟩ := mergeValues_eq values more
  rw [heq, List.mem_append, hadds.mem]
  grind

theorem nodup_mergeValues (h : values.Nodup) (more : List String) :
    (mergeValues values more).Nodup := by
  obtain ⟨added, heq, hadds⟩ := mergeValues_eq values more
  rw [heq]
  refine List.nodup_append.2 ⟨h, hadds.nodup, ?_⟩
  rintro v hv w hw rfl
  exact ((hadds.mem v).1 hw).2 hv

theorem mergeValues_of_subset (h : ∀ v ∈ more, v ∈ values) : mergeValues values more = values := by
  have hadds : Adds values more [] := ⟨by simpa using h, List.Pairwise.nil⟩
  rw [mergeValues_eq_iff.2 hadds, List.append_nil]

theorem mergeValues_assoc (values more others : List String) :
    mergeValues (mergeValues values more) others =
      mergeValues values (mergeValues more others) := by
  induction others using List.reverseRecOn with
  | nil => rfl
  | append_singleton others value ih =>
    rw [mergeValues_concat, mergeValues_concat more]
    by_cases hmem : value ∈ mergeValues more others
    · -- A value that the inner merge leaves out is there in the outer one.
      have hthere : value ∈ mergeValues (mergeValues values more) others := by
        rw [ih]
        exact mem_mergeValues.2 (.inr hmem)
      rw [if_pos hmem, if_pos hthere, ih]
    · rw [if_neg hmem, mergeValues_concat, ih]

/-! ## A set beside the list -/

/-- Values in order, with the set of them beside the list. -/
structure Collection where
  values : List String
  seen : Std.HashSet String
  mem_seen : ∀ v, v ∈ seen ↔ v ∈ values

namespace Collection

/-- The collection of some values, which need not be distinct. -/
def ofValues (values : List String) : Collection where
  values
  seen := .ofList values
  mem_seen v := by rw [Std.HashSet.mem_ofList, List.contains_iff_mem]

/-- Puts a value into the set, and appends it to the list if it was not in the set before. -/
def insert (c : Collection) (value : String) : Collection where
  values := if (c.seen.containsThenInsert value).1 then c.values else c.values ++ [value]
  seen := (c.seen.containsThenInsert value).2
  mem_seen v := by
    rw [Std.HashSet.containsThenInsert_fst, Std.HashSet.containsThenInsert_snd,
      Std.HashSet.mem_insert, beq_iff_eq, c.mem_seen]
    split
    · next hseen =>
      have hmem := (c.mem_seen value).1 (Std.HashSet.contains_iff_mem.1 hseen)
      exact ⟨fun h => h.elim (fun heq => heq ▸ hmem) id, .inr⟩
    · rw [List.mem_append, List.mem_singleton, or_comm, eq_comm]

/-- Inserts values one by one. -/
def insertAll (c : Collection) (more : List String) : Collection :=
  more.foldl insert c

theorem values_insert (c : Collection) (value : String) :
    (c.insert value).values = mergeValues c.values [value] := by
  have hseen : (c.seen.containsThenInsert value).1 = true ↔ value ∈ c.values := by
    rw [Std.HashSet.containsThenInsert_fst, Std.HashSet.contains_iff_mem, c.mem_seen]
  simp only [insert, mergeValues_singleton, hseen]

theorem values_insertAll (c : Collection) (more : List String) :
    (c.insertAll more).values = mergeValues c.values more := by
  induction more generalizing c with
  | nil => rfl
  | cons value more ih =>
    have hcons : c.insertAll (value :: more) = (c.insert value).insertAll more := rfl
    rw [hcons, ih, values_insert]
    rfl

end Collection

/-! ## Merging settings -/

namespace Setting

/-- The values of a setting stay in front, and what others add to them comes after: the new ones,
each once and in the order in which they first come, as a pass with a set of the values finds them.
Nothing else is there, and nothing is repeated that was not repeated before. Values that are there
already change nothing. To merge what two settings come to is to merge both, one after the other,
or all of their values in one row. -/
theorem merge_laws (o p q : Setting) :
    (∀ added, (o.merge p.values).values = o.values ++ added ↔ Adds o.values p.values added) ∧
    ((Collection.ofValues o.values).insertAll p.values).values = (o.merge p.values).values ∧
    o.values <+: (o.merge p.values).values ∧
    (∀ v, v ∈ (o.merge p.values).values ↔ v ∈ o.values ∨ v ∈ p.values) ∧
    (o.values.Nodup → (o.merge p.values).values.Nodup) ∧
    ((∀ v ∈ p.values, v ∈ o.values) → o.merge p.values = o) ∧
    (o.merge p.values).merge q.values = o.merge (p.merge q.values).values ∧
    (o.merge p.values).merge q.values = o.merge (p.values ++ q.values) := by
  refine ⟨fun added => mergeValues_eq_iff, Collection.values_insertAll _ _,
    prefix_mergeValues _ _, fun v => mem_mergeValues, fun h => nodup_mergeValues h _, ?_, ?_, ?_⟩
  · intro h
    rw [merge, mergeValues_of_subset h]
  · simp only [merge, mergeValues_assoc]
  · simp only [merge, mergeValues_append]

/-- Two of five addresses are new, one of them twice, and a third setting has none that is. -/
theorem merge_laws_dns :
    let dns (values : List String) : Setting := { name := "dns", kind := .list, values }
    let o := dns ["1.1.1.1", "8.8.8.8"]
    let p := dns ["8.8.8.8", "9.9.9.9", "1.1.1.1", "4.4.4.4", "9.9.9.9"]
    let q := dns ["4.4.4.4", "1.1.1.1"]
    (o.merge p.values).values = o.values ++ ["9.9.9.9", "4.4.4.4"] ∧
      o.values.Nodup ∧ (o.merge p.values).values.Nodup ∧
      (∀ v ∈ q.values, v ∈ (o.merge p.values).values) ∧
      (o.merge p.values).merge q.values = o.merge p.values ∧
      o.merge (p.merge q.values).values = o.merge p.values := by
  intro dns o p q
  have hadds : Adds o.values p.values ["9.9.9.9", "4.4.4.4"] := ⟨by grind, by decide⟩
  have hnodup : o.values.Nodup := by decide
  have hthere : ∀ v ∈ q.values, v ∈ (o.merge p.values).values := by decide
  obtain ⟨hadded, -, -, -, hdistinct, -, hgrouped, -⟩ := merge_laws o p q
  obtain ⟨-, -, -, -, -, hsame, -, -⟩ := merge_laws (o.merge p.values) q q
  exact ⟨(hadded _).2 hadds, hnodup, hdistinct hnodup, hthere, hsame hthere,
    hgrouped.symm.trans (hsame hthere)⟩

end Setting

end UnifiedConfig
