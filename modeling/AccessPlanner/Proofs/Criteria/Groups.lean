import AccessPlanner.Criteria.Basic
import Mathlib.Data.List.Induction

/-!
# Groups of conditions

`groupsOf` says what the residual conditions of criteria are: a list of conditions, taken
property by property.  `addToGroups_groupsOf` ties it to the way in which they are collected, one
condition after the other.  Grouping only reorders the conditions (`flatMap_groupsOf_perm`), and
the group of a property is the sublist of its conditions (`lookup?_groupsOf`).
-/

namespace AccessPlanner

/-! ### First occurrences -/

theorem eraseDups_concat (names : List String) (name : String) :
    (names ++ [name]).eraseDups =
      if name ∈ names then names.eraseDups else names.eraseDups ++ [name] := by
  rw [List.eraseDups_append]
  by_cases h : name ∈ names
  · simp [List.removeAll, h]
  · simp [List.removeAll, h, List.eraseDups_cons]

theorem nodup_eraseDups (names : List String) : names.eraseDups.Nodup := by
  induction names using List.reverseRecOn with
  | nil => simp
  | append_singleton names name ih =>
    rw [eraseDups_concat]
    split
    next => exact ih
    next hnew =>
      refine List.nodup_append.mpr ⟨ih, by simp, ?_⟩
      intro a ha b hb hab
      rw [List.mem_singleton] at hb
      subst hb
      exact hnew (List.mem_eraseDups.mp (hab ▸ ha))

theorem eraseDups_filter (keep : String → Bool) (names : List String) :
    (names.filter keep).eraseDups = names.eraseDups.filter keep := by
  induction names using List.reverseRecOn with
  | nil => rfl
  | append_singleton names name ih =>
    rw [List.filter_append, eraseDups_concat]
    cases hkeep : keep name with
    | true =>
      -- the test does not change whether the name came up before
      rw [List.filter_cons_of_pos hkeep, List.filter_nil, eraseDups_concat, ih]
      simp only [List.mem_filter, hkeep, and_true]
      split
      next => rfl
      next => rw [List.filter_append, List.filter_cons_of_pos hkeep, List.filter_nil]
    | false =>
      have hnone : [name].filter keep = [] := List.filter_eq_nil_iff.mpr (by simp [hkeep])
      rw [hnone, List.append_nil, ih]
      split
      next => rfl
      next => rw [List.filter_append, hnone, List.append_nil]

namespace Criteria

/-- **The groups of a list of conditions:** the properties in the order in which they first come
up, each with its conditions in their order. -/
def groupsOf (conditions : List Condition) : List (String × List Condition) :=
  (conditions.map (·.property)).eraseDups.map fun property =>
    (property, conditions.filter fun condition => condition.property == property)

theorem map_fst_groupsOf (conditions : List Condition) :
    (groupsOf conditions).map (·.1) = (conditions.map (·.property)).eraseDups := by
  unfold groupsOf
  rw [List.map_map]
  exact List.map_id _

/-! ### Collecting -/

theorem filter_property_eq_nil {property : String} {conditions : List Condition}
    (h : property ∉ conditions.map (·.property)) :
    (conditions.filter fun condition => condition.property == property) = [] := by
  rw [List.filter_eq_nil_iff]
  intro condition hmem hsame
  exact h (beq_iff_eq.mp hsame ▸ List.mem_map_of_mem hmem)

/-- One more condition for groups that are listed by pairwise distinct properties. -/
theorem addToGroups_map (condition : Condition) (members : String → List Condition)
    (names : List String) (hnodup : names.Nodup) :
    addToGroups condition (names.map fun name => (name, members name)) =
      if condition.property ∈ names then
        names.map fun name =>
          (name, members name ++ if condition.property = name then [condition] else [])
      else (names.map fun name => (name, members name)) ++ [(condition.property, [condition])] := by
  induction names with
  | nil => rfl
  | cons name rest ih =>
    obtain ⟨hname, hrest⟩ := List.nodup_cons.mp hnodup
    simp only [List.map_cons, addToGroups]
    by_cases heq : name = condition.property
    · -- The group is found at the head, and no later one has its name.
      subst heq
      have hsame : ∀ other ∈ rest,
          (other, members other) =
            (other, members other ++ if condition.property = other then [condition] else []) := by
        intro other hother
        have hne : condition.property ≠ other := by
          rintro rfl
          exact hname hother
        simp [hne]
      simp only [↓reduceIte, List.mem_cons, true_or]
      rw [List.map_congr_left hsame]
    · rw [if_neg heq, ih hrest]
      have hne : condition.property ≠ name := fun h => heq h.symm
      by_cases hmem : condition.property ∈ rest <;> simp [hmem, hne]

/-- **Collecting one condition** into the groups of a list gives the groups of the longer list. -/
theorem addToGroups_groupsOf (condition : Condition) (conditions : List Condition) :
    addToGroups condition (groupsOf conditions) = groupsOf (conditions ++ [condition]) := by
  unfold groupsOf
  rw [addToGroups_map condition _ _ (nodup_eraseDups _), List.map_append, List.map_singleton,
    eraseDups_concat]
  simp only [List.mem_eraseDups, List.filter_append, List.filter_cons, List.filter_nil, beq_iff_eq]
  split
  next => rfl
  next hnew =>
    -- a new property: its group is the condition alone, and no other group changes
    rw [List.map_append, List.map_singleton, if_pos rfl, filter_property_eq_nil hnew,
      List.nil_append]
    congr 1
    refine List.map_congr_left fun name hname => ?_
    have hne : condition.property ≠ name := by
      rintro rfl
      exact hnew (List.mem_eraseDups.mp hname)
    rw [if_neg hne, List.append_nil]

/-! ### Content -/

theorem find?_eq_ite_mem (name : String) (names : List String) :
    (names.find? fun other => other == name) = if name ∈ names then some name else none := by
  induction names with
  | nil => rfl
  | cons first rest ih =>
    by_cases h : first = name
    · subst h
      rw [if_pos (List.mem_cons_self ..)]
      exact List.find?_cons_of_pos (beq_self_eq_true first)
    · have hne : name ≠ first := fun e => h e.symm
      rw [List.find?_cons_of_neg (by simpa using h), ih]
      simp only [List.mem_cons, hne, false_or]

theorem lookup?_groupsOf (property : String) (conditions : List Condition) :
    (lookup? property (groupsOf conditions)).getD [] =
      conditions.filter fun condition => condition.property == property := by
  have hfind := find?_eq_ite_mem property (conditions.map (·.property)).eraseDups
  unfold lookup? groupsOf
  rw [List.find?_map, Option.map_map]
  change (((conditions.map (·.property)).eraseDups.find? fun other => other == property).map
    _).getD [] = _
  rw [hfind]
  split
  next => rfl
  next habsent =>
    -- no group has the property, and no condition either
    rw [Option.map_none, Option.getD_none,
      filter_property_eq_nil (mt List.mem_eraseDups.mpr habsent)]

theorem filter_filter_property (keep : String → Bool) (property : String)
    (conditions : List Condition) :
    ((conditions.filter fun condition => keep condition.property).filter fun condition =>
        condition.property == property) =
      if keep property then conditions.filter fun condition => condition.property == property
      else [] := by
  rw [List.filter_filter]
  split
  next hkeep =>
    refine List.filter_congr fun condition _ => ?_
    cases hsame : condition.property == property with
    | true => rw [beq_iff_eq.mp hsame, hkeep, Bool.and_true]
    | false => rw [Bool.false_and]
  next hdrop =>
    rw [List.filter_eq_nil_iff]
    intro condition _ hboth
    rw [Bool.and_eq_true, beq_iff_eq] at hboth
    exact hdrop (hboth.1 ▸ hboth.2)

/-- **Groups chosen by their properties** are the groups of the conditions chosen by theirs. -/
theorem filter_groupsOf (keep : String → Bool) (conditions : List Condition) :
    ((groupsOf conditions).filter fun group => keep group.1) =
      groupsOf (conditions.filter fun condition => keep condition.property) := by
  have hnames : (conditions.filter fun condition => keep condition.property).map (·.property) =
      (conditions.map (·.property)).filter keep := by
    rw [List.filter_map]
    rfl
  unfold groupsOf
  rw [hnames, eraseDups_filter, List.filter_map]
  refine List.map_congr_left fun property hproperty => ?_
  -- a group that is kept is kept whole:
  have hkeep : keep property = true := (List.mem_filter.mp hproperty).2
  rw [filter_filter_property keep, if_pos hkeep]

theorem flatMap_addToGroups_perm (condition : Condition)
    (groups : List (String × List Condition)) :
    ((addToGroups condition groups).flatMap (·.2)).Perm (groups.flatMap (·.2) ++ [condition]) := by
  induction groups with
  | nil => exact .refl _
  | cons group rest ih =>
    obtain ⟨name, members⟩ := group
    simp only [addToGroups]
    split
    next =>
      simp only [List.flatMap_cons, List.append_assoc]
      exact List.perm_append_comm.append_left members
    next =>
      simp only [List.flatMap_cons, List.append_assoc]
      exact ih.append_left members

/-- **Grouping only reorders:** all groups together hold all conditions. -/
theorem flatMap_groupsOf_perm (conditions : List Condition) :
    ((groupsOf conditions).flatMap (·.2)).Perm conditions := by
  induction conditions using List.reverseRecOn with
  | nil => exact .refl _
  | append_singleton conditions condition ih =>
    rw [← addToGroups_groupsOf]
    exact (flatMap_addToGroups_perm condition _).trans (ih.append_right _)

theorem flatMap_ite_eq {α : Type} {names : List String} (h : names.Nodup) (name : String)
    (members : List α) :
    (names.flatMap fun other => if other = name then members else []) =
      if name ∈ names then members else [] := by
  induction names with
  | nil => rfl
  | cons first rest ih =>
    obtain ⟨hfirst, hrest⟩ := List.nodup_cons.mp h
    rw [List.flatMap_cons, ih hrest]
    by_cases heq : first = name
    · subst heq
      rw [if_pos rfl, if_neg hfirst, if_pos (List.mem_cons_self ..), List.append_nil]
    · have hne : name ≠ first := fun e => heq e.symm
      simp only [if_neg heq, List.nil_append, List.mem_cons, hne, false_or]

/-- **Grouping keeps the order** of the conditions on one property. -/
theorem filter_flatMap_groupsOf (property : String) (conditions : List Condition) :
    (((groupsOf conditions).flatMap (·.2)).filter fun condition =>
        condition.property == property) =
      conditions.filter fun condition => condition.property == property := by
  -- only the group of the property has conditions on it
  have hgroup (name : String) :
      ((conditions.filter fun condition => condition.property == name).filter fun condition =>
          condition.property == property) =
        if name = property then conditions.filter fun condition => condition.property == property
        else [] := by
    rw [filter_filter_property (· == name)]
    simp only [beq_iff_eq, @eq_comm _ property name]
  unfold groupsOf
  rw [List.flatMap_map, List.filter_flatMap]
  simp only [hgroup]
  rw [flatMap_ite_eq (nodup_eraseDups _)]
  split
  next => rfl
  next habsent => exact (filter_property_eq_nil (mt List.mem_eraseDups.mpr habsent)).symm

theorem groupsOf_eq_nil_iff (conditions : List Condition) :
    groupsOf conditions = [] ↔ conditions = [] := by
  constructor
  · intro h
    have hperm := flatMap_groupsOf_perm conditions
    rw [h] at hperm
    exact List.nil_perm.mp hperm
  · rintro rfl
    rfl

theorem groupsOf_eq_singleton_iff (conditions : List Condition) (property : String)
    (condition : Condition) :
    groupsOf conditions = [(property, [condition])] ↔
      conditions = [condition] ∧ property = condition.property := by
  constructor
  · intro h
    have hperm := flatMap_groupsOf_perm conditions
    rw [h] at hperm
    obtain rfl : conditions = [condition] := (List.singleton_perm.mp hperm).symm
    have hname : (condition.property, [condition]) = (property, [condition]) := by
      simpa [groupsOf, List.eraseDups_cons] using h
    exact ⟨rfl, (congrArg Prod.fst hname).symm⟩
  · rintro ⟨rfl, rfl⟩
    simp [groupsOf, List.eraseDups_cons]

end Criteria

end AccessPlanner
