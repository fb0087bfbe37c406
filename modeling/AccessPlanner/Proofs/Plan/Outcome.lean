import AccessPlanner.Proofs.Criteria.Demand
import AccessPlanner.Proofs.Plan.Rules

/-!
# The outcome of planning

`Demand.outcome` is a table of all outcomes, for plans and refusals alike, that speaks only of what
a list of conditions demands: the values `h` and `r` of the key properties, and the rest.  The
first case that applies decides.

* The rest is empty, `h` is there and `r` is not missing: the item is loaded.
* The rest is empty and `h` is there: the primary key is queried by `h`.
* The rest is one condition on a range property that goes with the primary hash property, `h` is
  there and `r` is not: the key of that range property is queried.
* Some index has an equality on its hash property and nothing that its range property could not
  serve: the best such index is queried.
* Everything is scanned, or the pattern is not supported.

The planner follows the table (`Demand.plan_criteria`).  Its state is the demand of the conditions
(`Criteria.ofConditions_eq`), so that each rule is compared with the table case by case; the groups
of the state are those of the rest, `Criteria.groupsOf`.
-/

namespace AccessPlanner

/-- **The operators of a condition on the range property of a key.** -/
def Operator.forRangeKey : List Operator := [.eq, .lt, .le, .gt, .ge, .between, .beginsWith]

theorem Operator.isKeyOperator_iff {operator : Operator} :
    operator.isKeyOperator = true ↔ operator ∈ forRangeKey := by
  cases operator <;> decide

namespace Demand

/-! ### The table -/

/-- The conditions of the rest on a property. -/
def restOn (demand : Demand) (property : String) : List Condition :=
  demand.rest.filter fun condition => condition.property == property

/-- The equality that serves the hash property of an index. -/
def hashOf? (schema : KeySchema) (demand : Demand) (property : String) : Option KeyCondition :=
  match demand.value? schema property, demand.restOn property with
  | some value, _ => some ⟨.equals property value, .bound⟩
  | none, [only] => if only.operator = .eq then some ⟨only, .residual⟩ else none
  | none, _ => none

/-- What serves the range property of an index, if anything is asked of it; conditions that the
key could not serve rule the index out. -/
def rangeOf? (schema : KeySchema) (demand : Demand) (property : String) :
    Option (Option KeyCondition) :=
  match demand.value? schema property, demand.restOn property with
  | some value, _ => some (some ⟨.equals property value, .bound⟩)
  | none, [] => some none
  | none, [only] =>
    if only.operator ∈ Operator.forRangeKey then some (some ⟨only, .residual⟩) else none
  | none, _ => none

/-- How an index serves the demand, if it does. -/
def serve? (schema : KeySchema) (demand : Demand) (index : IndexDefinition) : Option IndexMatch :=
  (demand.hashOf? schema index.hashKey).bind fun hash =>
    match index.rangeKey with
    | none => some ⟨index, hash, none⟩
    | some property => (demand.rangeOf? schema property).map fun range => ⟨index, hash, range⟩

/-- Conditions property by property, in the order in which the properties first come up. -/
def arranged (conditions : List Condition) : List Condition :=
  (conditions.map (·.property)).eraseDups.flatMap fun property =>
    conditions.filter fun condition => condition.property == property

/-- The filters of a scan: all that is demanded. -/
def filters (schema : KeySchema) (demand : Demand) : List Condition :=
  demand.equalities schema ++ arranged demand.rest

/-- The filters of a query of an index: all that its key does not serve. -/
def filtersAfter (schema : KeySchema) (demand : Demand) (found : IndexMatch) : List Condition :=
  (demand.equalities schema).filter (fun condition => !found.consumes .bound condition.property) ++
    arranged (demand.rest.filter fun condition => !found.consumes .residual condition.property)

/-- **The outcome for the primary hash property,** if one of the first three cases applies. -/
def keyOutcome? (schema : KeySchema) (order : IndexOrder) (demand : Demand)
    (sort : Option SortOrder) : Option (Except PlanError AccessPlan) :=
  match demand.hash, demand.rest with
  | some hash, [] =>
    if schema.rangeKey = none ∨ demand.range.isSome then some (.ok (.load hash demand.range))
    else
      some do
        checkSort sort schema.rangeKey
        return .query ⟨none, .equals schema.hashKey hash, none, [], sort⟩
  | some hash, [only] =>
    if demand.range.isSome then none
    else
      (Criteria.rangeAddress? schema order only.property).map fun indexName => do
        if !only.operator.isKeyOperator then
          throw (.illegalKeyOperator only.property only.operator)
        checkSort sort (some only.property)
        return .query ⟨indexName, .equals schema.hashKey hash, some only, [], sort⟩
  | _, _ => none

/-- **The index to query:** the first of the best among those that serve the demand.  How good an
index is depends on the properties with conditions. -/
def bestIndex? (schema : KeySchema) (order : IndexOrder) (demand : Demand)
    (conditions : List Condition) (sort : Option SortOrder) : Option IndexMatch :=
  firstBest?
    (fun found =>
      IndexRank.ofKey (conditions.map (·.property)) sort found.index.toKeyPair)
    ((order.arrange schema.indexes).filterMap (demand.serve? schema))

/-- **The table of outcomes** for a list of conditions without composite ids. -/
def outcome (schema : KeySchema) (config : PlannerConfig) (conditions : List Condition)
    (sort : Option SortOrder) (projection : Projection) : Except PlanError AccessPlan :=
  let demand := Demand.of schema conditions
  match demand.keyOutcome? schema config.indexOrder sort with
  | some result => result
  | none =>
    match demand.bestIndex? schema config.indexOrder conditions sort with
    | some found => do
      checkSort sort found.index.rangeKey
      return .query
        ⟨some found.index.name, found.hash.condition, found.range.map fun key => key.condition,
          demand.filtersAfter schema found, sort⟩
    | none =>
      if config.allowsScan projection then .ok (.scan ⟨demand.filters schema, sort⟩)
      else
        .error <| .unsupportedAccessPattern <|
          (demand.filters schema).map fun condition => (condition.property, condition.operator)

/-! ### The first three cases -/

variable (schema : KeySchema) (demand : Demand)

theorem loadRule?_eq_none (h : demand.rest ≠ []) : demand.criteria.loadRule? schema = none := by
  refine if_neg fun hloadable => h ?_
  rw [← Criteria.groupsOf_eq_nil_iff]
  exact (Criteria.isLoadable_iff.mp hloadable).2.1

theorem hashRule?_eq_none (sort : Option SortOrder) (h : demand.rest ≠ []) :
    demand.criteria.hashRule? schema sort = none := by
  refine if_neg fun honly => h ?_
  rw [← Criteria.groupsOf_eq_nil_iff]
  exact (Criteria.isHashOnly_iff.mp honly).2.2

/-- No query by hash and range where the rest is not one condition. -/
theorem rangeRule?_eq_none (order : IndexOrder) (sort : Option SortOrder)
    (h : ∀ only, demand.rest ≠ [only]) :
    demand.criteria.rangeRule? schema order sort = none := by
  have hsingle : demand.criteria.singleResidual? = none := by
    rw [Option.eq_none_iff_forall_ne_some]
    intro only honly
    obtain ⟨group, hresidual⟩ := Criteria.singleResidual?_eq_some honly
    exact h only ((Criteria.groupsOf_eq_singleton_iff _ _ _).mp hresidual).1
  unfold Criteria.rangeRule?
  rw [hsingle]
  exact ite_self none

theorem keyRules_of_rest_nil (sort : Option SortOrder) (hash : Json) (range : Option Json) :
    let criteria := Demand.criteria ⟨some hash, range, []⟩
    (if schema.rangeKey = none ∨ range.isSome then
        criteria.loadRule? schema = some (.load hash range)
      else
        criteria.loadRule? schema = none ∧
          criteria.hashRule? schema sort =
            some do
              checkSort sort schema.rangeKey
              return .query ⟨none, .equals schema.hashKey hash, none, [], sort⟩) := by
  intro criteria
  split
  next h => exact if_pos (Criteria.isLoadable_iff.mpr ⟨rfl, rfl, h⟩)
  next h =>
    -- the range property exists and has no value
    rw [not_or] at h
    constructor
    · refine if_neg fun hloadable => ?_
      rcases (Criteria.isLoadable_iff.mp hloadable).2.2 with hkey | hrange
      · exact h.1 hkey
      · exact h.2 hrange
    · have hnone : range = none := by simpa using h.2
      exact if_pos (Criteria.isHashOnly_iff.mpr ⟨rfl, hnone, rfl⟩)

/-- **A query by hash and range** is made of the only condition of the rest. -/
theorem rangeRule?_of_rest_singleton (order : IndexOrder) (sort : Option SortOrder) (hash : Json)
    (range : Option Json) (only : Condition) :
    (Demand.criteria ⟨some hash, range, [only]⟩).rangeRule? schema order sort =
      keyOutcome? schema order ⟨some hash, range, [only]⟩ sort := by
  have hresidual : (Demand.criteria ⟨some hash, range, [only]⟩).residual =
      [(only.property, [only])] :=
    (Criteria.groupsOf_eq_singleton_iff _ _ _).mpr ⟨rfl, rfl⟩
  have hsingle : (Demand.criteria ⟨some hash, range, [only]⟩).singleResidual? = some only := by
    rw [Criteria.singleResidual?, hresidual]
  have hranged : (Demand.criteria ⟨some hash, range, [only]⟩).isSingleOnRange schema =
      (!range.isSome && Criteria.isSomeRangeKey schema only.property) := by
    rw [Criteria.isSingleOnRange, hresidual]
    rfl
  unfold Criteria.rangeRule? keyOutcome?
  rw [hsingle, hranged, Criteria.hashCondition_eq rfl]
  dsimp only
  cases range with
  | some range => rfl
  | none =>
    cases hkey : Criteria.isSomeRangeKey schema only.property with
    | true => rfl
    | false =>
      -- the rule looks at range properties only, the table at addresses
      have hnone : Criteria.rangeAddress? schema order only.property = none := by
        rw [Option.eq_none_iff_forall_ne_some]
        intro indexName haddress
        rw [Criteria.isSomeRangeKey_of_rangeAddress? haddress] at hkey
        cases hkey
      rw [hnone]
      rfl

/-- **The first three rules follow the table.** -/
theorem keyRules_criteria (order : IndexOrder) (sort : Option SortOrder) :
    (match demand.criteria.loadRule? schema with
      | some plan => some (.ok plan)
      | none =>
        match demand.criteria.hashRule? schema sort with
        | some result => some result
        | none => demand.criteria.rangeRule? schema order sort) =
      demand.keyOutcome? schema order sort := by
  obtain ⟨hash, range, rest⟩ := demand
  cases hash with
  | none => rfl
  | some hash =>
    match rest with
    | [] =>
      have hrules := keyRules_of_rest_nil schema sort hash range
      unfold keyOutcome?
      dsimp only at hrules ⊢
      split at hrules
      next h => rw [hrules, if_pos h]
      next h => rw [hrules.1, hrules.2, if_neg h]
    | [only] =>
      rw [loadRule?_eq_none schema _ (by simp), hashRule?_eq_none schema _ sort (by simp)]
      exact rangeRule?_of_rest_singleton schema order sort hash range only
    | first :: second :: rest =>
      rw [loadRule?_eq_none schema _ (by simp), hashRule?_eq_none schema _ sort (by simp),
        rangeRule?_eq_none schema _ order sort (by simp)]
      rfl

/-! ### Indexes -/

theorem residualFor_criteria (property : String) :
    demand.criteria.residualFor property = demand.restOn property :=
  Criteria.residualFor_of_groupsOf rfl property

theorem indexHash?_criteria (property : String) :
    demand.criteria.indexHash? schema property = demand.hashOf? schema property := by
  unfold Criteria.indexHash? hashOf?
  rw [boundValue?_criteria, residualFor_criteria]
  cases demand.value? schema property with
  | some value => rfl
  | none => rcases demand.restOn property with _ | ⟨first, _ | ⟨second, rest⟩⟩ <;> rfl

theorem indexRange?_criteria (property : String) :
    demand.criteria.indexRange? schema property = demand.rangeOf? schema property := by
  unfold Criteria.indexRange? rangeOf?
  rw [boundValue?_criteria, residualFor_criteria]
  simp only [Operator.isKeyOperator_iff]
  cases demand.value? schema property with
  | some value => rfl
  | none => rcases demand.restOn property with _ | ⟨first, _ | ⟨second, rest⟩⟩ <;> rfl

/-- **An index matches the criteria as it serves the demand.** -/
theorem matchIndex?_criteria (index : IndexDefinition) :
    demand.criteria.matchIndex? schema index = demand.serve? schema index := by
  unfold Criteria.matchIndex? serve?
  rw [indexHash?_criteria]
  cases demand.hashOf? schema index.hashKey with
  | none => rfl
  | some hash =>
    rw [Option.bind_some]
    cases index.rangeKey with
    | none => rfl
    | some property =>
      dsimp only
      rw [indexRange?_criteria]

theorem mem_map_bound_iff (property : String) :
    property ∈ (demand.criteria.bound schema).map (·.1) ↔
      (demand.value? schema property).isSome = true := by
  rw [Criteria.map_fst_bound, List.mem_map, Option.isSome_iff_exists]
  simp only [Criteria.mem_boundConditions_iff, boundValue?_criteria]
  constructor
  · rintro ⟨_, ⟨_, value, hvalue, rfl⟩, rfl⟩
    exact ⟨value, hvalue⟩
  · rintro ⟨value, hvalue⟩
    exact ⟨_, ⟨property, value, hvalue, rfl⟩, rfl⟩

theorem mem_properties_iff (conditions : List Condition) (property : String) :
    property ∈ (Demand.of schema conditions).criteria.properties schema ↔
      property ∈ conditions.map (·.property) := by
  have hgroups : property ∈ (Demand.of schema conditions).criteria.residual.map (·.1) ↔
      property ∈ (Demand.of schema conditions).rest.map (·.property) := by
    simp [criteria, Criteria.groupsOf, Function.comp_def]
  rw [Criteria.properties, List.mem_append, hgroups, mem_map_bound_iff]
  constructor
  · rintro (hrest | hvalue)
    · obtain ⟨condition, hmem, rfl⟩ := List.mem_map.mp hrest
      exact List.mem_map_of_mem (mem_of_mem_rest hmem)
    · obtain ⟨-, value, hmem⟩ := isSome_value?_iff.mp hvalue
      exact List.mem_map.mpr ⟨_, hmem, rfl⟩
  · intro hproperty
    obtain ⟨condition, hmem, rfl⟩ := List.mem_map.mp hproperty
    rcases mem_rest_or_repeats schema hmem with hrest | ⟨bound, value, hvalue, -, -⟩
    · exact .inl (List.mem_map_of_mem hrest)
    · exact .inr (Option.isSome_of_eq_some hvalue)

/-- **The planner queries the best index of the table.** -/
theorem selectIndex?_criteria (order : IndexOrder) (conditions : List Condition)
    (sort : Option SortOrder) :
    (Demand.of schema conditions).criteria.selectIndex? schema order sort =
      (Demand.of schema conditions).bestIndex? schema order conditions sort := by
  unfold Criteria.selectIndex? Criteria.candidates bestIndex?
  dsimp only
  congr 1
  · funext found
    exact IndexRank.ofKey_congr (mem_properties_iff schema conditions) sort _
  · congr 1
    funext index
    exact matchIndex?_criteria schema _ index

/-! ### Filters -/

/-- **The filters of a scan** are those of the table. -/
theorem conditions_criteria : demand.criteria.conditions schema = demand.filters schema := by
  unfold Criteria.conditions filters Criteria.residualConditions
  rw [boundConditions_criteria]
  congr 1
  exact List.flatMap_map ..

/-- **The filters of a query of an index** are those of the table. -/
theorem filtersAfter_criteria (found : IndexMatch) :
    demand.criteria.filtersAfter schema found = demand.filtersAfter schema found := by
  have hgroups := Criteria.filter_groupsOf (fun property => !found.consumes .residual property)
    demand.rest
  unfold Criteria.filtersAfter filtersAfter
  rw [boundConditions_criteria, criteria, hgroups]
  exact congrArg (_ ++ ·) (List.flatMap_map ..)

/-! ### The whole table -/

/-- **Planning the demand of conditions follows the table.** -/
theorem plan_criteria (config : PlannerConfig) (conditions : List Condition)
    (sort : Option SortOrder) (projection : Projection) :
    (Demand.of schema conditions).criteria.plan schema config sort projection =
      outcome schema config conditions sort projection := by
  unfold Criteria.plan outcome
  dsimp only
  rw [← keyRules_criteria, ← selectIndex?_criteria]
  cases Criteria.loadRule? schema (Demand.of schema conditions).criteria with
  | some plan => rfl
  | none =>
    cases Criteria.hashRule? schema (Demand.of schema conditions).criteria sort with
    | some result => rfl
    | none =>
      cases Criteria.rangeRule? schema config.indexOrder (Demand.of schema conditions).criteria
        sort with
      | some result => rfl
      | none =>
        unfold Criteria.indexRule? Criteria.scanRule
        cases Criteria.selectIndex? schema (Demand.of schema conditions).criteria config.indexOrder
          sort with
        | some found =>
          rw [Option.map_some]
          dsimp only
          rw [filtersAfter_criteria]
        | none =>
          rw [Option.map_none]
          dsimp only
          rw [conditions_criteria]

end Demand

/-- **Planning follows the table** for conditions each of which is acceptable on its own: the
outcome is that of the conditions that they stand for. -/
theorem ConditionSet.plan_eq_outcome {keys : EntityKeys} {set : ConditionSet}
    (hvalid : set.validate = .ok ())
    (hacceptable : ∀ condition ∈ set.conditions, keys.refusal? condition = none)
    (config : PlannerConfig) (projection : Projection) :
    set.plan keys config projection =
      Demand.outcome keys.schema config (set.conditions.flatMap keys.expand) set.sort
        projection := by
  have hcriteria := (Criteria.ofConditions_eq_ok_iff keys set.conditions _).mpr ⟨hacceptable, rfl⟩
  rw [plan, hvalid, hcriteria]
  exact Demand.plan_criteria keys.schema config _ set.sort projection

end AccessPlanner
