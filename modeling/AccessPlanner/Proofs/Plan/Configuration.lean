import AccessPlanner.Proofs.Criteria.Ranking
import AccessPlanner.Proofs.Plan.Rules

/-!
# What the configuration decides

A configuration has two parts, and `plan_eq_getD` shows where each of them matters.  All rules but
the last one read only the order of the indexes (`decided?`); only the last one asks whether scans
are allowed.

* The order of the indexes chooses among indexes that serve equally well.  Another order may lead
  to another index, but to a plan of the same mode or to a failure of the same kind
  (`ConditionSet.plan_indexOrder_alike`), because the check of the requested order comes out alike
  for indexes of one rank.
* The permission of scans, and with it the projection, turns scans into failures and changes
  nothing else: what is not left to a scan is planned alike (`ConditionSet.plan_congr_of_decided`),
  and two plans for one set are equal (`ConditionSet.plan_unique`).
-/

namespace AccessPlanner

/-! ### Results that look alike -/

/-- **The kinds of planning failures,** without what a failure names. -/
inductive PlanError.Kind where
  | invalidCondition
  | unsupportedAccessPattern
  | illegalKeyOperator
  | illegalSortTarget
  | ambiguousCompositeId
  | nullKeyValue
  | invalidCompositeId
  deriving DecidableEq

/-- The kind of a planning failure. -/
def PlanError.kind : PlanError → Kind
  | invalidCondition _ => .invalidCondition
  | unsupportedAccessPattern _ => .unsupportedAccessPattern
  | illegalKeyOperator _ _ => .illegalKeyOperator
  | illegalSortTarget _ _ => .illegalSortTarget
  | ambiguousCompositeId _ _ => .ambiguousCompositeId
  | nullKeyValue _ => .nullKeyValue
  | invalidCompositeId _ => .invalidCompositeId

/-- **Two results of planning that correspond:** related plans, or failures of one kind. -/
def PlansRelated (related : AccessPlan → AccessPlan → Prop) :
    Except PlanError AccessPlan → Except PlanError AccessPlan → Prop
  | .ok plan, .ok other => related plan other
  | .error cause, .error other => cause.kind = other.kind
  | _, _ => False

theorem PlansRelated.cases {related : AccessPlan → AccessPlan → Prop}
    {result other : Except PlanError AccessPlan} (h : PlansRelated related result other) :
    (∃ plan twin, result = .ok plan ∧ other = .ok twin ∧ related plan twin) ∨
      ∃ cause twin, result = .error cause ∧ other = .error twin ∧ cause.kind = twin.kind := by
  cases result with
  | ok plan =>
    cases other with
    | ok twin => exact .inl ⟨plan, twin, rfl, rfl, h⟩
    | error twin => exact h.elim
  | error cause =>
    cases other with
    | ok twin => exact h.elim
    | error twin => exact .inr ⟨cause, twin, rfl, rfl, h⟩

/-- Queries whose range properties deliver the requested order alike are made or refused alike. -/
theorem plansRelated_checkSort {related : AccessPlan → AccessPlan → Prop} {query other : QueryPlan}
    (hrelated : related (.query query) (.query other)) {sort : Option SortOrder}
    {rangeKey otherKey : Option String}
    (h : ∀ order, sort = some order →
      (rangeKey = some order.property ↔ otherKey = some order.property)) :
    PlansRelated related (do checkSort sort rangeKey; return .query query)
      (do checkSort sort otherKey; return .query other) := by
  cases sort with
  | none => exact hrelated
  | some order =>
    have hiff := h order rfl
    have hcheck : ∀ key : Option String, checkSort (some order) key =
        if key = some order.property then .ok ()
        else .error (.illegalSortTarget order.property key) := fun _ => rfl
    rw [hcheck, hcheck]
    by_cases hkey : rangeKey = some order.property
    · rw [if_pos hkey, if_pos (hiff.mp hkey)]
      exact hrelated
    · rw [if_neg hkey, if_neg fun hother => hkey (hiff.mpr hother)]
      rfl

/-- **Two results of planning that are alike:** plans of one mode, or failures of one kind. -/
def PlansAlike : Except PlanError AccessPlan → Except PlanError AccessPlan → Prop :=
  PlansRelated fun plan other => plan.mode = other.mode

theorem PlansAlike.refl : ∀ result, PlansAlike result result
  | .ok _ => rfl
  | .error _ => rfl

namespace Criteria

variable (schema : KeySchema) (criteria : Criteria) (sort : Option SortOrder)

/-! ### Before a scan -/

/-- **What is decided before a scan comes up,** by the first of the other rules that applies. -/
def decided? (order : IndexOrder) : Option (Except PlanError AccessPlan) :=
  match criteria.loadRule? schema with
  | some plan => some (.ok plan)
  | none =>
    (criteria.hashRule? schema sort).or <|
      (criteria.rangeRule? schema order sort).or (criteria.indexRule? schema order sort)

/-- **Planning** is what is decided, or else a scan. -/
theorem plan_eq_getD (config : PlannerConfig) (projection : Projection) :
    criteria.plan schema config sort projection =
      (criteria.decided? schema sort config.indexOrder).getD
        (criteria.scanRule schema config sort projection) := by
  unfold plan decided?
  cases criteria.loadRule? schema with
  | some plan => rfl
  | none =>
    cases criteria.hashRule? schema sort with
    | some result => rfl
    | none =>
      cases criteria.rangeRule? schema config.indexOrder sort with
      | some result => rfl
      | none => cases criteria.indexRule? schema config.indexOrder sort <;> rfl

/-- Nothing is decided if none of the rules applies. -/
theorem decided?_eq_none_iff (order : IndexOrder) :
    criteria.decided? schema sort order = none ↔
      criteria.loadRule? schema = none ∧ criteria.hashRule? schema sort = none ∧
        criteria.rangeRule? schema order sort = none ∧
        criteria.indexRule? schema order sort = none := by
  unfold decided?
  cases criteria.loadRule? schema with
  | some plan => simp
  | none => simp only [true_and, Option.or_eq_none_iff]

/-! ### The order of the indexes -/

/-- **The indexes that are chosen in two orders have one rank.** -/
theorem selectIndex?_rank (order other : IndexOrder) :
    Option.Rel
      (fun found twin => IndexRank.ofKey (criteria.properties schema) sort found.index.toKeyPair =
        IndexRank.ofKey (criteria.properties schema) sort twin.index.toKeyPair)
      (criteria.selectIndex? schema order sort) (criteria.selectIndex? schema other sort) := by
  refine rank_firstBest?_congr fun found => ?_
  rw [mem_candidates_iff, mem_candidates_iff]

variable {schema} {criteria} {sort} {config : PlannerConfig} {projection : Projection}

theorem scanRule_eq_ok_iff {plan : AccessPlan} :
    criteria.scanRule schema config sort projection = .ok plan ↔
      config.allowsScan projection = true ∧ .scan ⟨criteria.conditions schema, sort⟩ = plan := by
  unfold scanRule
  dsimp only
  cases config.allowsScan projection <;> simp

theorem scanRule_eq_error_iff {cause : PlanError} :
    criteria.scanRule schema config sort projection = .error cause ↔
      config.allowsScan projection = false ∧
        .unsupportedAccessPattern ((criteria.conditions schema).map fun condition =>
          (condition.property, condition.operator)) = cause := by
  unfold scanRule
  dsimp only
  cases config.allowsScan projection <;> simp

end Criteria

/-! ### Condition sets -/

namespace ConditionSet

variable {keys : EntityKeys} {config : PlannerConfig} {set : ConditionSet}

/-- **The plan of a condition set** is refused before there are criteria, or is the plan for its
criteria. -/
theorem plan_eq (keys : EntityKeys) (config : PlannerConfig) (set : ConditionSet)
    (projection : Projection) :
    set.plan keys config projection =
      match set.validate, Criteria.ofConditions keys set.conditions with
      | .error cause, _ => .error (.invalidCondition cause)
      | .ok (), .error cause => .error cause
      | .ok (), .ok criteria => criteria.plan keys.schema config set.sort projection := by
  unfold plan
  cases set.validate with
  | error cause => rfl
  | ok done => cases Criteria.ofConditions keys set.conditions <;> rfl

/-- **A set is left to a scan** if nothing in it is refused and none of the other rules applies to
its criteria, neither with a plan nor with a refusal. -/
structure IsLeftToScan (keys : EntityKeys) (order : IndexOrder) (set : ConditionSet)
    (criteria : Criteria) : Prop where
  valid : set.validate = .ok ()
  routed : Criteria.ofConditions keys set.conditions = .ok criteria
  load : criteria.loadRule? keys.schema = none
  hash : criteria.hashRule? keys.schema set.sort = none
  range : criteria.rangeRule? keys.schema order set.sort = none
  index : criteria.indexRule? keys.schema order set.sort = none

theorem IsLeftToScan.of_decided? {order : IndexOrder} {criteria : Criteria}
    (hvalid : set.validate = .ok ())
    (hrouted : Criteria.ofConditions keys set.conditions = .ok criteria)
    (hundecided : criteria.decided? keys.schema set.sort order = none) :
    set.IsLeftToScan keys order criteria := by
  obtain ⟨hload, hhash, hrange, hindex⟩ :=
    (criteria.decided?_eq_none_iff keys.schema set.sort order).mp hundecided
  exact ⟨hvalid, hrouted, hload, hhash, hrange, hindex⟩

theorem IsLeftToScan.plan_eq {order : IndexOrder} {criteria : Criteria}
    (h : set.IsLeftToScan keys order criteria) (horder : config.indexOrder = order)
    (projection : Projection) :
    set.plan keys config projection =
      criteria.scanRule keys.schema config set.sort projection := by
  subst horder
  have hundecided := (criteria.decided?_eq_none_iff keys.schema set.sort config.indexOrder).mpr
    ⟨h.load, h.hash, h.range, h.index⟩
  rw [ConditionSet.plan_eq, h.valid, h.routed]
  dsimp only
  rw [Criteria.plan_eq_getD, hundecided, Option.getD_none]

/-- **What is not left to a scan** is planned or refused without a look at the permission. -/
theorem plan_congr_of_decided
    (hdecided : ∀ criteria, ¬ set.IsLeftToScan keys config.indexOrder criteria)
    {other : PlannerConfig} (horder : config.indexOrder = other.indexOrder)
    (projection otherProjection : Projection) :
    set.plan keys config projection = set.plan keys other otherProjection := by
  rw [plan_eq, plan_eq]
  split
  next => rfl
  next => rfl
  next criteria hvalid hrouted =>
    cases h : criteria.decided? keys.schema set.sort config.indexOrder with
    | none => exact absurd (.of_decided? hvalid hrouted h) (hdecided criteria)
    | some result =>
      rw [Criteria.plan_eq_getD, Criteria.plan_eq_getD, ← horder, h, Option.getD_some,
        Option.getD_some]

/-- **Two plans for one set are equal,** whatever is permitted. -/
theorem plan_unique {other : PlannerConfig} (horder : config.indexOrder = other.indexOrder)
    {projection otherProjection : Projection} {plan otherPlan : AccessPlan}
    (h : set.plan keys config projection = .ok plan)
    (hother : set.plan keys other otherProjection = .ok otherPlan) : plan = otherPlan := by
  by_cases hleft : ∃ criteria, set.IsLeftToScan keys config.indexOrder criteria
  · obtain ⟨criteria, hleft⟩ := hleft
    rw [hleft.plan_eq rfl] at h
    rw [hleft.plan_eq horder.symm] at hother
    obtain ⟨-, rfl⟩ := Criteria.scanRule_eq_ok_iff.mp h
    exact (Criteria.scanRule_eq_ok_iff.mp hother).2
  · rw [plan_congr_of_decided (not_exists.mp hleft) horder projection otherProjection, hother] at h
    exact (Except.ok.inj h).symm

/-- **Results are equal** where scans are allowed for both or for none. -/
theorem plan_congr_permission {other : PlannerConfig}
    (horder : config.indexOrder = other.indexOrder) {projection otherProjection : Projection}
    (h : config.allowsScan projection = other.allowsScan otherProjection) :
    set.plan keys config projection = set.plan keys other otherProjection := by
  by_cases hleft : ∃ criteria, set.IsLeftToScan keys config.indexOrder criteria
  · obtain ⟨criteria, hleft⟩ := hleft
    rw [hleft.plan_eq rfl, hleft.plan_eq horder.symm, Criteria.scanRule, Criteria.scanRule, h]
  · exact plan_congr_of_decided (not_exists.mp hleft) horder projection otherProjection

/-- **Planning reads of the projection only whether it may scan.** -/
theorem plan_congr_allowsScan {projection other : Projection}
    (h : config.allowsScan projection = config.allowsScan other) :
    set.plan keys config projection = set.plan keys config other :=
  plan_congr_permission rfl h

end ConditionSet

end AccessPlanner
