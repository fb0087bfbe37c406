import AccessPlanner.Proofs.Plan.Configuration
import AccessPlanner.Proofs.Schema.Rules
import AccessPlanner.Request

/-!
# Permission to scan

Scans are allowed or not, for items and for counts separately, and nothing else is.  So a caller who
is refused may ask again with scans allowed, or count before finding, and gets the same plan or the
same refusal, but for the scan itself (`ConditionSet.plan_eq_or_isRefusedScan`).

The refusal names the conditions that the scan would have checked, in their order.  The requests of
two plans differ in what they select and in nothing else.
-/

namespace AccessPlanner

/-! ### Two results -/

/-- **A scan that is refused elsewhere:** one result is the scan, and the other one names what the
scan would have checked. -/
def IsRefusedScan (result other : Except PlanError AccessPlan) : Prop :=
  ∃ scan : ScanPlan, result = .ok (.scan scan) ∧
    other = .error (.unsupportedAccessPattern
      (scan.filters.map fun condition => (condition.property, condition.operator)))

/-- The request that selects something else.  A load has nothing to select. -/
def StoreRequest.selecting (projection : Projection) : StoreRequest → StoreRequest
  | load request => .load request
  | query request => .query { request with select := projection }
  | scan request => .scan { request with select := projection }

/-- **The projection of a request** is what it selects. -/
theorem AccessPlan.request_projection (schema : KeySchema) (set : ConditionSet)
    (projection other : Projection) (plan : AccessPlan) :
    plan.request schema set other = (plan.request schema set projection).selecting other := by
  cases plan <;> rfl

namespace ConditionSet

variable {keys : EntityKeys} {config other : PlannerConfig} {set : ConditionSet}
  {projection otherProjection : Projection}

/-! ### Scans -/

/-- What is left to a scan is refused where scans are not allowed. -/
theorem IsLeftToScan.isRefusedScan {criteria : Criteria}
    (hleft : set.IsLeftToScan keys config.indexOrder criteria)
    (horder : config.indexOrder = other.indexOrder) (hallowed : config.allowsScan projection = true)
    (hforbidden : other.allowsScan otherProjection = false) :
    IsRefusedScan (set.plan keys config projection) (set.plan keys other otherProjection) := by
  refine ⟨⟨criteria.conditions keys.schema, set.sort⟩, ?_, ?_⟩
  · rw [hleft.plan_eq rfl]
    exact Criteria.scanRule_eq_ok_iff.mpr ⟨hallowed, rfl⟩
  · rw [hleft.plan_eq horder.symm]
    exact Criteria.scanRule_eq_error_iff.mpr ⟨hforbidden, rfl⟩

/-- **A scan is refused elsewhere** exactly if it is left to a scan, and scans are allowed here and
not there. -/
theorem isRefusedScan_iff (keys : EntityKeys) (set : ConditionSet)
    (horder : config.indexOrder = other.indexOrder) :
    IsRefusedScan (set.plan keys config projection) (set.plan keys other otherProjection) ↔
      config.allowsScan projection = true ∧ other.allowsScan otherProjection = false ∧
        ∃ criteria, set.IsLeftToScan keys config.indexOrder criteria := by
  constructor
  · rintro ⟨scan, hscan, hrefused⟩
    by_cases hleft : ∃ criteria, set.IsLeftToScan keys config.indexOrder criteria
    · obtain ⟨criteria, hleft⟩ := hleft
      rw [hleft.plan_eq rfl] at hscan
      rw [hleft.plan_eq horder.symm] at hrefused
      exact ⟨(Criteria.scanRule_eq_ok_iff.mp hscan).1,
        (Criteria.scanRule_eq_error_iff.mp hrefused).1, criteria, hleft⟩
    · -- otherwise the two results are one
      rw [plan_congr_of_decided (not_exists.mp hleft) horder projection otherProjection,
        hrefused] at hscan
      cases hscan
  · rintro ⟨hallowed, hforbidden, criteria, hleft⟩
    exact hleft.isRefusedScan horder hallowed hforbidden

/-! ### Two runs -/

/-- **Permission to scan decides about scans and about nothing else.** For configurations with one
order of the indexes and for any two projections, the results are equal, or one of them is a scan
and the other one its refusal.  The latter is so exactly if scans are allowed in one case and not in
the other, and if no other rule has anything to say.  Two requests are equal up to what they
select. -/
theorem plan_eq_or_isRefusedScan (keys : EntityKeys) (set : ConditionSet)
    (horder : config.indexOrder = other.indexOrder) (projection otherProjection : Projection) :
    (set.plan keys config projection = set.plan keys other otherProjection ∨
      IsRefusedScan (set.plan keys config projection) (set.plan keys other otherProjection) ∨
      IsRefusedScan (set.plan keys other otherProjection) (set.plan keys config projection)) ∧
    (IsRefusedScan (set.plan keys config projection) (set.plan keys other otherProjection) ↔
      config.allowsScan projection = true ∧ other.allowsScan otherProjection = false ∧
        ∃ criteria, set.IsLeftToScan keys config.indexOrder criteria) ∧
    ∀ plan otherPlan, set.plan keys config projection = .ok plan →
      set.plan keys other otherProjection = .ok otherPlan →
      otherPlan.request keys.schema set otherProjection =
        (plan.request keys.schema set projection).selecting otherProjection := by
  refine ⟨?_, isRefusedScan_iff keys set horder, ?_⟩
  · by_cases hleft : ∃ criteria, set.IsLeftToScan keys config.indexOrder criteria
    · obtain ⟨criteria, hleft⟩ := hleft
      cases hallowed : config.allowsScan projection <;>
        cases hotherAllowed : other.allowsScan otherProjection
      · exact .inl (plan_congr_permission horder (hallowed.trans hotherAllowed.symm))
      · rw [horder] at hleft
        exact .inr (.inr (hleft.isRefusedScan horder.symm hotherAllowed hallowed))
      · exact .inr (.inl (hleft.isRefusedScan horder hallowed hotherAllowed))
      · exact .inl (plan_congr_permission horder (hallowed.trans hotherAllowed.symm))
    · exact .inl (plan_congr_of_decided (not_exists.mp hleft) horder projection otherProjection)
  · intro plan otherPlan hplan hother
    obtain rfl := plan_unique horder hplan hother
    exact plan.request_projection keys.schema set projection otherProjection

/-- Heavy parcels, which may be scanned for but not counted. -/
theorem plan_eq_or_isRefusedScan_heavy_parcels :
    let keys := KeySchema.parcels.entity
    let config : PlannerConfig := { scanEnabled := true }
    let set : ConditionSet := { conditions := [⟨"weight", .ge, [.ofNat 100], rfl⟩] }
    config.indexOrder = ({} : PlannerConfig).indexOrder ∧
      IsRefusedScan (set.plan keys config .items) (set.plan keys {} .count) := by
  intro keys config set
  have hleft : set.IsLeftToScan keys config.indexOrder
      { residual := [("weight", [⟨"weight", .ge, [.ofNat 100], rfl⟩])] } :=
    ⟨rfl, rfl, rfl, rfl, rfl, rfl⟩
  exact ⟨rfl, (plan_eq_or_isRefusedScan keys set rfl .items .count).2.1.mpr
    ⟨rfl, rfl, _, hleft⟩⟩

end ConditionSet

end AccessPlanner
