import AccessPlanner.Proofs.Plan.Rules

/-!
# No condition is lost

Whatever access path is chosen, the conditions that the plan carries are the conditions of the
criteria, each as often as it was there.  The bound values of the primary key count as equalities;
a condition on the key counts as well as a filter.

Loads, and the queries of the primary key, are made only where nothing else is asked, so that this
is a matter of looking at the criteria.  The queries of an index take conditions out of two
sources, which is where `Fits.keyConditions_append_filtersAfter_perm` comes in.
-/

namespace AccessPlanner

/-- **The conditions that a plan carries,** those on the key first. -/
def AccessPlan.carried (schema : KeySchema) : AccessPlan → List Condition
  | load hashValue rangeValue =>
    .equals schema.hashKey hashValue ::
      (schema.rangeKey.bind fun property => rangeValue.map (Condition.equals property)).toList
  | query plan => plan.hash :: (plan.range.toList ++ plan.filters)
  | scan plan => plan.filters

namespace Criteria

variable {schema : KeySchema} {criteria : Criteria}

theorem boundConditions_eq_cons {value : Json} (h : criteria.hashValue = some value) :
    criteria.boundConditions schema =
      .equals schema.hashKey value ::
        (schema.rangeKey.bind fun property =>
          criteria.rangeValue.map (Condition.equals property)).toList := by
  unfold boundConditions bound boundHash? boundRange?
  rw [h]
  cases schema.rangeKey with
  | none => rfl
  | some property => cases criteria.rangeValue <;> rfl

theorem conditions_eq_cons {value : Json} {groups : List (String × List Condition)}
    (hhash : criteria.hashValue = some value) (hresidual : criteria.residual = groups) :
    criteria.conditions schema =
      .equals schema.hashKey value ::
        ((schema.rangeKey.bind fun property =>
          criteria.rangeValue.map (Condition.equals property)).toList ++
            groups.flatMap fun group => group.2) := by
  rw [conditions, residualConditions, boundConditions_eq_cons hhash, hresidual, List.cons_append]

/-- **Every rule conserves the conditions.** -/
theorem Planned.carried_perm {config : PlannerConfig} {sort : Option SortOrder}
    {projection : Projection} {plan : AccessPlan} (hsound : Sound schema criteria)
    (h : Planned schema config criteria sort projection plan) :
    (plan.carried schema).Perm (criteria.conditions schema) := by
  cases h with
  | load value hhash hresidual =>
    rw [conditions_eq_cons hhash hresidual, List.flatMap_nil, List.append_nil]
    exact .refl _
  | hash value hhash hfree hresidual =>
    rw [conditions_eq_cons hhash hresidual, hfree]
    cases schema.rangeKey <;> exact .refl _
  | range value group only indexName hhash hfree hresidual =>
    -- no range value is bound, so the key conditions are all there is
    rw [conditions_eq_cons hhash hresidual, hfree]
    cases schema.rangeKey <;> exact .refl _
  | index found hselect =>
    have hfits := fits_of_mem_candidates (mem_candidates_of_selectIndex? hselect)
    have hperm := hfits.keyConditions_append_filtersAfter_perm hsound
    -- the plan drops the sources of the key conditions:
    have hkeys : found.keyConditions.map (·.condition) =
        found.hash.condition :: (found.range.map fun key => key.condition).toList := by
      unfold IndexMatch.keyConditions
      cases found.range <;> rfl
    rwa [hkeys, List.cons_append] at hperm
  | scan => exact .refl _

/-- **Planning neither loses a condition nor repeats one.** For all criteria that routing can lead
to, a plan carries exactly their conditions, and so does every index that could be queried, chosen
or not, with the filters that it leaves over. -/
theorem plan_conserves_conditions {keys : EntityKeys} {criteria : Criteria}
    (h : Reachable keys criteria) :
    (∀ config sort projection plan,
      criteria.plan keys.schema config sort projection = .ok plan →
        (plan.carried keys.schema).Perm (criteria.conditions keys.schema)) ∧
    ∀ order, ∀ found ∈ criteria.candidates keys.schema order,
      (found.keyConditions.map (·.condition) ++ criteria.filtersAfter keys.schema found).Perm
        (criteria.conditions keys.schema) := by
  constructor
  · intro config sort projection plan hplan
    exact (planned_of_plan hplan).carried_perm h.sound
  · intro order found hmem
    exact (fits_of_mem_candidates hmem).keyConditions_append_filtersAfter_perm h.sound

/-- Open orders from a day on, with a refused condition in between. -/
theorem plan_conserves_open_orders :
    let keys := KeySchema.orders.entity
    let opened := (empty.add keys (.equals "status" (.string "open"))).criteria
    let refused := (opened.add keys (.equals "id" .null)).criteria
    let dated := (refused.add keys ⟨"day", .ge, [.ofNat 7], rfl⟩).criteria
    let criteria := dated.addResidual ⟨"total", .gt, [.ofNat 100], rfl⟩
    ∃ plan, criteria.plan keys.schema {} none .items = .ok plan ∧
      plan.indexName? = some "byStatus" ∧
      (plan.carried keys.schema).Perm (criteria.conditions keys.schema) := by
  intro keys opened refused dated criteria
  have hreachable : Reachable keys criteria := .addResidual (.add (.add (.add .empty _) _) _) _
  exact ⟨_, rfl, rfl, (plan_conserves_conditions hreachable).1 {} none .items _ rfl⟩

end Criteria

end AccessPlanner
