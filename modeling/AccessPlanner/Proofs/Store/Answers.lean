import AccessPlanner.Proofs.Store.Delivery

/-!
# Answers of a repository

The promise of the whole library: a condition set that can be planned is answered with the
documents that satisfy its conditions, whatever access path is chosen.  A condition on a composite
id counts as the conditions on the components.

The documents are followed through four lists of conditions: those that the conditions stand for,
those that the criteria hold after routing (`Demand.matching_demand`), those that the plan carries
(`Criteria.Planned.carried_perm`), and those that the request asks for (`MemoryStore.load_eq_head?`
and its companions).
-/

namespace AccessPlanner

/-- **What an access path returns** of the documents that match.  A load returns the first one; the
other access paths return all of them in an order of their own. -/
def AccessPlan.Returns : AccessPlan → List Json → List Json → Prop
  | load _ _, matching, items => items = matching.head?.toList
  | _, matching, items => items.Perm matching

namespace Repository

/-! ### Requests -/

/-- **The request of a legal plan is answered** with what the conditions of the plan match. -/
theorem answer_request {plan : AccessPlan} (keys : EntityKeys) (config : PlannerConfig)
    (docs : List Json) {set : ConditionSet} (hlimit : set.limit = none)
    (hlegal : plan.IsLegal keys.schema) :
    ∃ page,
      answer ⟨keys, config, (MemoryStore.ofSchema keys.schema).withItems docs⟩
          (plan.request keys.schema set .items) = .ok page ∧
        plan.Returns (keys.schema.matching (plan.carried keys.schema) docs) page.items := by
  obtain ⟨page, hanswer, hitems⟩ := answer_request_items keys config docs set hlegal
  refine ⟨page, hanswer, ?_⟩
  rw [hitems, hlimit]
  cases plan with
  | load => rfl
  | query => exact KeySchema.arrange_perm ..
  | scan => exact KeySchema.arrange_perm ..

/-! ### Answers -/

/-- **A repository answers what it is asked.** Over the store of a schema with any documents, a
condition set without a limit is refused only by the planner, and never by the store.  If it is
planned, the items are the documents that satisfy all conditions that the conditions of the set
stand for: all of them for a query or a scan, each as often as it was stored, and the first of
them for a load. -/
theorem find_answers (keys : EntityKeys) (config : PlannerConfig) (docs : List Json)
    {set : ConditionSet} (hlimit : set.limit = none) :
    let repository : Repository :=
      ⟨keys, config, (MemoryStore.ofSchema keys.schema).withItems docs⟩
    match set.plan keys config .items with
    | .error cause => repository.find set = .error (.plan cause)
    | .ok plan =>
      ∃ page, repository.find set = .ok page ∧
        plan.Returns (keys.schema.matching (set.conditions.flatMap keys.expand) docs)
          page.items := by
  intro repository
  have hfind := repository.find_eq set
  cases hplan : set.plan keys config .items with
  | error cause =>
    rw [hplan] at hfind
    exact hfind
  | ok plan =>
    rw [hplan] at hfind
    obtain ⟨criteria, hcriteria, hsound, hplanned⟩ := ConditionSet.exists_planned hplan
    -- the criteria are what the conditions demand
    obtain ⟨-, rfl⟩ := (Criteria.ofConditions_eq_ok_iff keys set.conditions criteria).mp hcriteria
    obtain ⟨page, hanswer, hreturns⟩ :=
      answer_request keys config docs hlimit (hplanned.isLegal hsound)
    refine ⟨page, hfind.trans hanswer, ?_⟩
    rwa [matching_perm (hplanned.carried_perm hsound), Demand.matching_demand] at hreturns

/-- The orders of a customer from a day on, one of them stored twice. -/
theorem find_answers_orders_of_customer :
    let order (customer day : String) : Json :=
      .object [("customer", .string customer), ("placed", .string day)]
    let docs := [order "ada" "03", order "bob" "02", order "ada" "01", order "ada" "03"]
    let repository : Repository :=
      ⟨KeySchema.orders.entity, {}, (MemoryStore.ofSchema KeySchema.orders).withItems docs⟩
    let set : ConditionSet :=
      { conditions :=
          [.equals "customer" (.string "ada"), ⟨"day", .ge, [.string "02"], rfl⟩] }
    ∃ page, repository.find set = .ok page ∧
      page.items.Perm [order "ada" "03", order "ada" "03"] := by
  intro order docs repository set
  have hlimit : set.limit = none := rfl
  exact find_answers KeySchema.orders.entity {} docs hlimit

end Repository

end AccessPlanner
