import AccessPlanner.Proofs.Criteria.Acceptance
import AccessPlanner.Proofs.Criteria.Demand
import AccessPlanner.Proofs.Document.RoundTrip
import AccessPlanner.Proofs.Plan.Conservation
import AccessPlanner.Proofs.Plan.Legality

/-!
# The conditions of a plan can be stated

A plan is written as a document and read back, condition by condition, and a condition is read only
if its property has a name and its operator takes that many values.  The number of values is right
for every `Condition`; the name is the point here.

A planner states conditions on its own account: those that a condition on a composite id stands for,
and the equalities of what is bound.  Their properties are those of the primary key.  A schema names
the hash property, but it takes any name for the range property, the empty one included.  That is
the only way in which a plan comes by a condition that cannot be read
(`ConditionSet.plan_isReadBack`), and it does come by one (`ConditionSet.plan_nameless_component`).
-/

namespace AccessPlanner

/-! ### Conditions -/

/-- **A condition that can be stated:** it is admitted, and read back from its document. -/
structure Condition.IsReadBack (condition : Condition) : Prop where
  admitted : make condition.property condition.operator condition.values = .ok condition
  read : read condition.toJson = .ok condition

/-- A condition can be stated exactly if its property has a name. -/
theorem Condition.isReadBack_iff {condition : Condition} :
    condition.IsReadBack ↔ condition.property ≠ "" :=
  ⟨fun h => property_ne_empty_of_make h.admitted,
    fun h => ⟨make_of_ne_empty h, read_toJson h⟩⟩

/-- The conditions that a plan is made of.  A load has values in their place. -/
def AccessPlan.conditions : AccessPlan → List Condition
  | load _ _ => []
  | query plan => plan.hash :: (plan.range.toList ++ plan.filters)
  | scan plan => plan.filters

theorem AccessPlan.mem_carried {plan : AccessPlan} {condition : Condition}
    (h : condition ∈ plan.conditions) (schema : KeySchema) : condition ∈ plan.carried schema := by
  cases plan with
  | load => cases h
  | query => exact h
  | scan => exact h

namespace EntityKeys

variable {keys : EntityKeys} {condition stated : Condition}

/-! ### Names -/

/-- **A nameless condition** that a named one stands for is an equality of the range property, which
has no name, with a component of a composite id. -/
theorem nameless_of_mem_expand (haccepts : keys.Accepts condition)
    (hnamed : condition.property ≠ "") (hstated : stated ∈ keys.expand condition)
    (hnameless : stated.property = "") :
    keys.schema.rangeKey = some "" ∧ keys.schema.isCompositeId condition.property = true ∧
      condition.operator = .eq := by
  cases haccepts with
  | plain hid =>
    -- the condition stands for itself
    rw [Criteria.expand_of_isCompositeId_eq_false hid] at hstated
    obtain rfl := List.mem_singleton.mp hstated
    exact absurd hnameless hnamed
  | composite value hid hvalues _ hparts =>
    obtain ⟨hop, other, hother, part, hpart, rfl⟩ := Criteria.exists_of_mem_expand hid hstated
    obtain rfl : other = value := List.singleton_inj.mp (hother.symm.trans hvalues)
    have hempty : part.1 = "" := hnameless
    refine ⟨?_, hid, ?_⟩
    · rcases property_of_mem_components hpart with hhash | hrange
      · exact absurd (hhash.symm.trans hempty) keys.schema.hashKey_ne_empty
      · rwa [hempty] at hrange
    · by_contra hequality
      exact hparts hequality part hpart hempty

end EntityKeys

namespace ConditionSet

/-! ### Plans -/

/-- **Nothing is made up:** every condition that a plan carries is one that the set stands for. -/
theorem mem_expand_of_mem_carried {keys : EntityKeys} {config : PlannerConfig}
    {set : ConditionSet} {projection : Projection} {plan : AccessPlan}
    (h : set.plan keys config projection = .ok plan) {condition : Condition}
    (hmem : condition ∈ plan.carried keys.schema) :
    ∃ asked ∈ set.conditions, keys.Accepts asked ∧ condition ∈ keys.expand asked := by
  obtain ⟨criteria, hrouted, hsound, hplanned⟩ := exists_planned h
  obtain ⟨haccepted, rfl⟩ :=
    (Criteria.ofConditions_eq_ok_iff keys set.conditions criteria).mp hrouted
  have hcarried := (hplanned.carried_perm hsound).mem_iff.mp hmem
  have hexpanded : condition ∈ set.conditions.flatMap keys.expand := by
    rcases Demand.mem_conditions_iff.mp hcarried with hbound | hrest
    · obtain ⟨property, value, hvalue, rfl⟩ := Demand.mem_equalities_iff.mp hbound
      exact Demand.equals_mem_of_value? hvalue
    · exact Demand.mem_of_mem_rest hrest
  obtain ⟨asked, hasked, hstated⟩ := List.mem_flatMap.mp hexpanded
  exact ⟨asked, hasked, EntityKeys.accepts_of_refusal? (haccepted asked hasked), hstated⟩

theorem mem_expand_of_mem_plan {keys : EntityKeys} {config : PlannerConfig} {set : ConditionSet}
    {projection : Projection} {plan : AccessPlan} (h : set.plan keys config projection = .ok plan)
    {condition : Condition} (hmem : condition ∈ plan.conditions) :
    ∃ asked ∈ set.conditions, keys.Accepts asked ∧ condition ∈ keys.expand asked :=
  mem_expand_of_mem_carried h (plan.mem_carried hmem keys.schema)

/-- **The conditions of a plan can be stated,** if those of the set can, with one exception: where
the range property of the primary key has the empty name, an equality on a composite id may leave an
equality on that property in the plan. -/
theorem plan_isReadBack {keys : EntityKeys} {config : PlannerConfig} {set : ConditionSet}
    {projection : Projection} {plan : AccessPlan}
    (hnamed : ∀ condition ∈ set.conditions, condition.property ≠ "")
    (h : set.plan keys config projection = .ok plan) :
    ∀ condition ∈ plan.conditions, condition.IsReadBack ∨
      keys.schema.rangeKey = some "" ∧ condition.property = "" ∧
        ∃ asked ∈ set.conditions, keys.schema.isCompositeId asked.property = true ∧
          asked.operator = .eq ∧ condition ∈ keys.expand asked := by
  intro condition hmem
  by_cases hname : condition.property = ""
  · obtain ⟨asked, hasked, haccepts, hstated⟩ := mem_expand_of_mem_plan h hmem
    obtain ⟨hrange, hid, hop⟩ :=
      EntityKeys.nameless_of_mem_expand haccepts (hnamed asked hasked) hstated hname
    exact .inr ⟨hrange, hname, asked, hasked, hid, hop, hstated⟩
  · exact .inl (Condition.isReadBack_iff.mpr hname)

/-- Open orders of a day, which is given by a part of a composite id. -/
theorem plan_isReadBack_open_orders :
    let set : ConditionSet :=
      { conditions :=
          [.equals "id" (.object [("day", .ofNat 7)]), .equals "status" (.string "open")] }
    let plan : QueryPlan :=
      { indexName := some "byStatus", hash := .equals "status" (.string "open"),
        range := some (.equals "day" (.ofNat 7)), filters := [], sort := none }
    (∀ condition ∈ set.conditions, condition.property ≠ "") ∧
      set.plan KeySchema.orders.entity {} .items = .ok (.query plan) ∧
      ∀ condition ∈ (AccessPlan.query plan).conditions, condition.IsReadBack := by
  intro set plan
  have hnamed : ∀ condition ∈ set.conditions, condition.property ≠ "" := by
    simp [set, Condition.equals]
  have hplan : set.plan KeySchema.orders.entity {} .items = .ok (.query plan) := rfl
  refine ⟨hnamed, hplan, fun condition hmem => ?_⟩
  rcases plan_isReadBack hnamed hplan condition hmem with hread | ⟨hrange, -⟩
  · exact hread
  · exact absurd hrange (by decide)

/-- A schema whose range property has the empty name.  A component of a composite id gets into a
scan as a condition that is not admitted and that no document can give back. -/
theorem plan_nameless_component :
    let schema : KeySchema :=
      ⟨{ primary := { hashKey := "customer", rangeKey := some "" }, compositeIds := ["id"] }, rfl⟩
    let set : ConditionSet := { conditions := [.equals "id" (.object [("", .ofNat 5)])] }
    let stated : Condition := .equals "" (.ofNat 5)
    (∀ condition ∈ set.conditions, condition.property ≠ "") ∧
      set.plan schema.entity { scanEnabled := true } .items = .ok (.scan ⟨[stated], none⟩) ∧
      Condition.make stated.property stated.operator stated.values = .error .emptyProperty ∧
      ¬ stated.IsReadBack := by
  intro schema set stated
  exact ⟨by simp [set, Condition.equals], rfl, rfl, fun h => Condition.isReadBack_iff.mp h rfl⟩

end ConditionSet

end AccessPlanner
