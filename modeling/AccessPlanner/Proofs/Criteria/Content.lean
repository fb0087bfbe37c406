import AccessPlanner.Proofs.Criteria.Demand

/-!
# What criteria hold

Criteria keep the residual conditions in groups, which are found by their properties.  This is right
only as long as the properties of the groups are pairwise distinct and every condition is in the
group of its own property; `Consistent` says so, and all criteria that routing can lead to are
consistent, whatever was refused on the way (`Reachable.consistent`).

For conditions that were all routed, and of which none is on a composite id, the content of the
criteria can be read off the list (`Holds`): the first equality of a key property binds it, later
ones that say the same are dropped, and everything else is residual.
-/

namespace AccessPlanner

namespace Criteria

variable {schema : KeySchema} {criteria : Criteria}

/-! ### Criteria of any origin -/

/-- **Consistent criteria:** every group is that of one property, has conditions, and has only
conditions on its property; what is bound is not `null`; and a range value is there only if there is
a range property. -/
structure Consistent (schema : KeySchema) (criteria : Criteria) : Prop where
  distinct : (criteria.residual.map (·.1)).Nodup
  nonempty : ∀ group ∈ criteria.residual, group.2 ≠ []
  placed : ∀ group ∈ criteria.residual, ∀ condition ∈ group.2, condition.property = group.1
  hash_ne_null : criteria.hashValue ≠ some .null
  range_ne_null : criteria.rangeValue ≠ some .null
  range_declared : criteria.rangeValue.isSome = true → schema.rangeKey.isSome = true

theorem Sound.consistent (h : Sound schema criteria) : Consistent schema criteria := by
  obtain ⟨conditions, hgrouped⟩ := h.grouped
  have hgroup : ∀ group ∈ criteria.residual, group.1 ∈ conditions.map (·.property) ∧
      group.2 = conditions.filter fun condition => condition.property == group.1 := by
    intro group hmem
    rw [hgrouped, groupsOf] at hmem
    obtain ⟨property, hproperty, rfl⟩ := List.mem_map.mp hmem
    exact ⟨List.mem_eraseDups.mp hproperty, rfl⟩
  refine ⟨?_, fun group hmem => ?_, fun group hmem condition hcondition => ?_, fun hnull => ?_,
    fun hnull => ?_, h.range_bound⟩
  · rw [hgrouped, map_fst_groupsOf]
    exact nodup_eraseDups _
  · obtain ⟨hproperty, heq⟩ := hgroup group hmem
    obtain ⟨condition, hcondition, hsame⟩ := List.mem_map.mp hproperty
    rw [heq]
    exact List.ne_nil_of_mem (List.mem_filter.mpr ⟨hcondition, beq_iff_eq.mpr hsame⟩)
  · rw [(hgroup group hmem).2] at hcondition
    exact beq_iff_eq.mp (List.mem_filter.mp hcondition).2
  · exact Bool.noConfusion (h.hash_not_null _ hnull)
  · exact Bool.noConfusion (h.range_not_null _ hnull)

/-! ### Criteria of a list of conditions -/

/-- Whether a condition says of a property only what it is bound to. -/
def repeatsBound (schema : KeySchema) (criteria : Criteria) (condition : Condition) : Bool :=
  condition.equality?.any fun value =>
    (criteria.boundValue? schema condition.property).any fun bound => bound.same value

/-- **Criteria that hold just a list of conditions.** -/
structure Holds (schema : KeySchema) (criteria : Criteria) (conditions : List Condition) :
    Prop where
  hash : criteria.hashValue = firstEquality? schema.hashKey conditions
  range : criteria.rangeValue = schema.rangeKey.bind fun property =>
    firstEquality? property conditions
  residualFor : ∀ property, criteria.residualFor property =
    conditions.filter fun condition =>
      condition.property == property && !criteria.repeatsBound schema condition
  groups : criteria.residual.map (·.1) =
    ((conditions.filter fun condition => !criteria.repeatsBound schema condition).map
      (·.property)).eraseDups

theorem covers_eq_repeatsBound (schema : KeySchema) (demand : Demand) (condition : Condition) :
    Demand.covers schema demand.hash demand.range condition =
      demand.criteria.repeatsBound schema condition := by
  unfold repeatsBound
  cases hequality : condition.equality? with
  | none => exact Demand.covers_of_not_equality hequality schema demand.hash demand.range
  | some value =>
    have hcovers := Demand.covers_equals schema demand condition.property value
    rwa [← Condition.eq_equals hequality] at hcovers

/-- **A demand is held** by its criteria. -/
theorem holds_demand (schema : KeySchema) (conditions : List Condition) :
    Holds schema (Demand.of schema conditions).criteria conditions := by
  have hrest : (Demand.of schema conditions).rest = conditions.filter fun condition =>
      !(Demand.of schema conditions).criteria.repeatsBound schema condition :=
    List.filter_congr fun condition _ =>
      congrArg (!·) (covers_eq_repeatsBound schema (Demand.of schema conditions) condition)
  refine ⟨rfl, rfl, fun property => ?_, ?_⟩
  · rw [residualFor_of_groupsOf rfl, hrest, List.filter_filter]
  · rw [← hrest]
    exact map_fst_groupsOf _

/-- **Conditions that are not on composite ids are held** by the criteria they are routed to. -/
theorem holds_of_ofConditions {keys : EntityKeys} {conditions : List Condition}
    (hids : ∀ condition ∈ conditions, keys.schema.isCompositeId condition.property = false)
    (h : ofConditions keys conditions = .ok criteria) : Holds keys.schema criteria conditions := by
  have hexpand : conditions.flatMap keys.expand = conditions := by
    rw [List.flatMap_congr fun condition hmem => expand_of_isCompositeId_eq_false (hids _ hmem)]
    exact List.flatMap_singleton' conditions
  obtain ⟨-, rfl⟩ := (ofConditions_eq_ok_iff ..).mp h
  rw [hexpand]
  exact holds_demand keys.schema conditions

/-- **Reachable criteria are consistent,** and hold just the conditions that led to them if these
were routed without a refusal and are not on composite ids. -/
theorem consistent_and_holds {keys : EntityKeys} {criteria : Criteria}
    (h : Reachable keys criteria) :
    Consistent keys.schema criteria ∧
      ∀ conditions : List Condition,
        (∀ condition ∈ conditions, keys.schema.isCompositeId condition.property = false) →
        ofConditions keys conditions = .ok criteria → Holds keys.schema criteria conditions :=
  ⟨h.sound.consistent, fun _ hids hrouted => holds_of_ofConditions hids hrouted⟩

/-- Orders of Ada, asked for twice with Bob in between: the day and Bob are residual, in this order,
before the status. -/
theorem consistent_and_holds_orders_of_ada :
    let keys := KeySchema.orders.entity
    let conditions : List Condition :=
      [⟨"day", .ge, [.string "01"], rfl⟩, .equals "customer" (.string "ada"),
        .equals "customer" (.string "bob"), .equals "status" (.string "open"),
        .equals "customer" (.string "ada")]
    ∃ criteria, ofConditions keys conditions = .ok criteria ∧ Reachable keys criteria ∧
      criteria.hashValue = some (.string "ada") ∧
      criteria.residual.map (·.1) = ["day", "customer", "status"] ∧
      Consistent keys.schema criteria ∧ Holds keys.schema criteria conditions := by
  intro keys conditions
  obtain ⟨criteria, hrouted⟩ : ∃ criteria, ofConditions keys conditions = .ok criteria := ⟨_, rfl⟩
  have hreachable : Reachable keys criteria := .of_addAll .empty hrouted
  have hids : ∀ condition ∈ conditions, keys.schema.isCompositeId condition.property = false := by
    decide
  obtain ⟨hconsistent, hholds⟩ := consistent_and_holds hreachable
  refine ⟨criteria, hrouted, hreachable, ?_, ?_, hconsistent, hholds conditions hids hrouted⟩
  · obtain rfl := Except.ok.inj hrouted
    rfl
  · obtain rfl := Except.ok.inj hrouted
    rfl

end Criteria

end AccessPlanner
