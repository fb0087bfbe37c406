import AccessPlanner.Proofs.Criteria.Acceptance
import AccessPlanner.Proofs.Criteria.Demand
import AccessPlanner.Proofs.Plan.Legality

/-!
# The values of keys

A plan addresses items by the values of a key.  A value comes from the criteria, where a property of
the primary key is bound to it, or from a condition set, in which it is equated with a property that
belongs to the key of an index alone.  No other value is made up, and in particular no `null` stands
for a value that is missing (`ConditionSet.plan_isAddressed`).

For the properties of the primary key `null` is refused, so that none of them is ever bound to it
(`Criteria.Sound`).  The other properties take any value, and an index is queried for `null` if the
condition set says so (`ConditionSet.plan_isAddressed_by_null`).
-/

namespace AccessPlanner

/-! ### Where values come from -/

/-- **The value that a query addresses a key by.** It is given by the plan.  For a property of the
primary key it is the value that the property is bound to, and not `null`; for another property it
is `null` exactly where the condition set asks for that. -/
structure QueryPlan.IsAddressed (schema : KeySchema) (set : ConditionSet) (criteria : Criteria)
    (plan : QueryPlan) (key : KeyPair) (value : Json) : Prop where
  hash : plan.hash = .equals key.hashKey value
  given : plan.hash.values.head? = some value
  bound : schema.primary.has key.hashKey = true →
    criteria.boundValue? schema key.hashKey = some value ∧ value ≠ .null
  null_iff : value = .null ↔ .equals key.hashKey .null ∈ set.conditions

/-- **The values that a plan addresses items by.** -/
def AccessPlan.IsAddressed (schema : KeySchema) (set : ConditionSet) (criteria : Criteria) :
    AccessPlan → Prop
  | load hashValue rangeValue =>
    criteria.hashValue = some hashValue ∧ hashValue ≠ .null ∧
      criteria.rangeValue = rangeValue ∧ rangeValue ≠ some .null
  | query plan =>
    ∃ key value, schema.key? plan.indexName = some key ∧
      plan.IsAddressed schema set criteria key value
  | scan _ => True

theorem Condition.equals_inj {property : String} {value other : Json} :
    equals property value = equals property other ↔ value = other :=
  ⟨fun h => (List.cons.inj (congrArg Condition.values h)).1, congrArg _⟩

theorem Criteria.Sound.ne_null_of_boundValue? {schema : KeySchema} {criteria : Criteria}
    (h : criteria.Sound schema) {property : String} {value : Json}
    (hbound : criteria.boundValue? schema property = some value) : value ≠ .null := by
  rintro rfl
  unfold boundValue? at hbound
  split at hbound
  next => exact absurd (h.hash_not_null _ hbound) (by decide)
  next =>
    split at hbound
    next => exact absurd (h.range_not_null _ hbound) (by decide)
    next => cases hbound

namespace ConditionSet

variable {keys : EntityKeys} {set : ConditionSet} {criteria : Criteria} {property : String}

/-- **Routing has seen every condition of a set,** and refused none. -/
theorem accepts_of_routed (h : Criteria.ofConditions keys set.conditions = .ok criteria) :
    ∀ condition ∈ set.conditions, keys.Accepts condition := fun condition hmem =>
  EntityKeys.accepts_of_refusal?
    (((Criteria.ofConditions_eq_ok_iff keys set.conditions criteria).mp h).1 condition hmem)

/-! ### Bound properties -/

/-- A property that is bound is not equated with `null`. -/
theorem null_iff_of_bound (hrouted : Criteria.ofConditions keys set.conditions = .ok criteria)
    (hsound : criteria.Sound keys.schema) {value : Json}
    (hbound : criteria.boundValue? keys.schema property = some value) :
    value = .null ↔ .equals property .null ∈ set.conditions := by
  refine iff_of_false (hsound.ne_null_of_boundValue? hbound) fun hmem => ?_
  have hhas : keys.schema.primary.has property = false :=
    (accepts_of_routed hrouted _ hmem).not_null.1 rfl
  rw [Criteria.boundValue?_of_has_eq_false hhas] at hbound
  cases hbound

theorem isAddressed_of_bound (hrouted : Criteria.ofConditions keys set.conditions = .ok criteria)
    (hsound : criteria.Sound keys.schema) {value : Json} {plan : QueryPlan} {key : KeyPair}
    (hhash : plan.hash = .equals key.hashKey value)
    (hbound : criteria.boundValue? keys.schema key.hashKey = some value) :
    plan.IsAddressed keys.schema set criteria key value where
  hash := hhash
  given := by rw [hhash]; rfl
  bound _ := ⟨hbound, hsound.ne_null_of_boundValue? hbound⟩
  null_iff := null_iff_of_bound hrouted hsound hbound

/-! ### Other properties -/

/-- **Of a free property** every equality is residual. -/
theorem mem_residualFor_iff {schema : KeySchema} {conditions : List Condition} {value : Json}
    (hfree : (Demand.of schema conditions).criteria.boundValue? schema property = none) :
    .equals property value ∈ (Demand.of schema conditions).criteria.residualFor property ↔
      .equals property value ∈ conditions := by
  have hproperty : ((Condition.equals property value).property == property) = true :=
    beq_self_eq_true _
  rw [Criteria.residualFor_of_groupsOf rfl, List.mem_filter, and_iff_left hproperty]
  refine ⟨Demand.mem_of_mem_rest, fun hmem => ?_⟩
  rcases Demand.mem_rest_or_repeats schema hmem with hrest | ⟨bound, -, hbound, -⟩
  · exact hrest
  · rw [Demand.boundValue?_criteria] at hfree
    cases hbound.symm.trans hfree

/-- **The only residual condition on a free property,** if it is an equality, is one of the set, and
the property is none of the primary key. -/
theorem isAddressed_of_residual
    (hrouted : Criteria.ofConditions keys set.conditions = .ok criteria) {value : Json}
    {plan : QueryPlan} {key : KeyPair} (hhash : plan.hash = .equals key.hashKey value)
    (hfree : criteria.boundValue? keys.schema key.hashKey = none)
    (honly : criteria.residualFor key.hashKey = [.equals key.hashKey value]) :
    plan.IsAddressed keys.schema set criteria key value := by
  have haccepts := accepts_of_routed hrouted
  obtain ⟨-, rfl⟩ := (Criteria.ofConditions_eq_ok_iff keys set.conditions criteria).mp hrouted
  have hasked : ∀ other,
      .equals key.hashKey other ∈ set.conditions.flatMap keys.expand ↔ other = value := by
    intro other
    rw [← mem_residualFor_iff hfree, honly, List.mem_singleton, Condition.equals_inj]
  have hhas : keys.schema.primary.has key.hashKey = false := by
    rw [Bool.eq_false_iff]
    intro hhas
    have hsome := Demand.isSome_value?_iff.mpr ⟨hhas, value, (hasked value).mpr rfl⟩
    rw [← Demand.boundValue?_criteria, hfree] at hsome
    cases hsome
  refine ⟨hhash, by rw [hhash]; rfl, fun h => absurd h (by simp [hhas]), ?_, fun hnull => ?_⟩
  · rintro rfl
    exact EntityKeys.mem_of_mem_flatMap_expand ((hasked .null).mpr rfl) hhas
  · -- a composite id would not have been accepted with `null`
    have hid : keys.schema.isCompositeId key.hashKey = false := by
      rw [Bool.eq_false_iff]
      exact fun hid => (haccepts _ hnull).not_null.2 hid rfl
    refine ((hasked .null).mp (List.mem_flatMap.mpr ⟨_, hnull, ?_⟩)).symm
    rw [Criteria.expand_of_isCompositeId_eq_false hid]
    exact List.mem_cons_self ..

/-! ### Plans -/

/-- **Every rule addresses items by values that are there.** -/
theorem isAddressed_of_planned {config : PlannerConfig} {projection : Projection}
    {plan : AccessPlan} (hrouted : Criteria.ofConditions keys set.conditions = .ok criteria)
    (hsound : criteria.Sound keys.schema)
    (h : Criteria.Planned keys.schema config criteria set.sort projection plan) :
    plan.IsAddressed keys.schema set criteria := by
  cases h with
  | load value hhash =>
    refine ⟨hhash, ?_, rfl, fun hrange => ?_⟩
    · exact hsound.ne_null_of_boundValue? ((Criteria.boundValue?_hashKey _ _).trans hhash)
    · exact absurd (hsound.range_not_null _ hrange) (by decide)
  | hash value hhash =>
    exact ⟨keys.schema.primary, value, rfl, isAddressed_of_bound hrouted hsound rfl
      ((Criteria.boundValue?_hashKey _ _).trans hhash)⟩
  | range value group only indexName hhash _ _ haddress =>
    have hbound := (Criteria.boundValue?_hashKey keys.schema criteria).trans hhash
    rcases Criteria.rangeAddress?_eq_some haddress with ⟨rfl, -⟩ | ⟨index, hmem, rfl, hkey, -⟩
    · exact ⟨keys.schema.primary, value, rfl, isAddressed_of_bound hrouted hsound rfl hbound⟩
    · -- the index shares the hash property of the primary key
      refine ⟨index.toKeyPair, value, KeySchema.key?_name hmem, ?_⟩
      exact isAddressed_of_bound hrouted hsound (by rw [hkey]) (by rwa [hkey])
  | index found hselect =>
    have hfits := Criteria.fits_of_mem_candidates (Criteria.mem_candidates_of_selectIndex? hselect)
    obtain ⟨value, hvalue⟩ := hfits.exists_hash_eq hsound
    refine ⟨found.index.toKeyPair, value, KeySchema.key?_name hfits.mem, ?_⟩
    have hserves := hfits.hash
    generalize found.hash = hash at hserves hvalue ⊢
    cases hserves with
    | bound bound hbound =>
      obtain rfl := Condition.equals_inj.mp hvalue
      exact isAddressed_of_bound hrouted hsound rfl hbound
    | residual only hfree honly =>
      obtain rfl : only = _ := hvalue
      exact isAddressed_of_residual hrouted rfl hfree honly
  | scan => trivial

/-- **Plans address items by values that are there,** and by `null` only where that is asked for.  A
property of the primary key is addressed by the value that it is bound to, which is not `null`; an
index with another hash property is addressed by `null` exactly if the set equates that property
with it.  For the properties of the primary key and for composite ids `null` is refused. -/
theorem plan_isAddressed {config : PlannerConfig} {projection : Projection} {plan : AccessPlan}
    (h : set.plan keys config projection = .ok plan) :
    ∃ criteria, Criteria.ofConditions keys set.conditions = .ok criteria ∧
      plan.IsAddressed keys.schema set criteria ∧
      ∀ condition ∈ set.conditions,
        (condition.equality? = some .null →
          keys.schema.primary.has condition.property = false) ∧
        (keys.schema.isCompositeId condition.property = true →
          condition.values.head? ≠ some .null) := by
  obtain ⟨criteria, hrouted, hsound, hplanned⟩ := exists_planned h
  exact ⟨criteria, hrouted, isAddressed_of_planned hrouted hsound hplanned,
    fun condition hmem => (accepts_of_routed hrouted condition hmem).not_null⟩

/-- An order of a customer and a day, which are given by a composite id. -/
theorem plan_isAddressed_order :
    let id : Json := .object [("customer", .string "ada"), ("day", .ofNat 7)]
    let set : ConditionSet := { conditions := [.equals "id" id] }
    ∃ criteria, Criteria.ofConditions KeySchema.orders.entity set.conditions = .ok criteria ∧
      (AccessPlan.load (.string "ada") (some (.ofNat 7))).IsAddressed KeySchema.orders set
        criteria := by
  intro id set
  have hplan : set.plan KeySchema.orders.entity {} .items =
      .ok (.load (.string "ada") (some (.ofNat 7))) := rfl
  obtain ⟨criteria, hrouted, haddressed, -⟩ := plan_isAddressed hplan
  exact ⟨criteria, hrouted, haddressed⟩

/-- Orders without a status are looked up in the index by status. -/
theorem plan_isAddressed_by_null :
    let set : ConditionSet := { conditions := [.equals "status" .null] }
    ∃ plan, set.plan KeySchema.orders.entity {} .items = .ok (.query plan) ∧
      plan.indexName = some "byStatus" ∧ plan.hash = .equals "status" .null :=
  ⟨_, rfl, rfl, rfl⟩

end ConditionSet

end AccessPlanner
