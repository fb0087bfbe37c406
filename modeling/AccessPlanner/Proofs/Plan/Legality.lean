import AccessPlanner.Proofs.Plan.Rules
import AccessPlanner.Request

/-!
# Plans are legal

A store answers a query only if its key condition fits the key that it addresses: an equality on
the hash property, and at most one condition on the range property, with an operator that a key
admits.  Only that range property can be sorted by.  `AccessPlan.IsLegal` says this of a plan, and
`StoreRequest.CarriesOut` says that a request asks the same of the attributes.

Three rules make queries.  Two of them take the hash condition from the primary key, the third one
from a matching index; in all three cases the facts come out of `Planned` and `Fits`.
-/

namespace AccessPlanner

/-! ### Legal plans -/

/-- **The key that a query addresses:** the primary one, or that of the index that is named. -/
def KeySchema.key? (schema : KeySchema) : Option String → Option KeyPair
  | none => some schema.primary
  | some name => (schema.index? name).map fun index => index.toKeyPair

/-- **What a key demands of a query.** -/
structure QueryPlan.IsLegalFor (plan : QueryPlan) (key : KeyPair) : Prop where
  hash : ∃ value, plan.hash = .equals key.hashKey value
  range : ∀ condition, plan.range = some condition →
    key.rangeKey = some condition.property ∧ condition.operator.isKeyOperator = true
  sort : ∀ order, plan.sort = some order → key.rangeKey = some order.property

/-- **What a schema demands of a plan.** A load needs the whole primary key; a query needs a key
that exists and that it is legal for; a scan needs nothing. -/
def AccessPlan.IsLegal (schema : KeySchema) : AccessPlan → Prop
  | load _ rangeValue => rangeValue.isSome = schema.rangeKey.isSome
  | query plan => ∃ key, schema.key? plan.indexName = some key ∧ plan.IsLegalFor key
  | scan _ => True

/-! ### Faithful requests -/

/-- The request for an item asks for the key values of a load under their attributes. -/
structure LoadRequest.CarriesOut (schema : KeySchema) (request : LoadRequest) (hashValue : Json)
    (rangeValue : Option Json) : Prop where
  hash : request.hashKey = ⟨schema.attributeName schema.hashKey, hashValue⟩
  range_isSome : request.rangeKey.isSome = schema.rangeKey.isSome
  range : ∀ property, schema.rangeKey = some property →
    request.rangeKey = rangeValue.map fun value => ⟨schema.attributeName property, value⟩

/-- The request for the items of a hash value asks for the conditions of a query under the
attributes of the key that it addresses. -/
structure QueryRequest.CarriesOut (schema : KeySchema) (request : QueryRequest) (plan : QueryPlan)
    (key : KeyPair) : Prop where
  indexName : request.indexName = plan.indexName
  hash_name : request.hashKey.name = schema.attributeName key.hashKey
  hash_value : plan.hash.values = [request.hashKey.value]
  range_none : plan.range = none → request.rangeKey = none
  range_some : ∀ condition, plan.range = some condition → ∃ property,
    key.rangeKey = some property ∧
    request.rangeKey =
      some ⟨schema.attributeName property, condition.operator, condition.values⟩
  backward : request.scanIndexForward = false ↔
    ∃ order, plan.sort = some order ∧ order.direction = .descending

/-- **What a plan demands of its request.** -/
def StoreRequest.CarriesOut (schema : KeySchema) : StoreRequest → AccessPlan → Prop
  | .load request, .load hashValue rangeValue => request.CarriesOut schema hashValue rangeValue
  | .query request, .query plan =>
    ∃ key, schema.key? plan.indexName = some key ∧ request.CarriesOut schema plan key
  | .scan request, .scan plan => request.filters = plan.filters.map schema.attributeCondition
  | _, _ => False

/-! ### Planning -/

theorem KeySchema.key?_name {schema : KeySchema} {index : IndexDefinition}
    (h : index ∈ schema.indexes) : schema.key? (some index.name) = some index.toKeyPair := by
  rw [key?, index?_name h]
  rfl

namespace Criteria

variable {schema : KeySchema} {criteria : Criteria}

theorem Fits.exists_hash_eq {found : IndexMatch} (hsound : Sound schema criteria)
    (h : Fits schema criteria found) :
    ∃ value, found.hash.condition = .equals found.index.hashKey value := by
  have hsome := Condition.isSome_equality?_iff.mpr h.hash_eq
  obtain ⟨value, hvalue⟩ := Option.isSome_iff_exists.mp hsome
  refine ⟨value, ?_⟩
  have heq := Condition.eq_equals hvalue
  rwa [h.hash.property_eq hsound] at heq

theorem Serves.isKeyOperator {property : String} {key : KeyCondition}
    (h : Serves schema criteria property key) : key.condition.operator.isKeyOperator = true := by
  cases h with
  | bound => rfl
  | residual _ _ _ hop => exact hop

/-- **Every rule makes legal plans.** -/
theorem Planned.isLegal {config : PlannerConfig} {sort : Option SortOrder}
    {projection : Projection} {plan : AccessPlan} (hsound : Sound schema criteria)
    (h : Planned schema config criteria sort projection plan) : plan.IsLegal schema := by
  cases h with
  | load value _ _ hrange =>
    show criteria.rangeValue.isSome = schema.rangeKey.isSome
    rcases hrange with hnone | hhas
    · -- without a range property no range value is bound
      rw [hnone]
      cases hvalue : criteria.rangeValue with
      | none => rfl
      | some value =>
        have hsome := hsound.range_bound (by rw [hvalue]; rfl)
        rw [hnone] at hsome
        cases hsome
    · have hbound : criteria.rangeValue.isSome = true := hhas
      rw [hbound, hsound.range_bound hbound]
  | hash value _ _ _ hsort =>
    exact ⟨schema.primary, rfl, ⟨value, rfl⟩, fun _ h => (nomatch h), checkSort_eq_ok_iff.mp hsort⟩
  | range value _ only indexName _ _ _ haddress hop hsort =>
    -- the range condition suits every key with its property as range property:
    have hranged : ∀ key : KeyPair, key.rangeKey = some only.property →
        ∀ condition, some only = some condition →
          key.rangeKey = some condition.property ∧ condition.operator.isKeyOperator = true := by
      intro key hkey condition hcondition
      obtain rfl := Option.some.inj hcondition
      exact ⟨hkey, hop⟩
    rcases rangeAddress?_eq_some haddress with
      ⟨rfl, hkey⟩ | ⟨index, hmem, rfl, hhash, hkey⟩
    · refine ⟨schema.primary, rfl, ⟨value, rfl⟩, hranged _ hkey, ?_⟩
      intro order horder
      exact hkey.trans (checkSort_eq_ok_iff.mp hsort order horder)
    · -- the index shares the hash property of the primary key
      refine ⟨index.toKeyPair, KeySchema.key?_name hmem, ⟨value, by rw [hhash]⟩,
        hranged _ hkey, ?_⟩
      intro order horder
      exact hkey.trans (checkSort_eq_ok_iff.mp hsort order horder)
  | index found hselect hsort =>
    have hfits := fits_of_mem_candidates (mem_candidates_of_selectIndex? hselect)
    refine ⟨found.index.toKeyPair, KeySchema.key?_name hfits.mem, hfits.exists_hash_eq hsound,
      ?_, checkSort_eq_ok_iff.mp hsort⟩
    intro condition hcondition
    obtain ⟨key, hkey, rfl⟩ := Option.map_eq_some_iff.mp hcondition
    obtain ⟨property, hproperty, hserves⟩ := hfits.range key hkey
    rw [hserves.property_eq hsound]
    exact ⟨hproperty, hserves.isKeyOperator⟩
  | scan => trivial

end Criteria

/-- A condition set that is planned has sound criteria, and a rule that makes its plan. -/
theorem ConditionSet.exists_planned {keys : EntityKeys} {config : PlannerConfig}
    {set : ConditionSet} {projection : Projection} {plan : AccessPlan}
    (h : set.plan keys config projection = .ok plan) :
    ∃ criteria, Criteria.ofConditions keys set.conditions = .ok criteria ∧
      criteria.Sound keys.schema ∧
      Criteria.Planned keys.schema config criteria set.sort projection plan := by
  obtain ⟨_, _, h⟩ := bind_eq_ok_iff.mp h
  obtain ⟨criteria, hcriteria, hplan⟩ := bind_eq_ok_iff.mp h
  have hreachable := Criteria.Reachable.of_addAll .empty hcriteria
  exact ⟨criteria, hcriteria, hreachable.sound, Criteria.planned_of_plan hplan⟩

/-! ### Assembly -/

theorem all_isAscending_eq_false_iff (sort : Option SortOrder) :
    (sort.all fun order => order.direction == .ascending) = false ↔
      ∃ order, sort = some order ∧ order.direction = .descending := by
  cases sort with
  | none => simp
  | some order => cases h : order.direction <;> simp [h]

/-- **The request of a legal plan carries it out.** -/
theorem AccessPlan.IsLegal.request_carriesOut {schema : KeySchema} {plan : AccessPlan}
    (h : plan.IsLegal schema) (set : ConditionSet) (projection : Projection) :
    (plan.request schema set projection).CarriesOut schema plan := by
  cases plan with
  | load hashValue rangeValue =>
    have hsome : rangeValue.isSome = schema.rangeKey.isSome := h
    refine ⟨rfl, ?_, ?_⟩
    · show (schema.rangeKey.bind fun property =>
        rangeValue.map (schema.keyAttribute property)).isSome = schema.rangeKey.isSome
      cases hkey : schema.rangeKey with
      | none => rfl
      | some property =>
        rw [Option.bind_some, Option.isSome_map, hsome, hkey]
    · intro property hkey
      show (schema.rangeKey.bind fun property =>
        rangeValue.map (schema.keyAttribute property)) = _
      rw [hkey]
      rfl
  | query plan =>
    obtain ⟨key, hkey, hlegal⟩ := h
    obtain ⟨value, hhash⟩ := hlegal.hash
    refine ⟨key, hkey, rfl, ?_, ?_, ?_, ?_, all_isAscending_eq_false_iff plan.sort⟩
    · show schema.attributeName plan.hash.property = _
      rw [hhash]
      rfl
    · show plan.hash.values = [Json.ofOption plan.hash.values.head?]
      rw [hhash]
      rfl
    · intro hnone
      show plan.range.map schema.attributeCondition = none
      rw [hnone]
      rfl
    · intro condition hsome
      refine ⟨condition.property, (hlegal.range condition hsome).1, ?_⟩
      show plan.range.map schema.attributeCondition = _
      rw [hsome]
      rfl
  | scan plan => rfl

/-- **Plans are legal, and their requests carry them out.** This holds whatever the configuration
and the projection, and however composite ids fall apart. -/
theorem ConditionSet.plan_isLegal {keys : EntityKeys} {config : PlannerConfig}
    {set : ConditionSet} {projection : Projection} {plan : AccessPlan}
    (h : set.plan keys config projection = .ok plan) :
    plan.IsLegal keys.schema ∧
      (plan.request keys.schema set projection).CarriesOut keys.schema plan := by
  obtain ⟨criteria, -, hsound, hplanned⟩ := exists_planned h
  have hlegal := hplanned.isLegal hsound
  exact ⟨hlegal, hlegal.request_carriesOut set projection⟩

/-- The larger orders of a day, the last customers first. -/
theorem ConditionSet.plan_isLegal_orders_of_day :
    let set : ConditionSet :=
      { conditions := [.equals "day" (.ofNat 5), ⟨"total", .gt, [.ofNat 100], rfl⟩]
        sort := some ⟨"customer", .descending⟩ }
    ∃ plan, set.plan KeySchema.orders.entity {} .items = .ok plan ∧
      plan.indexName? = some "byDay" ∧ plan.IsLegal KeySchema.orders ∧
      (plan.request KeySchema.orders set .items).CarriesOut KeySchema.orders plan := by
  intro set
  have hplan : set.plan KeySchema.orders.entity {} .items =
      .ok (.query ⟨some "byDay", .equals "day" (.ofNat 5), none,
        [⟨"total", .gt, [.ofNat 100], rfl⟩], some ⟨"customer", .descending⟩⟩) := rfl
  exact ⟨_, hplan, rfl, plan_isLegal hplan⟩

end AccessPlanner
