import AccessPlanner.Proofs.Criteria.Demand
import AccessPlanner.Proofs.Plan.Conservation
import AccessPlanner.Proofs.Plan.Legality
import AccessPlanner.Store

/-!
# What a store finds

A store that is given the request of a plan finds the documents that satisfy the conditions which
the plan carries (`load_eq_head?`, `queried_eq`, `scanned_eq`); only the order of the documents
is its own.  A key value in a request and an equality among the filters ask for the same, so it
does not matter which of the two a condition became.

`matching_demand` is the other half: the documents that satisfy a list of conditions are those
that satisfy what the list demands, because values that are equal compare alike.
-/

namespace AccessPlanner

/-! ### Matching documents -/

/-- **The documents that satisfy all conditions of a list,** in their order. -/
def KeySchema.matching (schema : KeySchema) (conditions : List Condition) (docs : List Json) :
    List Json :=
  docs.filter (AttributeCondition.allHold (conditions.map schema.attributeCondition))

variable {schema : KeySchema}

theorem allHold_map_iff (conditions : List Condition) (doc : Json) :
    AttributeCondition.allHold (conditions.map schema.attributeCondition) doc = true ↔
      ∀ condition ∈ conditions, (schema.attributeCondition condition).holds doc = true := by
  rw [AttributeCondition.allHold, List.all_map, List.all_eq_true]
  rfl

/-- The documents that satisfy conditions depend on these conditions only through what holds. -/
theorem matching_congr {conditions others : List Condition}
    (h : ∀ doc, (∀ condition ∈ conditions, (schema.attributeCondition condition).holds doc = true) ↔
      ∀ condition ∈ others, (schema.attributeCondition condition).holds doc = true)
    (docs : List Json) : schema.matching conditions docs = schema.matching others docs := by
  refine List.filter_congr fun doc _ => ?_
  rw [Bool.eq_iff_iff, allHold_map_iff, allHold_map_iff]
  exact h doc

theorem matching_perm {conditions others : List Condition} (h : conditions.Perm others)
    (docs : List Json) : schema.matching conditions docs = schema.matching others docs := by
  refine matching_congr (fun doc => ?_) docs
  simp only [h.mem_iff]

/-- Equalities with equal values hold for the same documents. -/
theorem holds_equals_congr {a b : Json} (h : a.same b = true) (property : String) (doc : Json) :
    (schema.attributeCondition (.equals property a)).holds doc =
      (schema.attributeCondition (.equals property b)).holds doc := by
  show (doc.resolve (schema.attributeName property)).equalTo a =
    (doc.resolve (schema.attributeName property)).equalTo b
  rw [Json.equalTo, Json.equalTo, Json.order?_congr h]

/-! ### Demands -/

namespace Demand

/-- **What a list of conditions demands holds where the conditions hold.** -/
theorem matching_demand (conditions : List Condition) (docs : List Json) :
    schema.matching ((Demand.of schema conditions).criteria.conditions schema) docs =
      schema.matching conditions docs := by
  refine matching_congr (fun doc => ⟨fun h condition hmem => ?_, fun h condition hmem => ?_⟩) docs
  · rcases mem_rest_or_repeats schema hmem with hrest | ⟨bound, value, hvalue, heq, hsame⟩
    · exact h condition (mem_conditions_iff.mpr (.inr hrest))
    · -- the repeated value has an equality of its own
      have hequality := mem_equalities_iff.mpr ⟨_, _, hvalue, rfl⟩
      have hbound := h _ (mem_conditions_iff.mpr (.inl hequality))
      rwa [heq, ← holds_equals_congr hsame]
  · rcases mem_conditions_iff.mp hmem with hequality | hrest
    · -- the equality of a value is itself one of the conditions
      obtain ⟨property, value, hvalue, rfl⟩ := mem_equalities_iff.mp hequality
      exact h _ (equals_mem_of_value? hvalue)
    · exact h condition (mem_of_mem_rest hrest)

end Demand

/-! ### Execution -/

namespace MemoryStore

/-- **A load** finds the first document that satisfies the conditions of the plan. -/
theorem load_eq_head? (store : MemoryStore) (schema : KeySchema) (hashValue : Json)
    (rangeValue : Option Json) (set : ConditionSet) :
    store.load (schema.loadRequest hashValue rangeValue set) =
      (schema.matching ((AccessPlan.load hashValue rangeValue).carried schema)
        store.items).head? := by
  rw [KeySchema.matching, List.head?_filter]
  unfold load KeySchema.loadRequest AccessPlan.carried
  congr 1
  funext doc
  cases schema.rangeKey with
  | none => rfl
  | some property =>
    cases rangeValue with
    | none => rfl
    | some value =>
      show (_ && _) = (_ && (_ && true))
      rw [Bool.and_true]
      rfl

theorem sortByAttribute_perm (name : String) (direction : Direction) (items : List Json) :
    (sortByAttribute name direction items).Perm items :=
  List.mergeSort_perm items _

/-- **A query** finds the documents that satisfy the conditions of the plan, in the order of the
range attribute of the key if there is one. -/
theorem queried_eq (store : MemoryStore) (key : KeyPair) (schema : KeySchema)
    {plan : QueryPlan} {property : String} {value : Json}
    (hhash : plan.hash = .equals property value) (set : ConditionSet) (projection : Projection) :
    store.queried key (schema.queryRequest plan set projection) =
      let found := schema.matching ((AccessPlan.query plan).carried schema) store.items
      match key.rangeKey with
      | some name =>
        sortByAttribute name (plan.sort.elim .ascending fun order => order.direction) found
      | none => found := by
  have hfound : (store.items.filter fun doc =>
        (schema.queryRequest plan set projection).hashKey.isIn doc &&
          (schema.queryRequest plan set projection).rangeKey.all (fun range => range.holds doc) &&
          AttributeCondition.allHold (schema.queryRequest plan set projection).filters doc) =
      schema.matching ((AccessPlan.query plan).carried schema) store.items := by
    -- the three tests of the store are one list of conditions
    refine List.filter_congr fun doc _ => ?_
    unfold KeySchema.queryRequest AccessPlan.carried
    dsimp only
    rw [hhash]
    cases plan.range with
    | none => exact congrArg (· && _) (Bool.and_true _)
    | some condition => exact Bool.and_assoc ..
  have hdirection : (if (schema.queryRequest plan set projection).scanIndexForward then
        Direction.ascending else .descending) =
      plan.sort.elim .ascending fun order => order.direction := by
    unfold KeySchema.queryRequest
    cases plan.sort with
    | none => rfl
    | some order => cases h : order.direction <;> simp [h]
  unfold queried
  cases key.rangeKey with
  | none => exact hfound
  | some name => exact congrArg₂ (sortByAttribute name) hdirection hfound

/-- **A scan** finds the documents that satisfy the conditions of the plan, in the order that is
asked for. -/
theorem scanned_eq (store : MemoryStore) (schema : KeySchema) (plan : ScanPlan)
    (set : ConditionSet) (projection : Projection) :
    store.scanned (schema.scanRequest plan set projection) =
      let found := schema.matching ((AccessPlan.scan plan).carried schema) store.items
      match plan.sort with
      | some order => sortByAttribute (schema.attributeName order.property) order.direction found
      | none => found := by
  unfold scanned KeySchema.scanRequest
  cases plan.sort <;> rfl

/-- The first documents, up to a limit. -/
def upTo (limit : Option Nat) (docs : List Json) : List Json :=
  match limit with
  | some count => docs.take count
  | none => docs

theorem page_items (key : KeyPair) (limit : Option Nat) (found : List Json) :
    (page key limit found).items = upTo limit found := by
  cases limit <;> rfl

/-- The store of a schema knows every key of the schema. -/
theorem keyOf_ofSchema {schema : KeySchema} {name : Option String} {key : KeyPair}
    (h : schema.key? name = some key) (docs : List Json) :
    ((ofSchema schema).withItems docs).keyOf name = .ok (key.rename schema.attributeName) := by
  cases name with
  | none =>
    obtain rfl := Option.some.inj h
    rfl
  | some name =>
    obtain ⟨index, hindex, rfl⟩ := Option.map_eq_some_iff.mp h
    have hlookup : lookup? name ((ofSchema schema).withItems docs).indexes =
        some (index.toKeyPair.rename schema.attributeName) := by
      show lookup? name (schema.indexes.map fun index =>
        (index.name, index.toKeyPair.rename schema.attributeName)) = _
      rw [lookup?, List.find?_map]
      have hfind : schema.indexes.find? ((fun entry : String × KeyPair => entry.1 == name) ∘
          fun index => (index.name, index.toKeyPair.rename schema.attributeName)) = some index :=
        hindex
      rw [hfind]
      rfl
    rw [keyOf, hlookup]

end MemoryStore

end AccessPlanner
