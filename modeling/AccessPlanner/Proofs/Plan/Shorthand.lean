import AccessPlanner.Proofs.Plan.Names

/-!
# Composite ids are shorthand

A condition on a composite id can be spelled out as conditions on the properties of the primary
key, one for each part of the id, with the same operator.  `KeySchema.spellOut` does so by looking
at the condition alone.  The planner works on a composite id in two ways, by binding the parts of an
equality and by collecting the conditions on the parts for other operators, and it does so after
whatever conditions came before; the plans are the same (`ConditionSet.plan_spellOut`).

This comes down to single conditions.  What a list of conditions is routed to depends on the first
refusal and on the expansions of the conditions (`Criteria.ofConditions_eq`), so that conditions may
be replaced by others with the same refusal and the same expansion
(`Criteria.ofConditions_flatMap`).  A condition that is shorthand is not refused, nor is what it is
spelled out as; and spelling out is expansion.
-/

namespace AccessPlanner

/-! ### Spelling out -/

namespace KeySchema

/-- **The parts of a composite id** with the properties of the primary key that they are for, the
hash property first: the fields of an object that have the names of these properties, unless they
are `null`. -/
def parts (schema : KeySchema) (value : Json) : List (String × Json) :=
  schema.primary.properties.filterMap fun property =>
    ((value.field? property).filter fun part => !part.isNull).map (property, ·)

/-- **A condition that carries over to the parts of a composite id:** its operator does, and there
is a part. -/
structure IsShorthand (schema : KeySchema) (condition : Condition) : Prop where
  operator : condition.operator = .eq ∨ condition.operator = .contains ∨
    condition.operator = .beginsWith
  parts : condition.values.flatMap schema.parts ≠ []

/-- **A condition in full.** A condition on a composite id is spelled out as the conditions with the
same operator on its parts; any other condition is in full as it is. -/
def spellOut (schema : KeySchema) (condition : Condition) : List Condition :=
  if schema.isCompositeId condition.property then
    (condition.values.flatMap schema.parts).filterMap fun part =>
      (Condition.make part.1 condition.operator [part.2]).toOption
  else [condition]

variable {schema : KeySchema} {condition : Condition}

/-! ### Parts -/

theorem components_entity (schema : KeySchema) (value : Json) :
    schema.entity.components value = schema.parts value := by
  show ((schema.decompose value).hash.map _).toList ++
    (schema.rangeKey.bind fun property => (schema.decompose value).range.map (property, ·)).toList =
      (schema.hashKey :: schema.rangeKey.toList).filterMap _
  unfold decompose
  dsimp only [entity]
  rw [List.filterMap_cons]
  cases schema.rangeKey with
  | none => cases (value.field? schema.hashKey).filter fun part => !part.isNull <;> rfl
  | some property =>
    rw [Option.toList_some, List.filterMap_cons, Option.bind_some, Option.bind_some]
    cases (value.field? schema.hashKey).filter fun part => !part.isNull <;>
      cases (value.field? property).filter fun part => !part.isNull <;> rfl

theorem has_of_mem_parts {value : Json} {part : String × Json} (h : part ∈ schema.parts value) :
    schema.primary.has part.1 = true := by
  rw [← components_entity] at h
  exact EntityKeys.has_of_mem_components h

theorem not_null_of_mem_parts {value : Json} {part : String × Json}
    (h : part ∈ schema.parts value) : part.2.isNull = false := by
  obtain ⟨property, -, hpart⟩ := List.mem_filterMap.mp h
  obtain ⟨field, hfield, rfl⟩ := Option.map_eq_some_iff.mp hpart
  simpa using (Option.filter_eq_some_iff.mp hfield).2

/-- A property of the primary key has a name, if the range property has. -/
theorem ne_empty_of_has (hnamed : schema.rangeKey ≠ some "") {property : String}
    (h : schema.primary.has property = true) : property ≠ "" := by
  rintro rfl
  rcases Bool.or_eq_true_iff.mp h with hhash | hrange
  · exact schema.hashKey_ne_empty (beq_iff_eq.mp hhash)
  · exact hnamed (beq_iff_eq.mp hrange)

theorem IsShorthand.isCompositeIdOperator (h : schema.IsShorthand condition) :
    condition.operator.isCompositeIdOperator = true := by
  rcases h.operator with hop | hop | hop <;> rw [hop] <;> rfl

theorem IsShorthand.exists_value (h : schema.IsShorthand condition) :
    ∃ value, condition.values = [value] ∧ schema.parts value ≠ [] ∧ value.isNull = false := by
  obtain ⟨value, hvalues⟩ := Condition.exists_values_eq h.isCompositeIdOperator
  have hparts := h.parts
  rw [hvalues, List.flatMap_singleton] at hparts
  refine ⟨value, hvalues, hparts, ?_⟩
  -- `null` has no fields
  rw [Bool.eq_false_iff]
  intro hnull
  rw [Json.isNull_iff.mp hnull] at hparts
  exact hparts (List.filterMap_eq_nil_iff.mpr fun _ _ => rfl)

end KeySchema

/-! ### Refusals -/

namespace EntityKeys

variable {keys : EntityKeys} {condition : Condition}

/-- A condition on a property that is no composite id is not refused, unless it is an equality with
`null`. -/
theorem refusal?_eq_none (hid : keys.schema.isCompositeId condition.property = false)
    (hnull : condition.equality?.any Json.isNull = false) : keys.refusal? condition = none := by
  obtain ⟨outcome, hstep, herror⟩ := Criteria.refusal?_step keys condition
  rw [← herror]
  cases hstep with
  | bound _ hequality =>
    rw [hequality, Option.any_some] at hnull
    rw [Criteria.bindProperty_error, hnull, Bool.false_and, if_neg Bool.false_ne_true]
  | residual => rfl
  | ambiguous hcomposite | null hcomposite | parts hcomposite =>
    rw [hid] at hcomposite
    cases hcomposite

end EntityKeys

namespace KeySchema

variable {schema : KeySchema} {condition stated : Condition}

/-- The condition on a part can be stated. -/
theorem make_of_mem_parts (hnamed : schema.rangeKey ≠ some "") {value : Json}
    {part : String × Json} (hpart : part ∈ schema.parts value)
    (hop : condition.operator.isCompositeIdOperator = true) :
    Condition.make part.1 condition.operator [part.2] = .ok (condition.onPart hop part) := by
  have hname : (condition.onPart hop part).property ≠ "" :=
    ne_empty_of_has hnamed (has_of_mem_parts hpart)
  exact Condition.make_of_ne_empty hname

/-- Parts of a composite id are refused only if there are none: they are not `null`, and they are
for key properties, which have names. -/
theorem routeParts_parts_error {criteria : Criteria} (hnamed : schema.rangeKey ≠ some "")
    (hop : condition.operator.isCompositeIdOperator = true) (value : Json) :
    (criteria.routeParts schema.entity condition hop (schema.parts value)).error =
      if (schema.parts value).isEmpty then some (.invalidCompositeId condition.property)
      else none := by
  have hkeys : ∀ part ∈ schema.parts value, schema.entity.schema.primary.has part.1 = true :=
    fun part => has_of_mem_parts
  have hfind : ((schema.parts value).find? fun part => part.2.isNull) = none := by
    refine List.find?_eq_none.mpr fun part hpart => ?_
    rw [not_null_of_mem_parts hpart]
    exact Bool.false_ne_true
  have hany : ((schema.parts value).any fun part => part.1 = "") = false := by
    refine List.any_eq_false.mpr fun part hpart => ?_
    rw [decide_eq_true_eq]
    exact ne_empty_of_has hnamed (has_of_mem_parts hpart)
  rw [Criteria.routeParts_error hop hkeys, hfind, hany, if_neg Bool.false_ne_true,
    Option.map_none, ite_self]

/-- **Shorthand is not refused.** -/
theorem IsShorthand.refusal?_eq_none (h : schema.IsShorthand condition)
    (hnamed : schema.rangeKey ≠ some "")
    (hid : schema.isCompositeId condition.property = true) :
    schema.entity.refusal? condition = none := by
  obtain ⟨value, hvalues, hparts, hnull⟩ := h.exists_value
  rw [EntityKeys.refusal?,
    Criteria.add_of_isCompositeId hid h.isCompositeIdOperator hvalues hnull, components_entity,
    routeParts_parts_error hnamed, if_neg (mt List.isEmpty_iff.mp hparts)]

/-! ### Conditions -/

theorem spellOut_of_isCompositeId_eq_false
    (hid : schema.isCompositeId condition.property = false) :
    schema.spellOut condition = [condition] := by
  unfold spellOut
  rw [hid]
  rfl

theorem IsShorthand.spellOut_eq (h : schema.IsShorthand condition)
    (hnamed : schema.rangeKey ≠ some "")
    (hid : schema.isCompositeId condition.property = true) :
    schema.spellOut condition =
      (condition.values.flatMap schema.parts).map (condition.onPart h.isCompositeIdOperator) := by
  unfold spellOut
  rw [if_pos hid, ← List.filterMap_eq_map]
  refine List.filterMap_congr fun part hpart => ?_
  obtain ⟨value, -, hmem⟩ := List.mem_flatMap.mp hpart
  rw [make_of_mem_parts hnamed hmem h.isCompositeIdOperator]
  rfl

/-- **Spelling out is expansion.** -/
theorem IsShorthand.expand_eq_spellOut (h : schema.IsShorthand condition)
    (hnamed : schema.rangeKey ≠ some "")
    (hid : schema.isCompositeId condition.property = true) :
    schema.entity.expand condition = schema.spellOut condition := by
  obtain ⟨value, hvalues, -, -⟩ := h.exists_value
  rw [h.spellOut_eq hnamed hid, hvalues, List.flatMap_singleton, ← components_entity]
  exact Criteria.expand_of_isCompositeId hid h.isCompositeIdOperator hvalues

/-- What shorthand is spelled out as is no shorthand and is not refused. -/
theorem IsShorthand.of_mem_spellOut (h : schema.IsShorthand condition)
    (hnamed : schema.rangeKey ≠ some "")
    (hid : schema.isCompositeId condition.property = true)
    (hstated : stated ∈ schema.spellOut condition) :
    schema.isCompositeId stated.property = false ∧ schema.entity.refusal? stated = none := by
  rw [h.spellOut_eq hnamed hid] at hstated
  obtain ⟨part, hpart, rfl⟩ := List.mem_map.mp hstated
  obtain ⟨value, -, hmem⟩ := List.mem_flatMap.mp hpart
  have hplain := isCompositeId_eq_false (has_of_mem_parts hmem)
  refine ⟨hplain, EntityKeys.refusal?_eq_none hplain ?_⟩
  unfold Condition.equality?
  split
  next => exact not_null_of_mem_parts hmem
  next => rfl

/-- **Routing does not see the difference.** -/
theorem routing_spellOut (hnamed : schema.rangeKey ≠ some "")
    (h : schema.isCompositeId condition.property = true → schema.IsShorthand condition) :
    (schema.spellOut condition).findSome? schema.entity.refusal? =
        schema.entity.refusal? condition ∧
      (schema.spellOut condition).flatMap schema.entity.expand =
        schema.entity.expand condition := by
  cases hid : schema.isCompositeId condition.property with
  | false =>
    rw [spellOut_of_isCompositeId_eq_false hid, List.flatMap_singleton]
    exact ⟨by rw [List.findSome?_singleton], rfl⟩
  | true =>
    have hshort := h hid
    have hstated := fun stated (hmem : stated ∈ schema.spellOut condition) =>
      hshort.of_mem_spellOut hnamed hid hmem
    constructor
    · rw [hshort.refusal?_eq_none hnamed hid, List.findSome?_eq_none_iff]
      exact fun stated hmem => (hstated stated hmem).2
    · rw [hshort.expand_eq_spellOut hnamed hid]
      -- each condition that is spelled out stands for itself
      calc (schema.spellOut condition).flatMap schema.entity.expand
          = (schema.spellOut condition).flatMap fun stated => [stated] :=
            List.flatMap_congr fun stated hmem =>
              Criteria.expand_of_isCompositeId_eq_false (hstated stated hmem).1
        _ = schema.spellOut condition := List.flatMap_singleton' _

end KeySchema

/-! ### Lists and sets -/

/-- **Conditions may be replaced** by others with the same refusal and the same expansion. -/
theorem Criteria.ofConditions_flatMap {keys : EntityKeys} {replace : Condition → List Condition}
    {conditions : List Condition}
    (h : ∀ condition ∈ conditions,
      (replace condition).findSome? keys.refusal? = keys.refusal? condition ∧
        (replace condition).flatMap keys.expand = keys.expand condition) :
    ofConditions keys (conditions.flatMap replace) = ofConditions keys conditions := by
  have hrefusals : (conditions.flatMap replace).findSome? keys.refusal? =
      conditions.findSome? keys.refusal? := by
    induction conditions with
    | nil => rfl
    | cons condition rest ih =>
      obtain ⟨hfirst, hrest⟩ := List.forall_mem_cons.mp h
      rw [List.flatMap_cons, List.findSome?_append, hfirst.1, ih hrest, List.findSome?_cons]
      cases keys.refusal? condition <;> rfl
  have hexpand : (conditions.flatMap replace).flatMap keys.expand =
      conditions.flatMap keys.expand := by
    rw [List.flatMap_assoc]
    exact List.flatMap_congr fun condition hmem => (h condition hmem).2
  rw [ofConditions_eq, ofConditions_eq, hrefusals, hexpand]

namespace ConditionSet

/-- The set with every condition in full. -/
def spellOut (schema : KeySchema) (set : ConditionSet) : ConditionSet :=
  { set with conditions := set.conditions.flatMap schema.spellOut }

/-- **Composite ids are shorthand.** Where every condition on a composite id carries over to a part
of it, spelling these conditions out leaves the plan, or the refusal, as it is.  And whatever is
asked, no plan carries a condition on a composite id. -/
theorem plan_spellOut {schema : KeySchema} (hnamed : schema.rangeKey ≠ some "") :
    (∀ (set : ConditionSet) (config : PlannerConfig) (projection : Projection),
      (∀ condition ∈ set.conditions, schema.isCompositeId condition.property = true →
        schema.IsShorthand condition) →
      (set.spellOut schema).plan schema.entity config projection =
        set.plan schema.entity config projection) ∧
    ∀ (set : ConditionSet) (config : PlannerConfig) (projection : Projection) (plan : AccessPlan),
      set.plan schema.entity config projection = .ok plan →
        ∀ condition ∈ plan.carried schema, schema.isCompositeId condition.property = false := by
  constructor
  · intro set config projection hshort
    have hrouted : Criteria.ofConditions schema.entity (set.spellOut schema).conditions =
        Criteria.ofConditions schema.entity set.conditions :=
      Criteria.ofConditions_flatMap fun condition hmem =>
        KeySchema.routing_spellOut hnamed (hshort condition hmem)
    unfold plan
    rw [hrouted]
    rfl
  · intro set config projection plan hplan condition hmem
    obtain ⟨asked, -, -, hstated⟩ := mem_expand_of_mem_carried hplan hmem
    exact EntityKeys.isCompositeId_eq_false_of_mem_expand hstated

/-- Orders of days that begin with 7, where the customer is given twice. -/
theorem plan_spellOut_orders_of_customer :
    let ada : Json := .string "ada"
    let set : ConditionSet :=
      { conditions :=
          [.equals "customer" ada,
            ⟨"id", .beginsWith, [.object [("day", .string "7")]], rfl⟩,
            .equals "id" (.object [("customer", ada), ("day", .null)])] }
    KeySchema.orders.rangeKey ≠ some "" ∧
      (set.spellOut .orders).conditions =
        [.equals "customer" ada, ⟨"day", .beginsWith, [.string "7"], rfl⟩,
          .equals "customer" ada] ∧
      (set.spellOut .orders).plan KeySchema.orders.entity {} .items =
        set.plan KeySchema.orders.entity {} .items := by
  intro ada set
  have hnamed : KeySchema.orders.rangeKey ≠ some "" := by decide
  refine ⟨hnamed, rfl, (plan_spellOut hnamed).1 set {} .items ?_⟩
  intro condition hmem hid
  simp only [set, List.mem_cons, List.not_mem_nil, or_false] at hmem
  rcases hmem with rfl | rfl | rfl
  · cases hid
  · exact ⟨.inr (.inr rfl), List.cons_ne_nil _ _⟩
  · exact ⟨.inl rfl, List.cons_ne_nil _ _⟩

end ConditionSet

end AccessPlanner
