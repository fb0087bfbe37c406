import AccessPlanner.Proofs.Criteria.Components
import AccessPlanner.Proofs.Plan.Shorthand

/-!
# Refused conditions

A condition is refused for what it is: for `null` where a key is asked for, and for a composite id
that it cannot be carried over from.  `KeySchema.Refuses` lists the cases with their causes, in
terms of the schema and the condition.  What was routed before has no part in it, nor has the
configuration, so that a set with such a condition has no plan, and the cause is that of the first
one (`ConditionSet.plan_refused_iff`).
-/

namespace AccessPlanner

theorem Operator.isCompositeIdOperator_iff {operator : Operator} :
    operator.isCompositeIdOperator = true ↔
      operator = .eq ∨ operator = .contains ∨ operator = .beginsWith := by
  cases operator <;> decide

namespace KeySchema

variable {schema : KeySchema} {condition : Condition} {cause : PlanError}

/-- **Why a condition is refused:** a property of the primary key is equated with `null`; a
condition on a composite id has `null` for a value, or a value without a field for a key property,
or an operator that does not carry over to the fields. -/
inductive Refuses (schema : KeySchema) (condition : Condition) : PlanError → Prop
  | keyNull (hkey : schema.primary.has condition.property = true)
      (hop : condition.operator = .eq) (hvalues : condition.values = [.null]) :
      Refuses schema condition (.nullKeyValue condition.property)
  | idNull (hid : schema.isCompositeId condition.property = true)
      (hop : condition.operator = .eq ∨ condition.operator = .contains ∨
        condition.operator = .beginsWith)
      (hvalues : condition.values = [.null]) :
      Refuses schema condition (.nullKeyValue condition.property)
  | idWithoutFields {value : Json} (hid : schema.isCompositeId condition.property = true)
      (hop : condition.operator = .eq ∨ condition.operator = .contains ∨
        condition.operator = .beginsWith)
      (hvalues : condition.values = [value]) (hnull : value ≠ .null)
      (hfields : ∀ property ∈ schema.primary.properties,
        value.field? property = none ∨ value.field? property = some .null) :
      Refuses schema condition (.invalidCompositeId condition.property)
  | idOperator (hid : schema.isCompositeId condition.property = true)
      (hop : ¬ (condition.operator = .eq ∨ condition.operator = .contains ∨
        condition.operator = .beginsWith)) :
      Refuses schema condition (.ambiguousCompositeId condition.property condition.operator)

/-- A value has no parts if it has no field for a key property, or `null` there. -/
theorem parts_eq_nil_iff {value : Json} :
    schema.parts value = [] ↔ ∀ property ∈ schema.primary.properties,
      value.field? property = none ∨ value.field? property = some .null := by
  unfold parts
  rw [List.filterMap_eq_nil_iff]
  refine forall₂_congr fun property _ => ?_
  rw [Option.map_eq_none_iff]
  cases value.field? property with
  | none => simp
  | some part => simp [Option.filter_some, Json.isNull_iff]

theorem refuses_of_refusal? (hnamed : schema.rangeKey ≠ some "")
    (h : schema.entity.refusal? condition = some cause) : schema.Refuses condition cause := by
  obtain ⟨outcome, hstep, herror⟩ := Criteria.refusal?_step schema.entity condition
  rw [h] at herror
  cases hstep with
  | @bound value hid hequality =>
    obtain ⟨hnull, rfl, -⟩ := Criteria.bindProperty_of_error herror
    have hequals := Condition.eq_equals hequality
    rw [Json.isNull_iff.mp hnull] at hequals
    refine .keyNull ?_ (by rw [hequals]; rfl) (by rw [hequals]; rfl)
    -- only a key property is not equated with `null`
    by_contra hkey
    rw [Criteria.bindProperty_error, if_neg (by rw [Bool.and_eq_true]; exact fun h => hkey h.2)]
      at herror
    cases herror
  | residual => cases herror
  | ambiguous hid hop =>
    obtain rfl := Option.some.inj herror
    exact .idOperator hid (by rw [← Operator.isCompositeIdOperator_iff, hop]; simp)
  | null hid hop hvalues hnull =>
    obtain rfl := Option.some.inj herror
    exact .idNull hid (Operator.isCompositeIdOperator_iff.mp hop)
      (by rw [hvalues, Json.isNull_iff.mp hnull])
  | parts hid hop hvalues hnull =>
    rw [components_entity, routeParts_parts_error hnamed] at herror
    split at herror
    next hnone =>
      obtain rfl := Option.some.inj herror
      exact .idWithoutFields hid (Operator.isCompositeIdOperator_iff.mp hop) hvalues
        (Json.isNull_eq_false_iff.mp hnull)
        (parts_eq_nil_iff.mp (List.isEmpty_iff.mp hnone))
    next => cases herror

theorem Refuses.refusal?_eq (h : schema.Refuses condition cause) :
    schema.entity.refusal? condition = some cause := by
  unfold EntityKeys.refusal?
  cases h with
  | keyNull hkey hop hvalues =>
    have hequality : condition.equality? = some .null := by
      rw [Condition.equality?, if_pos hop, hvalues, List.head?_cons]
    rw [Criteria.add_of_equality (isCompositeId_eq_false hkey) hequality,
      Criteria.bindProperty_null hkey]
  | idNull hid hop hvalues =>
    rw [Criteria.add_of_isNull hid (Operator.isCompositeIdOperator_iff.mpr hop) hvalues rfl]
  | idWithoutFields hid hop hvalues hnull hfields =>
    have hfull := Json.isNull_eq_false_iff.mpr hnull
    rw [Criteria.add_of_isCompositeId hid (Operator.isCompositeIdOperator_iff.mpr hop) hvalues
      hfull,
      components_entity, parts_eq_nil_iff.mpr hfields]
    rfl
  | idOperator hid hop =>
    rw [Criteria.add_of_not_isCompositeIdOperator hid
      (Bool.eq_false_iff.mpr (mt Operator.isCompositeIdOperator_iff.mp hop))]

/-- **A condition is refused for these causes, whatever was routed before.** -/
theorem refusal?_eq_some_iff (hnamed : schema.rangeKey ≠ some "") :
    schema.entity.refusal? condition = some cause ↔ schema.Refuses condition cause :=
  ⟨refuses_of_refusal? hnamed, fun h => h.refusal?_eq⟩

end KeySchema

namespace ConditionSet

/-- **Routing comes before planning:** the first refusal is the outcome. -/
theorem plan_eq_error_of_refusal {keys : EntityKeys} {set : ConditionSet} {cause : PlanError}
    (hvalid : set.validate = .ok ()) (h : set.conditions.findSome? keys.refusal? = some cause)
    (config : PlannerConfig) (projection : Projection) :
    set.plan keys config projection = .error cause := by
  have hrouted : Criteria.ofConditions keys set.conditions = .error cause := by
    rw [Criteria.ofConditions_eq, h]
  unfold plan
  rw [hvalid, hrouted]
  rfl

/-- **Refused conditions, and sets with refused conditions.** Whatever was routed before, a
condition is refused exactly in the cases of `KeySchema.Refuses`, and for their causes.  A set with
such conditions has no plan, whatever the configuration, the order and the projection are, and the
cause is that of the first of them. -/
theorem plan_refused_iff {schema : KeySchema} (hnamed : schema.rangeKey ≠ some "") :
    (∀ (criteria : Criteria) (condition : Condition) (cause : PlanError),
      (criteria.add schema.entity condition).error = some cause ↔
        schema.Refuses condition cause) ∧
    ∀ set : ConditionSet, set.validate = .ok () → ∀ config projection,
      (∀ before condition after cause, set.conditions = before ++ condition :: after →
        (∀ earlier ∈ before, ∀ other, ¬ schema.Refuses earlier other) →
        schema.Refuses condition cause →
        set.plan schema.entity config projection = .error cause) ∧
      ((∃ condition ∈ set.conditions, ∃ cause, schema.Refuses condition cause) →
        ∃ condition ∈ set.conditions, ∃ cause, schema.Refuses condition cause ∧
          set.plan schema.entity config projection = .error cause) := by
  have hiff (condition : Condition) (cause : PlanError) :
      schema.entity.refusal? condition = some cause ↔ schema.Refuses condition cause :=
    KeySchema.refusal?_eq_some_iff hnamed
  refine ⟨fun criteria condition cause => by rw [Criteria.add_error]; exact hiff condition cause,
    fun set hvalid config projection => ⟨?_, ?_⟩⟩
  · intro before condition after cause hsplit hbefore hcause
    refine plan_eq_error_of_refusal hvalid ?_ config projection
    rw [List.findSome?_eq_some_iff]
    refine ⟨before, condition, after, hsplit, (hiff _ _).mpr hcause, fun earlier hmem => ?_⟩
    rw [Option.eq_none_iff_forall_ne_some]
    exact fun other hother => hbefore earlier hmem other ((hiff _ _).mp hother)
  · rintro ⟨refused, hmem, cause, hcause⟩
    -- one of the refused conditions is the first
    have hsome : (set.conditions.findSome? schema.entity.refusal?).isSome = true :=
      List.findSome?_isSome_iff.mpr ⟨refused, hmem, by rw [(hiff _ _).mpr hcause]; rfl⟩
    obtain ⟨first, hfirst⟩ := Option.isSome_iff_exists.mp hsome
    obtain ⟨condition, hcondition, hrefusal⟩ := List.exists_of_findSome?_eq_some hfirst
    exact ⟨condition, hcondition, first, (hiff _ _).mp hrefusal,
      plan_eq_error_of_refusal hvalid hfirst config projection⟩

/-- Open orders of an id without fields and of a customer that is `null`: the id comes first. -/
theorem plan_refused_iff_id_without_fields :
    let opened : Condition := .equals "status" (.string "open")
    let id : Condition := ⟨"id", .contains, [.string "ada"], rfl⟩
    let nobody : Condition := .equals "customer" .null
    let set : ConditionSet := { conditions := [opened, id, nobody] }
    KeySchema.orders.rangeKey ≠ some "" ∧ set.validate = .ok () ∧
      (∀ cause, ¬ KeySchema.orders.Refuses opened cause) ∧
      KeySchema.orders.Refuses id (.invalidCompositeId "id") ∧
      KeySchema.orders.Refuses nobody (.nullKeyValue "customer") ∧
      set.plan KeySchema.orders.entity .withScans .items = .error (.invalidCompositeId "id") := by
  intro opened id nobody set
  have hnamed : KeySchema.orders.rangeKey ≠ some "" := by decide
  obtain ⟨hcauses, hplan⟩ := plan_refused_iff hnamed
  have hopened (cause : PlanError) : ¬ KeySchema.orders.Refuses opened cause := by
    rw [← hcauses .empty opened cause]
    exact nofun
  have hid : KeySchema.orders.Refuses id (.invalidCompositeId "id") :=
    .idWithoutFields rfl (.inr (.inl rfl)) rfl nofun fun _ _ => .inl rfl
  refine ⟨hnamed, rfl, hopened, hid, .keyNull rfl rfl rfl, ?_⟩
  refine (hplan set rfl .withScans .items).1 [opened] id [nobody] _ rfl ?_ hid
  exact List.forall_mem_singleton.mpr hopened

end ConditionSet

end AccessPlanner
