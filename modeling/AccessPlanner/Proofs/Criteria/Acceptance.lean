import AccessPlanner.Proofs.Criteria.Routing

/-!
# Conditions that are not refused

`EntityKeys.Accepts` lists what routing has looked at in a condition that it does not refuse, one
case for each of its paths, and `accepts_of_refusal?` says that these are all.  So `null` is refused
for the properties of the primary key and for composite ids, and for no other property.

What an accepted condition stands for is a condition on its own property or conditions on the
properties of the primary key (`EntityKeys.eq_or_has_of_mem_expand`).
-/

namespace AccessPlanner

theorem Json.isNull_iff {value : Json} : value.isNull = true ↔ value = .null := by
  cases value <;> simp [isNull]

theorem Json.isNull_eq_false_iff {value : Json} : value.isNull = false ↔ value ≠ .null := by
  rw [Bool.eq_false_iff, ne_eq, isNull_iff]

namespace EntityKeys

variable {keys : EntityKeys} {condition : Condition}

/-- **What is not refused:** a condition on a property that is no composite id, unless it equates a
key property with `null`; and a condition on a composite id that has a value, if it is an equality
or can be stated for each component. -/
inductive Accepts (keys : EntityKeys) (condition : Condition) : Prop
  | plain (hid : keys.schema.isCompositeId condition.property = false)
      (hallowed : condition.equality? = some .null →
        keys.schema.primary.has condition.property = false)
  | composite (value : Json) (hid : keys.schema.isCompositeId condition.property = true)
      (hvalues : condition.values = [value]) (hnull : value ≠ .null)
      (hnamed : condition.operator ≠ .eq → ∀ part ∈ keys.components value, part.1 ≠ "")

/-- **Nothing else is accepted.** -/
theorem accepts_of_refusal? (h : keys.refusal? condition = none) : keys.Accepts condition := by
  obtain ⟨outcome, hstep, herror⟩ := Criteria.refusal?_step keys condition
  rw [h] at herror
  cases hstep with
  | @bound value hid hequality =>
    refine .plain hid fun hnull => ?_
    rw [hequality] at hnull
    obtain rfl := Option.some.inj hnull
    rw [Criteria.bindProperty_error] at herror
    simpa [Json.isNull] using herror
  | residual hid hequality =>
    refine .plain hid fun hnull => ?_
    rw [hequality] at hnull
    cases hnull
  | ambiguous | null => cases herror
  | @parts value hid hop hvalues hnull =>
    refine .composite value hid hvalues (Json.isNull_eq_false_iff.mp hnull)
      fun hother part hpart hname => ?_
    -- a component of a property without a name would be refused
    rw [Criteria.routeParts_of_nameless hop hother hpart hname] at herror
    cases herror

/-! ### Consequences -/

/-- A condition on a composite id stands for conditions on the primary key. -/
theorem has_of_mem_expand {stated : Condition}
    (hid : keys.schema.isCompositeId condition.property = true)
    (h : stated ∈ keys.expand condition) : keys.schema.primary.has stated.property = true := by
  obtain ⟨hop, value, -, part, hpart, rfl⟩ := Criteria.exists_of_mem_expand hid h
  exact has_of_mem_components hpart

/-- **What an accepted condition stands for** is itself, or belongs to the primary key. -/
theorem eq_or_has_of_mem_expand {stated : Condition} (h : stated ∈ keys.expand condition) :
    stated = condition ∨ keys.schema.primary.has stated.property = true := by
  cases hid : keys.schema.isCompositeId condition.property with
  | true => exact .inr (has_of_mem_expand hid h)
  | false =>
    rw [Criteria.expand_of_isCompositeId_eq_false hid] at h
    exact .inl (List.mem_singleton.mp h)

/-- Nothing stands for a condition on a composite id. -/
theorem isCompositeId_eq_false_of_mem_expand {stated : Condition}
    (h : stated ∈ keys.expand condition) :
    keys.schema.isCompositeId stated.property = false := by
  cases hid : keys.schema.isCompositeId condition.property with
  | true => exact KeySchema.isCompositeId_eq_false (has_of_mem_expand hid h)
  | false =>
    rw [Criteria.expand_of_isCompositeId_eq_false hid] at h
    rwa [List.mem_singleton.mp h]

theorem mem_of_mem_flatMap_expand {conditions : List Condition} {stated : Condition}
    (h : stated ∈ conditions.flatMap keys.expand)
    (hhas : keys.schema.primary.has stated.property = false) : stated ∈ conditions := by
  obtain ⟨condition, hmem, hstated⟩ := List.mem_flatMap.mp h
  rcases eq_or_has_of_mem_expand hstated with rfl | hkey
  · exact hmem
  · rw [hhas] at hkey
    cases hkey

/-- **`null` is refused** for key properties and for composite ids. -/
theorem Accepts.not_null (h : keys.Accepts condition) :
    (condition.equality? = some .null → keys.schema.primary.has condition.property = false) ∧
      (keys.schema.isCompositeId condition.property = true →
        condition.values.head? ≠ some .null) := by
  cases h with
  | plain hid hallowed =>
    refine ⟨hallowed, fun hcomposite => ?_⟩
    rw [hid] at hcomposite
    cases hcomposite
  | composite value _ hvalues hnull =>
    have hhead : condition.values.head? ≠ some .null := by
      rw [hvalues]
      exact fun heq => hnull (Option.some.inj heq)
    refine ⟨fun hequality => ?_, fun _ => hhead⟩
    unfold Condition.equality? at hequality
    split at hequality
    next => exact absurd hequality hhead
    next => cases hequality

end EntityKeys

end AccessPlanner
