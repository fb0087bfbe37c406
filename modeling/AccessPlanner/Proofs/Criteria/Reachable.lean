import AccessPlanner.Proofs.Criteria.Groups
import AccessPlanner.Proofs.Criteria.Routing

/-!
# Reachable criteria

Criteria come about by routing conditions one after the other, and a caller may go on with the
criteria that a refused routing leaves behind.  `Criteria.Sound` is what all criteria that arise
in this way have in common (`Reachable.sound`): the residual conditions are the groups of some
list, only a range property that exists is bound, and nothing is bound to `null`.
-/

namespace AccessPlanner

namespace Criteria

/-- **What all criteria have in common.** -/
structure Sound (schema : KeySchema) (criteria : Criteria) : Prop where
  grouped : ∃ conditions, criteria.residual = groupsOf conditions
  range_bound : criteria.rangeValue.isSome = true → schema.rangeKey.isSome = true
  hash_not_null : ∀ value, criteria.hashValue = some value → value.isNull = false
  range_not_null : ∀ value, criteria.rangeValue = some value → value.isNull = false

/-- **Criteria that routing can lead to,** refused routings included: conditions are routed, a
property is equated with a value, or a condition is added as it is. -/
inductive Reachable (keys : EntityKeys) : Criteria → Prop
  | empty : Reachable keys .empty
  | add {criteria : Criteria} (h : Reachable keys criteria) (condition : Condition) :
      Reachable keys (criteria.add keys condition).criteria
  | bind {criteria : Criteria} (h : Reachable keys criteria) (property : String) (value : Json) :
      Reachable keys (criteria.bind keys property value).criteria
  | addResidual {criteria : Criteria} (h : Reachable keys criteria) (condition : Condition) :
      Reachable keys (criteria.addResidual condition)

namespace Sound

variable {keys : EntityKeys} {criteria : Criteria}

theorem empty (schema : KeySchema) : Sound schema .empty where
  grouped := ⟨[], rfl⟩
  range_bound := fun h => absurd h (by decide)
  hash_not_null := fun _ h => nomatch h
  range_not_null := fun _ h => nomatch h

theorem addResidual {schema : KeySchema} (h : Sound schema criteria) (condition : Condition) :
    Sound schema (criteria.addResidual condition) := by
  obtain ⟨conditions, hgrouped⟩ := h.grouped
  refine ⟨⟨conditions ++ [condition], ?_⟩, h.range_bound, h.hash_not_null, h.range_not_null⟩
  rw [← addToGroups_groupsOf, ← hgrouped]
  rfl

theorem foldl_addResidual {schema : KeySchema} (h : Sound schema criteria)
    (conditions : List Condition) :
    Sound schema (conditions.foldl Criteria.addResidual criteria) := by
  induction conditions generalizing criteria with
  | nil => exact h
  | cons condition rest ih => exact ih (h.addResidual condition)

theorem bindProperty (h : Sound keys.schema criteria) (property : String) (value : Json) :
    Sound keys.schema (criteria.bindProperty keys property value).criteria := by
  have hstep := bindProperty_step keys criteria property value
  generalize criteria.bindProperty keys property value = outcome at hstep ⊢
  cases hstep with
  | refused => exact h
  | hash hnull =>
    -- only a value that is not `null` is bound
    refine ⟨h.grouped, h.range_bound, fun bound hbound => ?_, h.range_not_null⟩
    obtain rfl := Option.some.inj hbound
    exact hnull
  | range hnull hkey =>
    -- there is a range property, since it is the one that is bound
    refine ⟨h.grouped, fun _ => ?_, h.hash_not_null, fun bound hbound => ?_⟩
    · rw [hkey]
      rfl
    · obtain rfl := Option.some.inj hbound
      exact hnull
  | again => exact h
  | residual => exact h.addResidual _

theorem bindParts (h : Sound keys.schema criteria) (parts : List (String × Json)) :
    Sound keys.schema (criteria.bindParts keys parts).criteria := by
  induction parts generalizing criteria with
  | nil => exact h
  | cons part rest ih =>
    have hfirst := h.bindProperty part.1 part.2
    unfold Criteria.bindParts Outcome.andThen
    split
    next => exact hfirst
    next => exact ih hfirst

theorem routeParts (h : Sound keys.schema criteria) {condition : Condition}
    (hop : condition.operator.isCompositeIdOperator = true) (parts : List (String × Json)) :
    Sound keys.schema (criteria.routeParts keys condition hop parts).criteria := by
  unfold Criteria.routeParts
  split
  next => exact h
  next =>
    split
    next => exact h.bindParts parts
    next =>
      split
      next => exact h
      next => exact h.foldl_addResidual _

/-- **Routing a condition,** whether it is refused or not. -/
theorem add (h : Sound keys.schema criteria) (condition : Condition) :
    Sound keys.schema (criteria.add keys condition).criteria := by
  have hstep := add_step keys criteria condition
  generalize criteria.add keys condition = outcome at hstep ⊢
  cases hstep with
  | bound => exact h.bindProperty _ _
  | residual => exact h.addResidual condition
  | ambiguous | null => exact h
  | parts _ hop => exact h.routeParts hop _

/-- Equating a property with a value is routing the equality. -/
theorem bind (h : Sound keys.schema criteria) (property : String) (value : Json) :
    Sound keys.schema (criteria.bind keys property value).criteria :=
  h.add (.equals property value)

end Sound

namespace Reachable

/-- **Reachable criteria are sound,** by induction on the routings. -/
theorem sound {keys : EntityKeys} {criteria : Criteria} (h : Reachable keys criteria) :
    Sound keys.schema criteria := by
  induction h with
  | empty => exact .empty keys.schema
  | add _ condition ih => exact ih.add condition
  | bind _ property value ih => exact ih.bind property value
  | addResidual _ condition ih => exact ih.addResidual condition

theorem of_addAll {keys : EntityKeys} {before reached : Criteria} {conditions : List Condition}
    (hbefore : Reachable keys before) (h : before.addAll keys conditions = .ok reached) :
    Reachable keys reached := by
  induction conditions generalizing before with
  | nil =>
    obtain rfl : before = reached := Except.ok.inj h
    exact hbefore
  | cons condition rest ih =>
    unfold addAll at h
    rw [List.foldlM_cons] at h
    obtain ⟨next, hnext, hrest⟩ := bind_eq_ok_iff.mp h
    refine ih ?_ hrest
    unfold Outcome.toExcept at hnext
    split at hnext
    next => cases hnext
    next =>
      obtain rfl := Except.ok.inj hnext
      exact hbefore.add condition

end Reachable

end Criteria

end AccessPlanner
