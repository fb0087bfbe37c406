import AccessPlanner.Proofs.Criteria.Reachable
import AccessPlanner.Proofs.Plan.Configuration

/-!
# Indexes declared in another order

Two schemas that declare the same indexes in different orders have the same indexes, but a planner
that goes by the declared order may choose another one of them.  In lexicographic order it cannot
(`ConditionSet.plan_redeclared`): indexes have distinct names, so only one list of them ascends by
name (`KeySchema.lists_iff`).

Of the indexes, planning reads the arranged list and whether some index has a range property, which
no order can change.  All else that it reads is the primary key and the composite ids, so that
routing is the same function for both schemas.
-/

namespace AccessPlanner

/-! ### Schemas -/

namespace KeySchema

/-- **The same declaration with the indexes in another order.** -/
structure Redeclared (schema other : KeySchema) : Prop where
  decl_eq : other.decl = { schema.decl with indexes := other.indexes }
  perm : schema.indexes.Perm other.indexes

namespace Redeclared

variable {schema other : KeySchema}

theorem symm (h : schema.Redeclared other) : other.Redeclared schema where
  decl_eq := by rw [h.decl_eq]; rfl
  perm := h.perm.symm

theorem exists_eq (h : schema.Redeclared other) :
    ∃ indexes valid, other = ⟨{ schema.decl with indexes }, valid⟩ := by
  obtain ⟨decl, valid⟩ := other
  obtain ⟨hdecl, -⟩ := h
  exact ⟨decl.indexes, hdecl ▸ valid, by congr⟩

/-- **In lexicographic order the two lists of indexes are one.** -/
theorem arrange_eq (h : schema.Redeclared other) :
    IndexOrder.lexicographic.arrange schema.indexes =
      IndexOrder.lexicographic.arrange other.indexes := by
  obtain ⟨hperm, hascending⟩ := IndexOrder.lexicographic.lists_arrange schema.indexes
  exact KeySchema.lists_iff.mp ⟨hperm.trans h.perm, hascending⟩

theorem isIndexRangeKey_eq (h : schema.Redeclared other) :
    schema.isIndexRangeKey = other.isIndexRangeKey :=
  funext fun _ => h.perm.any_eq

end Redeclared

end KeySchema

/-! ### Routing -/

/-- **Entity types that differ in the order of their index declarations only.** -/
structure EntityKeys.Redeclared (keys other : EntityKeys) : Prop where
  schema : keys.schema.Redeclared other.schema
  decompose : keys.decompose = other.decompose

/-- How an object falls apart depends on the primary key alone. -/
theorem KeySchema.Redeclared.entity {schema other : KeySchema} (h : schema.Redeclared other) :
    schema.entity.Redeclared other.entity := by
  refine ⟨h, ?_⟩
  obtain ⟨indexes, valid, rfl⟩ := h.exists_eq
  rfl

namespace EntityKeys.Redeclared

variable {keys other : EntityKeys}

/-- **Routing reads nothing of the indexes.** -/
theorem routing_eq (h : keys.Redeclared other) (criteria : Criteria) :
    criteria.add keys = criteria.add other ∧ criteria.bind keys = criteria.bind other := by
  obtain ⟨schema, decompose⟩ := keys
  obtain ⟨_, _⟩ := other
  obtain ⟨hschema, rfl⟩ := h
  obtain ⟨indexes, valid, rfl⟩ := hschema.exists_eq
  exact ⟨rfl, rfl⟩

theorem ofConditions_eq (h : keys.Redeclared other) (conditions : List Condition) :
    Criteria.ofConditions keys conditions = Criteria.ofConditions other conditions := by
  unfold Criteria.ofConditions Criteria.addAll
  simp only [(h.routing_eq _).1]

/-- **The same criteria are reachable.** -/
theorem reachable (h : keys.Redeclared other) {criteria : Criteria}
    (hreachable : Criteria.Reachable keys criteria) : Criteria.Reachable other criteria := by
  induction hreachable with
  | empty => exact .empty
  | add _ condition ih =>
    rw [(h.routing_eq _).1]
    exact ih.add condition
  | bind _ property value ih =>
    rw [(h.routing_eq _).2]
    exact ih.bind property value
  | addResidual _ condition ih => exact ih.addResidual condition

end EntityKeys.Redeclared

/-! ### The rules -/

/-- **What planning reads of the primary key,** and not of the indexes. -/
structure Criteria.ReadAlike (criteria : Criteria) (schema other : KeySchema) : Prop where
  hashKey : schema.hashKey = other.hashKey
  isRangeKey : schema.isRangeKey = other.isRangeKey
  properties : criteria.properties schema = criteria.properties other
  hashCondition : criteria.hashCondition schema = criteria.hashCondition other
  matchIndex : criteria.matchIndex? schema = criteria.matchIndex? other
  filtersAfter : criteria.filtersAfter schema = criteria.filtersAfter other
  load : criteria.loadRule? schema = criteria.loadRule? other
  hash : criteria.hashRule? schema = criteria.hashRule? other
  scan : ∀ config, criteria.scanRule schema config = criteria.scanRule other config

namespace KeySchema.Redeclared

variable {schema other : KeySchema}

theorem readAlike (h : schema.Redeclared other) (criteria : Criteria) :
    criteria.ReadAlike schema other := by
  obtain ⟨indexes, valid, rfl⟩ := h.exists_eq
  exact ⟨rfl, rfl, rfl, rfl, rfl, rfl, rfl, rfl, fun _ => rfl⟩

/-- **The same index is selected,** with the same conditions on its key. -/
theorem selectIndex?_eq (h : schema.Redeclared other) (criteria : Criteria)
    (sort : Option SortOrder) :
    criteria.selectIndex? schema .lexicographic sort =
      criteria.selectIndex? other .lexicographic sort := by
  have hread := h.readAlike criteria
  unfold Criteria.selectIndex? Criteria.candidates
  rw [hread.properties, h.arrange_eq, hread.matchIndex]

theorem rangeRule?_eq (h : schema.Redeclared other) (criteria : Criteria)
    (sort : Option SortOrder) :
    criteria.rangeRule? schema .lexicographic sort =
      criteria.rangeRule? other .lexicographic sort := by
  have hread := h.readAlike criteria
  have haddress : Criteria.rangeAddress? schema .lexicographic =
      Criteria.rangeAddress? other .lexicographic := by
    unfold Criteria.rangeAddress?
    rw [hread.isRangeKey, hread.hashKey, h.arrange_eq]
  have hsingle : criteria.isSingleOnRange schema = criteria.isSingleOnRange other := by
    unfold Criteria.isSingleOnRange Criteria.isSomeRangeKey
    rw [hread.isRangeKey, h.isIndexRangeKey_eq]
  unfold Criteria.rangeRule?
  rw [hsingle, haddress, hread.hashCondition]

theorem indexRule?_eq (h : schema.Redeclared other) (criteria : Criteria)
    (sort : Option SortOrder) :
    criteria.indexRule? schema .lexicographic sort =
      criteria.indexRule? other .lexicographic sort := by
  unfold Criteria.indexRule?
  rw [h.selectIndex?_eq, (h.readAlike criteria).filtersAfter]

/-- **All rules come to the same result.** -/
theorem plan_eq (h : schema.Redeclared other) {config : PlannerConfig}
    (horder : config.indexOrder = .lexicographic) (criteria : Criteria) (sort : Option SortOrder)
    (projection : Projection) :
    criteria.plan schema config sort projection = criteria.plan other config sort projection := by
  have hread := h.readAlike criteria
  unfold Criteria.plan
  rw [horder, hread.load, hread.hash, h.rangeRule?_eq, h.indexRule?_eq, hread.scan]

end KeySchema.Redeclared

/-! ### Two runs -/

namespace ConditionSet

theorem plan_congr_redeclared {keys other : EntityKeys} (h : keys.Redeclared other)
    {config : PlannerConfig} (horder : config.indexOrder = .lexicographic) (set : ConditionSet)
    (projection : Projection) :
    set.plan keys config projection = set.plan other config projection := by
  rw [ConditionSet.plan_eq, ConditionSet.plan_eq, h.ofConditions_eq]
  simp only [h.schema.plan_eq horder]

/-- **In lexicographic order it does not matter in which order the indexes are declared.** Two
schemas that differ in nothing else give every condition set the same plan or the same refusal, and
whatever criteria they lead to, which are the same, the same index is selected. -/
theorem plan_redeclared {schema other : KeySchema} (h : schema.Redeclared other) :
    (∀ config set projection, config.indexOrder = .lexicographic →
      ConditionSet.plan schema.entity config set projection =
        ConditionSet.plan other.entity config set projection) ∧
    (∀ criteria, Criteria.Reachable schema.entity criteria ↔
      Criteria.Reachable other.entity criteria) ∧
    ∀ criteria sort, Criteria.selectIndex? schema criteria .lexicographic sort =
      Criteria.selectIndex? other criteria .lexicographic sort :=
  ⟨fun _ set projection horder => plan_congr_redeclared h.entity horder set projection,
    fun _ => ⟨h.entity.reachable, h.symm.entity.reachable⟩, h.selectIndex?_eq⟩

/-- Invoices with the two indexes declared the other way round.  The order of declaration leads to
two different indexes, and the lexicographic order to one result. -/
theorem plan_redeclared_invoices :
    let other : KeySchema :=
      ⟨{ KeySchema.invoices.decl with indexes := KeySchema.invoices.indexes.reverse }, rfl⟩
    let set : ConditionSet :=
      { conditions := [.equals "customer" (.string "ada"), .equals "total" (.ofNat 100),
          ⟨"due", .lt, [.ofNat 30], rfl⟩] }
    let config : PlannerConfig := { indexOrder := .lexicographic }
    let index? (schema : KeySchema) (config : PlannerConfig) : Option String :=
      (set.plan schema.entity config .items).toOption.bind (·.indexName?)
    index? KeySchema.invoices {} = some "byTotal" ∧ index? other {} = some "byCustomer" ∧
      KeySchema.invoices.Redeclared other ∧
      set.plan KeySchema.invoices.entity config .items = set.plan other.entity config .items := by
  intro other set config index?
  have h : KeySchema.invoices.Redeclared other := ⟨rfl, (List.reverse_perm _).symm⟩
  exact ⟨rfl, rfl, h, (plan_redeclared h).1 config set .items rfl⟩

end ConditionSet

end AccessPlanner
