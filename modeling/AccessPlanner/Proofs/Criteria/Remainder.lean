import AccessPlanner.Proofs.Criteria.Matching

/-!
# What an index leaves over

`Sound.filter_filtersAfter` says what a query of an index leaves over of the conditions on one
property: what is bound, unless the key serves it, and then all that is residual, in its order,
unless the key serves that.

An index is meant to be ruled out by what is residual on its range property, unless this is a single
condition that its key can serve.  That is so as long as the property is not bound.  Where it is
bound, the key takes the bound value without a look at what is residual, and all of this is left
over (`residualFor_rangeKey_iff`).
-/

namespace AccessPlanner

namespace Criteria

variable {schema : KeySchema} {criteria : Criteria} {found : IndexMatch} {property : String}

/-! ### One property -/

/-- **What is left over of the conditions on a property.** -/
theorem Sound.filter_filtersAfter (hsound : Sound schema criteria) (found : IndexMatch)
    (property : String) :
    ((criteria.filtersAfter schema found).filter fun condition =>
        condition.property == property) =
      (if found.consumes .bound property then []
        else ((criteria.boundValue? schema property).map (Condition.equals property)).toList) ++
      if found.consumes .residual property then [] else criteria.residualFor property := by
  obtain ⟨conditions, hgrouped⟩ := hsound.grouped
  have hbound := filter_filter_property (fun name => !found.consumes .bound name) property
    (criteria.boundConditions schema)
  have hresidual := filter_filter_property (fun name => !found.consumes .residual name) property
    conditions
  rw [filtersAfter, List.filter_append, hbound, filter_boundConditions, hgrouped,
    filter_groupsOf fun name => !found.consumes .residual name, filter_flatMap_groupsOf, hresidual,
    ← residualFor_of_groupsOf hgrouped]
  cases found.consumes .bound property <;> cases found.consumes .residual property <;> rfl

/-! ### The range property of an index -/

/-- The key serves a condition on the range property only as its range condition. -/
theorem Fits.consumes_rangeKey (hsound : Sound schema criteria) (h : Fits schema criteria found)
    (hkey : found.index.rangeKey = some property) (source : KeySource) :
    found.consumes source property = found.range.any fun key => key.source == source := by
  have hhash : (found.hash.condition.property == property) = false := by
    rw [h.hash.property_eq hsound, beq_eq_false_iff_ne]
    intro heq
    exact KeySchema.index_rangeKey_ne_hashKey h.mem (hkey.trans (congrArg some heq.symm))
  unfold IndexMatch.consumes IndexMatch.keyConditions
  rw [List.any_cons, hhash, Bool.and_false, Bool.false_or]
  cases hrange : found.range with
  | none => rfl
  | some key =>
    obtain ⟨other, hother, hserves⟩ := h.range key hrange
    obtain rfl := Option.some.inj (hkey.symm.trans hother)
    simp [hserves.property_eq hsound]

theorem indexRange?_of_matchIndex? {index : IndexDefinition}
    (h : criteria.matchIndex? schema index = some found) (hkey : index.rangeKey = some property) :
    criteria.indexRange? schema property = some found.range := by
  unfold matchIndex? at h
  rw [hkey] at h
  split at h
  next => cases h
  next =>
    obtain ⟨range, hrange, rfl⟩ := Option.map_eq_some_iff.mp h
    exact hrange

/-- **A match serves what is residual on a property:** this is nothing, or one condition with a key
operator that is its range condition.  So no condition on the property is left over. -/
structure ServesResidual (schema : KeySchema) (criteria : Criteria) (found : IndexMatch)
    (property : String) : Prop where
  range : criteria.residualFor property = [] ∨
    ∃ only, criteria.residualFor property = [only] ∧ only.operator.isKeyOperator = true ∧
      found.range = some ⟨only, .residual⟩
  unfiltered : ∀ condition ∈ criteria.filtersAfter schema found, condition.property ≠ property

/-- **What is left over on the range property:** nothing, unless the property is bound; then all
that is residual. -/
theorem filter_filtersAfter_rangeKey (hsound : Sound schema criteria) {index : IndexDefinition}
    (hmem : index ∈ schema.indexes) (hmatch : criteria.matchIndex? schema index = some found)
    (hkey : index.rangeKey = some property) :
    ((criteria.filtersAfter schema found).filter fun condition =>
        condition.property == property) =
      if (criteria.boundValue? schema property).isSome then criteria.residualFor property
      else [] := by
  have hindex := index_of_matchIndex? hmatch
  have hfits := matchIndex?_eq_some hmem hmatch
  obtain ⟨hnone, hserves⟩ := indexRange?_eq_some (indexRange?_of_matchIndex? hmatch hkey)
  have hconsumes := hfits.consumes_rangeKey hsound (hindex ▸ hkey)
  rw [hsound.filter_filtersAfter, hconsumes, hconsumes]
  cases hrange : found.range with
  | none =>
    obtain ⟨hfree, hresidual⟩ := hnone hrange
    rw [hfree, hresidual]
    rfl
  | some key =>
    cases hserves key hrange with
    | bound value hbound =>
      rw [hbound]
      rfl
    | residual only hfree honly =>
      rw [hfree]
      rfl

theorem range_of_bound {index : IndexDefinition}
    (hmatch : criteria.matchIndex? schema index = some found)
    (hkey : index.rangeKey = some property) {value : Json}
    (hbound : criteria.boundValue? schema property = some value) :
    found.range = some ⟨.equals property value, .bound⟩ := by
  have hrange := indexRange?_of_matchIndex? hmatch hkey
  rw [indexRange?, hbound] at hrange
  exact (Option.some.inj hrange).symm

/-- **When an index serves what is residual on its range property:** the property is not bound, or
nothing is residual on it.  Otherwise it is addressed by the value that it is bound to, and whatever
is residual on it is left over. -/
theorem residualFor_rangeKey_iff {keys : EntityKeys} {criteria : Criteria}
    (h : Reachable keys criteria) {index : IndexDefinition} (hmem : index ∈ keys.schema.indexes)
    {found : IndexMatch} (hmatch : criteria.matchIndex? keys.schema index = some found)
    {property : String} (hkey : index.rangeKey = some property) :
    (ServesResidual keys.schema criteria found property ↔
      criteria.boundValue? keys.schema property = none ∨ criteria.residualFor property = []) ∧
    ∀ value, criteria.boundValue? keys.schema property = some value →
      found.range = some ⟨.equals property value, .bound⟩ ∧
        ((criteria.filtersAfter keys.schema found).filter fun condition =>
          condition.property == property) = criteria.residualFor property := by
  have hleft := filter_filtersAfter_rangeKey h.sound hmem hmatch hkey
  have hbound {value : Json} (hvalue : criteria.boundValue? keys.schema property = some value) :=
    range_of_bound hmatch hkey hvalue
  refine ⟨⟨fun hserved => ?_, fun hcase => ⟨?_, ?_⟩⟩, fun value hvalue => ⟨hbound hvalue, ?_⟩⟩
  · -- a bound value is no residual condition
    cases hvalue : criteria.boundValue? keys.schema property with
    | none => exact .inl rfl
    | some value =>
      refine .inr (hserved.range.resolve_right ?_)
      rintro ⟨only, -, -, hrange⟩
      have hsource := (hbound hvalue).symm.trans hrange
      cases hsource
  · rcases hcase with hfree | hnone
    · obtain ⟨hnone, hserves⟩ := indexRange?_eq_some (indexRange?_of_matchIndex? hmatch hkey)
      cases hrange : found.range with
      | none => exact .inl (hnone hrange).2
      | some key =>
        cases hserves key hrange with
        | bound value hvalue =>
          rw [hfree] at hvalue
          cases hvalue
        | residual only _ honly hop => exact .inr ⟨only, honly, hop, rfl⟩
    · exact .inl hnone
  · have hnothing : ((criteria.filtersAfter keys.schema found).filter fun condition =>
        condition.property == property) = [] := by
      rw [hleft]
      rcases hcase with hfree | hnone
      · rw [hfree]
        rfl
      · rw [hnone, ite_self]
    intro condition hcondition hproperty
    exact List.filter_eq_nil_iff.mp hnothing condition hcondition (beq_iff_eq.mpr hproperty)
  · rw [hleft, hvalue]
    rfl

/-- Open orders since a day: the index by status serves the day. -/
theorem residualFor_rangeKey_iff_open_orders_since :
    let keys := KeySchema.orders.entity
    let opened := (empty.add keys (.equals "status" (.string "open"))).criteria
    let since : Condition := ⟨"day", .ge, [.string "01"], rfl⟩
    let criteria := (opened.add keys since).criteria
    let index : IndexDefinition := ⟨⟨"status", some "day"⟩, "byStatus"⟩
    Reachable keys criteria ∧
      ∃ found, criteria.matchIndex? keys.schema index = some found ∧
        criteria.residualFor "day" = [since] ∧
        ServesResidual keys.schema criteria found "day" := by
  intro keys opened since criteria index
  have hreachable : Reachable keys criteria := .add (.add .empty _) _
  exact ⟨hreachable, _, rfl, rfl,
    (residualFor_rangeKey_iff hreachable (.head _) rfl rfl).1.mpr (.inl rfl)⟩

/-- Open orders of a day that has a part: the index by status serves the day, and the part is left
over, although no key can serve its operator. -/
theorem matchIndex?_leaves_part_of_day :
    let keys := KeySchema.orders.entity
    let opened := (empty.add keys (.equals "status" (.string "open"))).criteria
    let dated := (opened.add keys (.equals "day" (.string "01"))).criteria
    let part : Condition := ⟨"day", .contains, [.string "0"], rfl⟩
    let criteria := (dated.add keys part).criteria
    let index : IndexDefinition := ⟨⟨"status", some "day"⟩, "byStatus"⟩
    Reachable keys criteria ∧ index ∈ keys.schema.indexes ∧
      ∃ found, criteria.matchIndex? keys.schema index = some found ∧
        criteria.residualFor "day" = [part] ∧ part.operator.isKeyOperator = false ∧
        found.range = some ⟨.equals "day" (.string "01"), .bound⟩ ∧
        criteria.filtersAfter keys.schema found = [part] ∧
        ¬ ServesResidual keys.schema criteria found "day" := by
  intro keys opened dated part criteria index
  refine ⟨.add (.add (.add .empty _) _) _, .head _, _, rfl, rfl, rfl, rfl, rfl, fun hserved => ?_⟩
  exact hserved.unfiltered part (.head _) rfl

end Criteria

end AccessPlanner
