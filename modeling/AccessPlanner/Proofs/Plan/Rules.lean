import AccessPlanner.Plan
import AccessPlanner.Proofs.Criteria.Matching

/-!
# Where a plan comes from

`Planned` lists the plans that the five rules make, one case for each rule with all that the rule
has checked, and `planned_of_plan` says that every plan is one of them.  What holds of all plans
is proved from these cases and not from the rules themselves.
-/

namespace AccessPlanner

/-! ### Single checks -/

/-- An order that is no obstacle is the order of the range property that is addressed. -/
theorem checkSort_eq_ok_iff {sort : Option SortOrder} {rangeKey : Option String} :
    checkSort sort rangeKey = .ok () ↔
      ∀ order, sort = some order → rangeKey = some order.property := by
  unfold checkSort
  cases sort with
  | none => simp
  | some order =>
    by_cases h : rangeKey = some order.property
    · simp [h]
    · simp [h]

theorem checkSort_eq_error_iff {sort : Option SortOrder} {rangeKey : Option String}
    {cause : PlanError} :
    checkSort sort rangeKey = .error cause ↔
      ∃ order, sort = some order ∧ rangeKey ≠ some order.property ∧
        cause = .illegalSortTarget order.property rangeKey := by
  unfold checkSort
  cases sort with
  | none => simp
  | some order =>
    by_cases h : rangeKey = some order.property
    · simp [h]
    · simp [h, eq_comm]

namespace Criteria

variable {schema : KeySchema} {criteria : Criteria}

theorem exists_of_hasHash (h : criteria.hasHash = true) :
    ∃ value, criteria.hashValue = some value :=
  Option.isSome_iff_exists.mp h

theorem hashCondition_eq {value : Json} (h : criteria.hashValue = some value) :
    criteria.hashCondition schema = .equals schema.hashKey value := by
  rw [hashCondition, h]
  rfl

theorem hasResidual_eq_false_iff : criteria.hasResidual = false ↔ criteria.residual = [] := by
  rw [hasResidual, Bool.not_eq_false', List.isEmpty_iff]

theorem isLoadable_iff :
    criteria.isLoadable schema = true ↔
      criteria.hasHash = true ∧ criteria.residual = [] ∧
        (schema.rangeKey = none ∨ criteria.hasRange = true) := by
  rw [isLoadable, Bool.and_eq_true, Bool.and_eq_true, Bool.or_eq_true, Bool.not_eq_true',
    hasResidual_eq_false_iff, Option.isNone_iff_eq_none, and_assoc]

theorem isHashOnly_iff :
    criteria.isHashOnly = true ↔
      criteria.hasHash = true ∧ criteria.rangeValue = none ∧ criteria.residual = [] := by
  rw [isHashOnly, Bool.and_eq_true, Bool.and_eq_true, Bool.not_eq_true', Bool.not_eq_true',
    hasResidual_eq_false_iff, hasRange, Option.isSome_eq_false_iff, Option.isNone_iff_eq_none,
    and_assoc]

theorem singleResidual?_eq_some {condition : Condition}
    (h : criteria.singleResidual? = some condition) :
    ∃ property, criteria.residual = [(property, [condition])] := by
  unfold singleResidual? at h
  split at h
  next property only hresidual =>
    obtain rfl := Option.some.inj h
    exact ⟨property, hresidual⟩
  next => cases h

/-- **Where a range property is addressed together with the hash property of the primary key:** in
the primary key itself, or else in the first index, in the given order, whose key has the two. -/
inductive Addresses (schema : KeySchema) (order : IndexOrder) (property : String) :
    Option String → Prop
  | primary (hkey : schema.rangeKey = some property) : Addresses schema order property none
  | index (before : List IndexDefinition) (index : IndexDefinition) (after : List IndexDefinition)
      (hother : schema.rangeKey ≠ some property)
      (hlisted : order.Lists schema.indexes (before ++ index :: after))
      (hkey : index.toKeyPair = ⟨schema.hashKey, some property⟩)
      (hfirst : ∀ earlier ∈ before, earlier.toKeyPair ≠ ⟨schema.hashKey, some property⟩) :
      Addresses schema order property (some index.name)

theorem isAligned_iff {index : IndexDefinition} {property : String} :
    (index.hashKey == schema.hashKey && index.rangeKey == some property) = true ↔
      index.toKeyPair = ⟨schema.hashKey, some property⟩ := by
  rw [Bool.and_eq_true, beq_iff_eq, beq_iff_eq, KeyPair.mk.injEq]

theorem rangeAddress?_eq_some_iff {order : IndexOrder} {property : String}
    {indexName : Option String} :
    rangeAddress? schema order property = some indexName ↔
      Addresses schema order property indexName := by
  have hprimary : schema.isRangeKey property = true ↔ schema.rangeKey = some property := beq_iff_eq
  constructor
  · intro h
    unfold rangeAddress? at h
    split at h
    next hkey =>
      obtain rfl := Option.some.inj h
      exact .primary (hprimary.mp hkey)
    next hkey =>
      obtain ⟨index, hfind, rfl⟩ := Option.map_eq_some_iff.mp h
      obtain ⟨haligned, before, after, hlisted, hfirst⟩ := List.find?_eq_some_iff_append.mp hfind
      refine .index before index after (mt hprimary.mpr hkey)
        (KeySchema.lists_iff.mpr hlisted.symm) (isAligned_iff.mp haligned) fun earlier hmem => ?_
      have hdiffers := hfirst earlier hmem
      rwa [Bool.not_eq_true', ← Bool.not_eq_true, isAligned_iff] at hdiffers
  · intro h
    unfold rangeAddress?
    cases h with
    | primary hkey => rw [if_pos (hprimary.mpr hkey)]
    | index before index after hother hlisted hkey hfirst =>
      rw [if_neg (mt hprimary.mp hother)]
      refine Option.map_eq_some_iff.mpr ?_
      refine ⟨index, List.find?_eq_some_iff_append.mpr ⟨isAligned_iff.mpr hkey, before, after,
        (KeySchema.lists_iff.mp hlisted).symm, fun earlier hmem => ?_⟩, rfl⟩
      rw [Bool.not_eq_true', ← Bool.not_eq_true, isAligned_iff]
      exact hfirst earlier hmem

/-- A range property is addressed through the primary key or through an index that has it together
with the hash property of the primary key. -/
theorem rangeAddress?_eq_some {order : IndexOrder} {property : String} {indexName : Option String}
    (h : rangeAddress? schema order property = some indexName) :
    (indexName = none ∧ schema.rangeKey = some property) ∨
      ∃ index ∈ schema.indexes, indexName = some index.name ∧ index.hashKey = schema.hashKey ∧
        index.rangeKey = some property := by
  cases rangeAddress?_eq_some_iff.mp h with
  | primary hkey => exact .inl ⟨rfl, hkey⟩
  | index before index after _ hlisted hkey =>
    have hmem : index ∈ schema.indexes :=
      hlisted.perm.mem_iff.mp (List.mem_append_right _ (List.mem_cons_self ..))
    exact .inr ⟨index, hmem, rfl, by rw [hkey], by rw [hkey]⟩

/-- A property that is addressed together with the primary hash property is some range property. -/
theorem isSomeRangeKey_of_rangeAddress? {order : IndexOrder} {property : String}
    {indexName : Option String} (h : rangeAddress? schema order property = some indexName) :
    isSomeRangeKey schema property = true := by
  rw [isSomeRangeKey, Bool.or_eq_true]
  rcases rangeAddress?_eq_some h with ⟨-, hkey⟩ | ⟨index, hmem, -, -, hkey⟩
  · exact .inl (beq_iff_eq.mpr hkey)
  · exact .inr (List.any_eq_true.mpr ⟨index, hmem, beq_iff_eq.mpr hkey⟩)

/-- No key has the hash property of the primary key twice. -/
theorem rangeAddress?_hashKey (schema : KeySchema) (order : IndexOrder) :
    rangeAddress? schema order schema.hashKey = none := by
  rw [Option.eq_none_iff_forall_ne_some]
  intro indexName haddress
  rcases rangeAddress?_eq_some haddress with ⟨-, hkey⟩ | ⟨index, hindex, -, hhash, hkey⟩
  · exact schema.rangeKey_ne_hashKey hkey
  · exact KeySchema.index_rangeKey_ne_hashKey hindex (hkey.trans (congrArg some hhash.symm))

/-! ### The rules -/

/-- **The plans that the rules make,** with what the rules have checked. -/
inductive Planned (schema : KeySchema) (config : PlannerConfig) (criteria : Criteria)
    (sort : Option SortOrder) (projection : Projection) : AccessPlan → Prop
  | load (value : Json) (hhash : criteria.hashValue = some value)
      (hresidual : criteria.residual = [])
      (hrange : schema.rangeKey = none ∨ criteria.hasRange = true) :
      Planned schema config criteria sort projection (.load value criteria.rangeValue)
  | hash (value : Json) (hhash : criteria.hashValue = some value)
      (hfree : criteria.rangeValue = none) (hresidual : criteria.residual = [])
      (hsort : checkSort sort schema.rangeKey = .ok ()) :
      Planned schema config criteria sort projection
        (.query ⟨none, .equals schema.hashKey value, none, [], sort⟩)
  | range (value : Json) (group : String) (only : Condition) (indexName : Option String)
      (hhash : criteria.hashValue = some value) (hfree : criteria.rangeValue = none)
      (hresidual : criteria.residual = [(group, [only])])
      (haddress : rangeAddress? schema config.indexOrder only.property = some indexName)
      (hop : only.operator.isKeyOperator = true)
      (hsort : checkSort sort (some only.property) = .ok ()) :
      Planned schema config criteria sort projection
        (.query ⟨indexName, .equals schema.hashKey value, some only, [], sort⟩)
  | index (found : IndexMatch)
      (hselect : criteria.selectIndex? schema config.indexOrder sort = some found)
      (hsort : checkSort sort found.index.rangeKey = .ok ()) :
      Planned schema config criteria sort projection
        (.query ⟨some found.index.name, found.hash.condition,
          found.range.map fun key => key.condition, criteria.filtersAfter schema found, sort⟩)
  | scan (hallowed : config.allowsScan projection = true) :
      Planned schema config criteria sort projection (.scan ⟨criteria.conditions schema, sort⟩)

variable {config : PlannerConfig} {sort : Option SortOrder} {projection : Projection}
  {plan : AccessPlan}

theorem planned_of_loadRule? (h : criteria.loadRule? schema = some plan) :
    Planned schema config criteria sort projection plan := by
  unfold loadRule? at h
  split at h
  next hloadable =>
    obtain rfl := Option.some.inj h
    obtain ⟨hhas, hresidual, hrange⟩ := isLoadable_iff.mp hloadable
    obtain ⟨value, hvalue⟩ := exists_of_hasHash hhas
    rw [hvalue]
    exact .load value hvalue hresidual hrange
  next => cases h

theorem planned_of_hashRule? (h : criteria.hashRule? schema sort = some (.ok plan)) :
    Planned schema config criteria sort projection plan := by
  unfold hashRule? at h
  split at h
  next honly =>
    obtain ⟨⟨⟩, hsort, hplan⟩ := bind_eq_ok_iff.mp (Option.some.inj h)
    obtain rfl := Except.ok.inj hplan
    obtain ⟨hhas, hfree, hresidual⟩ := isHashOnly_iff.mp honly
    obtain ⟨value, hvalue⟩ := exists_of_hasHash hhas
    rw [hashCondition_eq hvalue]
    exact .hash value hvalue hfree hresidual hsort
  next => cases h

theorem planned_of_rangeRule?
    (h : criteria.rangeRule? schema config.indexOrder sort = some (.ok plan)) :
    Planned schema config criteria sort projection plan := by
  unfold rangeRule? at h
  split at h
  next hsingle =>
    obtain ⟨hhas, hsingle⟩ := Bool.and_eq_true_iff.mp hsingle
    obtain ⟨value, hvalue⟩ := exists_of_hasHash hhas
    split at h
    next => cases h
    next only honly =>
      obtain ⟨group, hresidual⟩ := singleResidual?_eq_some honly
      obtain ⟨indexName, haddress, hresult⟩ := Option.map_eq_some_iff.mp h
      have hfree : criteria.rangeValue = none := by
        obtain ⟨hnot, -⟩ := Bool.and_eq_true_iff.mp hsingle
        rwa [Bool.not_eq_true', hasRange, Option.isSome_eq_false_iff,
          Option.isNone_iff_eq_none] at hnot
      cases hop : only.operator.isKeyOperator with
      | false =>
        -- a refusal, and no plan
        rw [hop] at hresult
        cases hresult
      | true =>
        rw [hop] at hresult
        obtain ⟨⟨⟩, hsort, hplan⟩ := bind_eq_ok_iff.mp hresult
        obtain rfl := Except.ok.inj hplan
        rw [hashCondition_eq hvalue]
        exact .range value group only indexName hvalue hfree hresidual haddress hop hsort
  next => cases h

theorem planned_of_indexRule?
    (h : criteria.indexRule? schema config.indexOrder sort = some (.ok plan)) :
    Planned schema config criteria sort projection plan := by
  obtain ⟨found, hselect, hresult⟩ := Option.map_eq_some_iff.mp h
  obtain ⟨⟨⟩, hsort, hplan⟩ := bind_eq_ok_iff.mp hresult
  obtain rfl := Except.ok.inj hplan
  exact .index found hselect hsort

theorem planned_of_scanRule
    (h : criteria.scanRule schema config sort projection = .ok plan) :
    Planned schema config criteria sort projection plan := by
  unfold scanRule at h
  dsimp only at h
  split at h
  next hallowed =>
    obtain rfl := Except.ok.inj h
    exact .scan hallowed
  next => cases h

/-- **Every plan is made by one of the rules.** -/
theorem planned_of_plan (h : criteria.plan schema config sort projection = .ok plan) :
    Planned schema config criteria sort projection plan := by
  unfold Criteria.plan at h
  split at h
  next made hload =>
    obtain rfl := Except.ok.inj h
    exact planned_of_loadRule? hload
  next =>
    split at h
    next hhash => exact planned_of_hashRule? (hhash.trans (congrArg some h))
    next =>
      split at h
      next hrange => exact planned_of_rangeRule? (hrange.trans (congrArg some h))
      next =>
        split at h
        next hindex => exact planned_of_indexRule? (hindex.trans (congrArg some h))
        next => exact planned_of_scanRule h

end Criteria

end AccessPlanner
