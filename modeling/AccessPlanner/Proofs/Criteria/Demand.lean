import AccessPlanner.Proofs.Criteria.Matching
import AccessPlanner.Proofs.Json.Equality

/-!
# What a list of conditions demands

`Demand.of` reads off a list of conditions, without any routing, what it says of the primary key:
the first value that each key property is equated with, and the *rest*, which is everything but
the equalities that repeat these values.  `ofConditions_eq` shows that routing the conditions one
after the other arrives at exactly this, for the expansions of the conditions, unless one of them
is refused.

The induction is on the list from its end: `Demand.of_concat` says what one more condition
changes, and the step lemmas `bindProperty_criteria` and `addResidual_criteria` say that routing
the condition changes the criteria in the same way.
-/

namespace AccessPlanner

/-! ### Reading a list -/

/-- The value of a condition that equates a property with it. -/
def Condition.equalityOn? (condition : Condition) (property : String) : Option Json :=
  if condition.property = property ∧ condition.operator = .eq then condition.values.head? else none

/-- The first value that a property is equated with. -/
def firstEquality? (property : String) (conditions : List Condition) : Option Json :=
  conditions.findSome? fun condition => condition.equalityOn? property

/-- Whether a condition equates a property with the value that it is bound to. -/
def Condition.repeats (condition : Condition) (property : String) (bound : Option Json) : Bool :=
  match condition.equalityOn? property, bound with
  | some value, some bound => bound.same value
  | _, _ => false

/-- **What a list of conditions demands:** a value of the hash property, a value of the range
property, and the rest. -/
structure Demand where
  hash : Option Json
  range : Option Json
  rest : List Condition

namespace Demand

/-- Whether a condition says of a key property only what it is bound to. -/
def covers (schema : KeySchema) (hash range : Option Json) (condition : Condition) : Bool :=
  condition.repeats schema.hashKey hash ||
    schema.rangeKey.any fun property => condition.repeats property range

/-- **The demand of a list of conditions.** -/
def of (schema : KeySchema) (conditions : List Condition) : Demand :=
  let hash := firstEquality? schema.hashKey conditions
  let range := schema.rangeKey.bind fun property => firstEquality? property conditions
  { hash, range, rest := conditions.filter fun condition => !covers schema hash range condition }

/-- The value that the demand has for a property. -/
def value? (schema : KeySchema) (demand : Demand) (property : String) : Option Json :=
  if property = schema.hashKey then demand.hash
  else if schema.rangeKey = some property then demand.range
  else none

/-- The equalities of the key properties with their values. -/
def equalities (schema : KeySchema) (demand : Demand) : List Condition :=
  (demand.hash.map (Condition.equals schema.hashKey)).toList ++
    (schema.rangeKey.bind fun property => demand.range.map (Condition.equals property)).toList

/-- The criteria that hold a demand. -/
def criteria (demand : Demand) : Criteria :=
  { hashValue := demand.hash
    rangeValue := demand.range
    residual := Criteria.groupsOf demand.rest }

end Demand

/-! ### Values and equalities -/

/-- An equality of a property is a condition on it that is an equality. -/
theorem Condition.equalityOn?_eq (condition : Condition) (property : String) :
    condition.equalityOn? property =
      if condition.property = property then condition.equality? else none :=
  ite_and ..

theorem Condition.eq_equals_of_equalityOn? {condition : Condition} {property : String}
    {value : Json} (h : condition.equalityOn? property = some value) :
    condition = .equals property value := by
  rw [equalityOn?_eq] at h
  split at h
  next hproperty =>
    rw [← hproperty]
    exact eq_equals h
  next => cases h

theorem isSome_firstEquality?_iff {conditions : List Condition} {property : String} :
    (firstEquality? property conditions).isSome = true ↔
      ∃ value, Condition.equals property value ∈ conditions := by
  rw [firstEquality?, List.findSome?_isSome_iff]
  constructor
  · rintro ⟨condition, hmem, hsome⟩
    obtain ⟨value, hvalue⟩ := Option.isSome_iff_exists.mp hsome
    refine ⟨value, ?_⟩
    rwa [← Condition.eq_equals_of_equalityOn? hvalue]
  · rintro ⟨value, hmem⟩
    refine ⟨_, hmem, ?_⟩
    rw [Condition.equalityOn?, if_pos ⟨rfl, rfl⟩]
    rfl

theorem mem_of_firstEquality? {conditions : List Condition} {property : String} {value : Json}
    (h : firstEquality? property conditions = some value) :
    Condition.equals property value ∈ conditions := by
  obtain ⟨condition, hmem, hvalue⟩ := List.exists_of_findSome?_eq_some h
  rwa [← Condition.eq_equals_of_equalityOn? hvalue]

theorem Condition.exists_of_repeats {condition : Condition} {property : String}
    {bound : Option Json} (h : condition.repeats property bound = true) :
    ∃ earlier value, bound = some earlier ∧ condition = .equals property value ∧
      earlier.same value = true := by
  unfold repeats at h
  split at h
  next value earlier hvalue =>
    exact ⟨earlier, value, rfl, eq_equals_of_equalityOn? hvalue, h⟩
  next => cases h

namespace Demand

theorem boundValue?_criteria (schema : KeySchema) (demand : Demand) (property : String) :
    demand.criteria.boundValue? schema property = demand.value? schema property := by
  unfold value?
  by_cases hhash : property = schema.hashKey
  · subst hhash
    rw [if_pos rfl, Criteria.boundValue?_hashKey]
    rfl
  · rw [if_neg hhash]
    by_cases hrange : schema.rangeKey = some property
    · rw [if_pos hrange, Criteria.boundValue?_rangeKey hrange]
      rfl
    · have hhas : schema.primary.has property = false :=
        KeySchema.has_eq_false_iff.mpr ⟨fun h => hhash h.symm, hrange⟩
      rw [if_neg hrange, Criteria.boundValue?_of_has_eq_false hhas]

theorem value?_hashKey (schema : KeySchema) (demand : Demand) :
    demand.value? schema schema.hashKey = demand.hash := if_pos rfl

theorem value?_rangeKey {schema : KeySchema} {property : String}
    (h : schema.rangeKey = some property) (demand : Demand) :
    demand.value? schema property = demand.range := by
  have hne : property ≠ schema.hashKey := fun heq =>
    schema.rangeKey_ne_hashKey (h.trans (congrArg some heq))
  rw [value?, if_neg hne, if_pos h]

/-- Only the properties of the primary key have values, and these are the first ones. -/
theorem value?_of (schema : KeySchema) (conditions : List Condition) (property : String) :
    (Demand.of schema conditions).value? schema property =
      if schema.primary.has property = true then firstEquality? property conditions else none := by
  unfold value?
  by_cases hhash : property = schema.hashKey
  · subst hhash
    rw [if_pos rfl, if_pos schema.has_hashKey]
    rfl
  · rw [if_neg hhash]
    by_cases hkey : schema.rangeKey = some property
    · rw [if_pos hkey, if_pos (KeySchema.has_rangeKey hkey), of, hkey]
      rfl
    · have hhas : schema.primary.has property = false :=
        KeySchema.has_eq_false_iff.mpr ⟨fun h => hhash h.symm, hkey⟩
      rw [if_neg hkey, hhas]
      rfl

theorem equals_mem_of_value? {schema : KeySchema} {conditions : List Condition}
    {property : String} {value : Json}
    (h : (Demand.of schema conditions).value? schema property = some value) :
    Condition.equals property value ∈ conditions := by
  rw [value?_of] at h
  split at h
  next => exact mem_of_firstEquality? h
  next => cases h

/-- **A property has a value** where it is a key property that is equated with something. -/
theorem isSome_value?_iff {schema : KeySchema} {conditions : List Condition} {property : String} :
    ((Demand.of schema conditions).value? schema property).isSome = true ↔
      schema.primary.has property = true ∧
        ∃ value, Condition.equals property value ∈ conditions := by
  rw [value?_of, ← isSome_firstEquality?_iff]
  split
  next h => simp [h]
  next h => simp [h]

/-- A covered condition equates a property with a value equal to the one that it has. -/
theorem exists_of_covers {schema : KeySchema} {demand : Demand} {condition : Condition}
    (h : covers schema demand.hash demand.range condition = true) :
    ∃ bound value, demand.value? schema condition.property = some bound ∧
      condition = .equals condition.property value ∧ bound.same value = true := by
  rcases Bool.or_eq_true_iff.mp h with hhash | hrange
  · obtain ⟨bound, value, hbound, rfl, hsame⟩ := Condition.exists_of_repeats hhash
    exact ⟨bound, value, (value?_hashKey schema demand).trans hbound, rfl, hsame⟩
  · obtain ⟨property, hkey, hrepeats⟩ := (Option.any_eq_true _ _).mp hrange
    obtain ⟨bound, value, hbound, rfl, hsame⟩ := Condition.exists_of_repeats hrepeats
    exact ⟨bound, value, (value?_rangeKey hkey demand).trans hbound, rfl, hsame⟩

/-- **Every condition counts:** it is in the rest, or it repeats the value of its property. -/
theorem mem_rest_or_repeats (schema : KeySchema) {conditions : List Condition}
    {condition : Condition} (h : condition ∈ conditions) :
    condition ∈ (Demand.of schema conditions).rest ∨
      ∃ bound value, (Demand.of schema conditions).value? schema condition.property = some bound ∧
        condition = .equals condition.property value ∧ bound.same value = true := by
  cases hcovers : covers schema (Demand.of schema conditions).hash
      (Demand.of schema conditions).range condition with
  | true => exact .inr (exists_of_covers hcovers)
  | false => exact .inl (List.mem_filter.mpr ⟨h, congrArg (!·) hcovers⟩)

theorem mem_of_mem_rest {schema : KeySchema} {conditions : List Condition} {condition : Condition}
    (h : condition ∈ (Demand.of schema conditions).rest) : condition ∈ conditions :=
  (List.mem_filter.mp h).1

theorem boundConditions_criteria (schema : KeySchema) (demand : Demand) :
    demand.criteria.boundConditions schema = demand.equalities schema := by
  obtain ⟨hash, range, rest⟩ := demand
  unfold Criteria.boundConditions Criteria.bound Criteria.boundHash? Criteria.boundRange? equalities
  rw [List.map_append]
  congr 1
  · cases hash <;> rfl
  · cases schema.rangeKey with
    | none => rfl
    | some property => cases range <;> rfl

theorem mem_equalities_iff {schema : KeySchema} {demand : Demand} {condition : Condition} :
    condition ∈ demand.equalities schema ↔
      ∃ property value, demand.value? schema property = some value ∧
        condition = .equals property value := by
  rw [← boundConditions_criteria, Criteria.mem_boundConditions_iff]
  simp only [boundValue?_criteria]

theorem mem_conditions_iff {schema : KeySchema} {demand : Demand} {condition : Condition} :
    condition ∈ demand.criteria.conditions schema ↔
      condition ∈ demand.equalities schema ∨ condition ∈ demand.rest := by
  rw [Criteria.conditions, boundConditions_criteria, List.mem_append]
  exact or_congr .rfl (Criteria.flatMap_groupsOf_perm demand.rest).mem_iff

end Demand

/-! ### One more condition -/

theorem Condition.equalityOn?_equals (property other : String) (value : Json) :
    (Condition.equals property value).equalityOn? other =
      if property = other then some value else none :=
  Condition.equalityOn?_eq _ _

theorem Condition.equalityOn?_of_not_equality {condition : Condition}
    (h : condition.equality? = none) (property : String) :
    condition.equalityOn? property = none := by
  rw [equalityOn?_eq, h, ite_self]

theorem Condition.repeats_equals (property other : String) (value : Json) (bound : Option Json) :
    (Condition.equals property value).repeats other bound =
      (decide (property = other) && bound.any (·.same value)) := by
  unfold repeats
  rw [equalityOn?_equals]
  by_cases h : property = other
  · rw [if_pos h, decide_eq_true h, Bool.true_and]
    cases bound <;> rfl
  · rw [if_neg h, decide_eq_false h, Bool.false_and]

theorem firstEquality?_concat (property : String) (conditions : List Condition)
    (condition : Condition) :
    firstEquality? property (conditions ++ [condition]) =
      (firstEquality? property conditions).or (condition.equalityOn? property) := by
  unfold firstEquality?
  rw [List.findSome?_append, List.findSome?_singleton]

/-- What an earlier condition repeats does not depend on later ones: a property that is not bound
yet has no equality among the earlier ones. -/
theorem repeats_firstEquality?_concat {property : String} {conditions : List Condition}
    {earlier : Condition} (h : earlier ∈ conditions) (condition : Condition) :
    earlier.repeats property (firstEquality? property (conditions ++ [condition])) =
      earlier.repeats property (firstEquality? property conditions) := by
  rw [firstEquality?_concat]
  cases hfirst : firstEquality? property conditions with
  | some bound => rfl
  | none =>
    have hnone : earlier.equalityOn? property = none :=
      List.findSome?_eq_none_iff.mp hfirst earlier h
    unfold Condition.repeats
    rw [hnone]

namespace Demand

/-- **One more condition** binds the key properties that are free, and joins the rest unless it
says only what they are bound to. -/
theorem of_concat (schema : KeySchema) (conditions : List Condition) (condition : Condition) :
    of schema (conditions ++ [condition]) =
      let hash := (of schema conditions).hash.or (condition.equalityOn? schema.hashKey)
      let range := (of schema conditions).range.or (schema.rangeKey.bind condition.equalityOn?)
      { hash, range
        rest := (of schema conditions).rest ++
          if covers schema hash range condition then [] else [condition] } := by
  have hhash := firstEquality?_concat schema.hashKey conditions condition
  have hrange :
      (schema.rangeKey.bind fun property => firstEquality? property (conditions ++ [condition])) =
        (schema.rangeKey.bind fun property => firstEquality? property conditions).or
          (schema.rangeKey.bind condition.equalityOn?) := by
    cases schema.rangeKey with
    | none => rfl
    | some property => exact firstEquality?_concat property conditions condition
  -- one more condition changes nothing about what earlier ones say:
  have hearlier : ∀ earlier ∈ conditions,
      covers schema (firstEquality? schema.hashKey (conditions ++ [condition]))
          (schema.rangeKey.bind fun property =>
            firstEquality? property (conditions ++ [condition])) earlier =
        covers schema (firstEquality? schema.hashKey conditions)
          (schema.rangeKey.bind fun property => firstEquality? property conditions) earlier := by
    intro earlier h
    unfold covers
    rw [repeats_firstEquality?_concat h]
    cases schema.rangeKey with
    | none => rfl
    | some property =>
      simp only [Option.bind_some, Option.any_some, repeats_firstEquality?_concat h]
  unfold of
  simp only [List.filter_append, List.filter_cons, List.filter_nil]
  rw [List.filter_congr fun earlier h => congrArg (!·) (hearlier earlier h), hhash, hrange]
  congr 2
  cases covers schema _ _ condition <;> rfl

/-- What is no equality is no repetition, whatever the values are. -/
theorem covers_of_not_equality {condition : Condition} (h : condition.equality? = none)
    (schema : KeySchema) (hash range : Option Json) :
    covers schema hash range condition = false := by
  unfold covers Condition.repeats
  cases schema.rangeKey <;> simp [Condition.equalityOn?_of_not_equality h]

theorem covers_equals (schema : KeySchema) (demand : Demand) (property : String) (value : Json) :
    covers schema demand.hash demand.range (.equals property value) =
      (demand.criteria.boundValue? schema property).any (·.same value) := by
  rw [boundValue?_criteria]
  unfold covers value?
  simp only [Condition.repeats_equals]
  have hrange :
      (schema.rangeKey.any fun other =>
          decide (property = other) && demand.range.any (·.same value)) =
        (decide (schema.rangeKey = some property) && demand.range.any (·.same value)) := by
    cases schema.rangeKey with
    | none => rfl
    | some other =>
      rw [Option.any_some]
      simp only [Option.some.injEq, eq_comm]
  rw [hrange]
  by_cases hhash : property = schema.hashKey
  · -- the hash property is no range property, so only the first disjunct counts
    have hne : schema.rangeKey ≠ some property := by
      rw [hhash]
      exact schema.rangeKey_ne_hashKey
    rw [if_pos hhash, decide_eq_true hhash, decide_eq_false hne, Bool.true_and, Bool.false_and,
      Bool.or_false]
  · rw [if_neg hhash, decide_eq_false hhash, Bool.false_and, Bool.false_or]
    by_cases hkey : schema.rangeKey = some property
    · rw [if_pos hkey, decide_eq_true hkey, Bool.true_and]
    · rw [if_neg hkey, decide_eq_false hkey, Bool.false_and, Option.any_none]

theorem bind_equalityOn?_equals (schema : KeySchema) (property : String) (value : Json) :
    schema.rangeKey.bind (Condition.equals property value).equalityOn? =
      if schema.rangeKey = some property then some value else none := by
  cases schema.rangeKey with
  | none => rfl
  | some other =>
    by_cases h : other = property
    · subst h
      rw [if_pos rfl, Option.bind_some, Condition.equalityOn?_equals, if_pos rfl]
    · have hother : some other ≠ some property := fun e => h (Option.some.inj e)
      rw [if_neg hother, Option.bind_some, Condition.equalityOn?_equals,
        if_neg fun e => h e.symm]

/-- An equality of the hash property, where it is free, binds it. -/
theorem of_concat_hash {schema : KeySchema} {conditions : List Condition}
    (hfree : (of schema conditions).hash = none) (value : Json) :
    of schema (conditions ++ [.equals schema.hashKey value]) =
      { of schema conditions with hash := some value } := by
  have hcovers := covers_equals schema { of schema conditions with hash := some value }
    schema.hashKey value
  rw [Criteria.boundValue?_hashKey, criteria, Option.any_some, Json.same_refl] at hcovers
  rw [of_concat, Condition.equalityOn?_equals, bind_equalityOn?_equals, if_pos rfl,
    if_neg schema.rangeKey_ne_hashKey, hfree, Option.none_or, Option.or_none]
  dsimp only at hcovers ⊢
  rw [hcovers, if_pos rfl, List.append_nil]

theorem of_concat_range {schema : KeySchema} {conditions : List Condition} {property : String}
    (hkey : schema.rangeKey = some property) (hfree : (of schema conditions).range = none)
    (value : Json) :
    of schema (conditions ++ [.equals property value]) =
      { of schema conditions with range := some value } := by
  have hne : property ≠ schema.hashKey := fun h =>
    schema.rangeKey_ne_hashKey (hkey.trans (congrArg some h))
  have hcovers := covers_equals schema { of schema conditions with range := some value }
    property value
  rw [Criteria.boundValue?_rangeKey hkey, criteria, Option.any_some, Json.same_refl] at hcovers
  rw [of_concat, Condition.equalityOn?_equals, bind_equalityOn?_equals, if_neg hne, if_pos hkey,
    hfree, Option.none_or, Option.or_none]
  dsimp only at hcovers ⊢
  rw [hcovers, if_pos rfl, List.append_nil]

/-- An equality of a property that is not free repeats the bound value or joins the rest. -/
theorem of_concat_equals {schema : KeySchema} {conditions : List Condition} {property : String}
    (hset : schema.primary.has property = true →
      ((of schema conditions).criteria.boundValue? schema property).isSome = true)
    (value : Json) :
    of schema (conditions ++ [.equals property value]) =
      { of schema conditions with
        rest := (of schema conditions).rest ++
          if ((of schema conditions).criteria.boundValue? schema property).any (·.same value)
          then [] else [.equals property value] } := by
  rw [of_concat, Condition.equalityOn?_equals, bind_equalityOn?_equals]
  generalize of schema conditions = demand at hset ⊢
  -- a value that is there already stays:
  have hhash : demand.hash.or (if property = schema.hashKey then some value else none) =
      demand.hash := by
    split
    next h =>
      subst h
      have hsome := hset schema.has_hashKey
      rw [Criteria.boundValue?_hashKey] at hsome
      exact Option.or_of_isSome hsome
    next => exact Option.or_none
  have hrange : demand.range.or (if schema.rangeKey = some property then some value else none) =
      demand.range := by
    split
    next h =>
      have hsome := hset (KeySchema.has_rangeKey h)
      rw [Criteria.boundValue?_rangeKey h] at hsome
      exact Option.or_of_isSome hsome
    next => exact Option.or_none
  rw [hhash, hrange]
  dsimp only
  rw [covers_equals]

end Demand

/-! ### Steps -/

namespace Criteria

theorem addResidual_demand (demand : Demand) (condition : Condition) :
    demand.criteria.addResidual condition =
      { demand with rest := demand.rest ++ [condition] : Demand }.criteria := by
  unfold Demand.criteria addResidual
  rw [← addToGroups_groupsOf]

/-- **Routing a condition that is no equality.** -/
theorem addResidual_criteria (schema : KeySchema) (conditions : List Condition)
    {condition : Condition} (h : condition.equality? = none) :
    (Demand.of schema conditions).criteria.addResidual condition =
      (Demand.of schema (conditions ++ [condition])).criteria := by
  have hon := Condition.equalityOn?_of_not_equality h
  have hrange : schema.rangeKey.bind condition.equalityOn? = none := by
    cases schema.rangeKey with
    | none => rfl
    | some property => exact hon property
  rw [addResidual_demand, Demand.of_concat, hon, hrange, Option.or_none, Option.or_none]
  dsimp only
  rw [Demand.covers_of_not_equality h, if_neg Bool.false_ne_true]

/-- **Routing an equality** that is not refused. -/
theorem bindProperty_criteria {keys : EntityKeys} (conditions : List Condition) (property : String)
    (value : Json) (hallowed : (value.isNull && keys.schema.primary.has property) = false) :
    (Demand.of keys.schema conditions).criteria.bindProperty keys property value =
      ⟨(Demand.of keys.schema (conditions ++ [.equals property value])).criteria, none⟩ := by
  have hstep := bindProperty_step keys (Demand.of keys.schema conditions).criteria property value
  generalize (Demand.of keys.schema conditions).criteria.bindProperty keys property value =
    outcome at hstep ⊢
  cases hstep with
  | refused hnull hkey =>
    rw [hnull, hkey] at hallowed
    cases hallowed
  | hash _ hkey hfree =>
    subst hkey
    rw [Demand.of_concat_hash hfree]
    rfl
  | range _ hkey hfree =>
    rw [Demand.of_concat_range hkey hfree]
    rfl
  | again bound _ hbound hsame =>
    rw [Demand.of_concat_equals (fun _ => by rw [hbound]; rfl), hbound, Option.any_some, hsame,
      if_pos rfl, List.append_nil]
  | residual _ hkey hnew =>
    have hdiffers :
        ((Demand.of keys.schema conditions).criteria.boundValue? keys.schema property).any
          (·.same value) = false := (Option.any_eq_false _ _).mpr hnew
    rw [Demand.of_concat_equals hkey, hdiffers, if_neg (by simp), addResidual_demand]

theorem bindParts_criteria {keys : EntityKeys} (conditions : List Condition)
    (parts : List (String × Json))
    (h : ((Demand.of keys.schema conditions).criteria.bindParts keys parts).error = none) :
    (Demand.of keys.schema conditions).criteria.bindParts keys parts =
      ⟨(Demand.of keys.schema
        (conditions ++ parts.map fun part => .equals part.1 part.2)).criteria, none⟩ := by
  induction parts generalizing conditions with
  | nil =>
    rw [List.map_nil, List.append_nil]
    rfl
  | cons part rest ih =>
    obtain ⟨property, value⟩ := part
    rw [bindParts, Outcome.error_andThen, Option.or_eq_none_iff] at h
    have hallowed : (value.isNull && keys.schema.primary.has property) = false := by
      have hfirst := h.1
      rw [bindProperty_error] at hfirst
      simpa using hfirst
    have hstep := bindProperty_criteria conditions property value hallowed
    rw [hstep] at h
    have hrest := ih (conditions ++ [.equals property value]) h.2
    rw [List.append_assoc, List.singleton_append] at hrest
    rw [bindParts, hstep]
    exact hrest

theorem foldl_addResidual_criteria (schema : KeySchema) (conditions more : List Condition)
    (h : ∀ condition ∈ more, condition.equality? = none) :
    more.foldl addResidual (Demand.of schema conditions).criteria =
      (Demand.of schema (conditions ++ more)).criteria := by
  induction more generalizing conditions with
  | nil => rw [List.foldl_nil, List.append_nil]
  | cons condition rest ih =>
    rw [List.foldl_cons, addResidual_criteria schema conditions (h _ (List.mem_cons_self ..)),
      ih _ fun other hother => h other (List.mem_cons_of_mem _ hother), ← List.append_cons]

/-! ### A whole condition -/

/-- **Routing a condition to components** that are not refused. -/
theorem routeParts_criteria {keys : EntityKeys} (conditions : List Condition)
    {condition : Condition} (hop : condition.operator.isCompositeIdOperator = true)
    (parts : List (String × Json))
    (h : ((Demand.of keys.schema conditions).criteria.routeParts keys condition hop parts).error =
      none) :
    (Demand.of keys.schema conditions).criteria.routeParts keys condition hop parts =
      ⟨(Demand.of keys.schema (conditions ++ parts.map (condition.onPart hop))).criteria,
        none⟩ := by
  unfold routeParts at h ⊢
  split at h
  next => cases h
  next hsome =>
    rw [if_neg hsome]
    split at h
    next hequality =>
      rw [if_pos hequality, bindParts_criteria conditions parts h,
        funext fun part => Condition.onPart_of_eq hequality hop part]
    next hother =>
      rw [if_neg hother]
      split at h
      next => cases h
      next hnamed =>
        -- the conditions on the components keep the operator, so they do not bind anything
        have hresidual : ∀ stated ∈ parts.map (condition.onPart hop), stated.equality? = none := by
          intro stated hmem
          obtain ⟨part, -, rfl⟩ := List.mem_map.mp hmem
          exact if_neg hother
        rw [if_neg hnamed, foldl_addResidual_criteria keys.schema conditions _ hresidual]

/-- **Routing one condition** that is not refused is routing its expansion. -/
theorem add_criteria {keys : EntityKeys} (conditions : List Condition) {condition : Condition}
    (h : keys.refusal? condition = none) :
    (Demand.of keys.schema conditions).criteria.add keys condition =
      ⟨(Demand.of keys.schema (conditions ++ keys.expand condition)).criteria, none⟩ := by
  rw [← add_error keys (Demand.of keys.schema conditions).criteria] at h
  have hstep := add_step keys (Demand.of keys.schema conditions).criteria condition
  generalize (Demand.of keys.schema conditions).criteria.add keys condition = outcome
    at h hstep ⊢
  cases hstep with
  | @bound value hid hequality =>
    rw [bindProperty_error] at h
    rw [expand_of_isCompositeId_eq_false hid,
      bindProperty_criteria conditions condition.property value (by simpa using h),
      ← Condition.eq_equals hequality]
  | residual hid hequality =>
    rw [expand_of_isCompositeId_eq_false hid, addResidual_criteria keys.schema conditions hequality]
  | ambiguous | null => cases h
  | parts hid hop hvalues =>
    rw [expand_of_isCompositeId hid hop hvalues]
    exact routeParts_criteria conditions hop _ h

/-! ### A whole list -/

theorem addAll_criteria (keys : EntityKeys) (before conditions : List Condition) :
    (Demand.of keys.schema before).criteria.addAll keys conditions =
      match conditions.findSome? keys.refusal? with
      | some error => .error error
      | none =>
        .ok (Demand.of keys.schema (before ++ conditions.flatMap keys.expand)).criteria := by
  induction conditions generalizing before with
  | nil =>
    rw [List.flatMap_nil, List.append_nil]
    rfl
  | cons condition rest ih =>
    unfold addAll at ih ⊢
    rw [List.foldlM_cons, List.findSome?_cons]
    cases hrefusal : keys.refusal? condition with
    | some error =>
      -- the refusal is the same after any other conditions
      rw [← add_error keys (Demand.of keys.schema before).criteria] at hrefusal
      unfold Outcome.toExcept
      rw [hrefusal]
      rfl
    | none =>
      rw [add_criteria before hrefusal, List.flatMap_cons, ← List.append_assoc]
      exact ih (before ++ keys.expand condition)

/-- **Routing a list of conditions** fails with the first refusal; without a refusal it arrives at
what the expansions of the conditions demand. -/
theorem ofConditions_eq (keys : EntityKeys) (conditions : List Condition) :
    ofConditions keys conditions =
      match conditions.findSome? keys.refusal? with
      | some error => .error error
      | none => .ok (Demand.of keys.schema (conditions.flatMap keys.expand)).criteria := by
  have hempty : (Demand.of keys.schema []).criteria = empty := by
    unfold Demand.of Demand.criteria firstEquality?
    cases keys.schema.rangeKey <;> rfl
  have hall := addAll_criteria keys [] conditions
  rwa [hempty] at hall

/-- Conditions that were routed are acceptable each on its own, and give what they demand. -/
theorem ofConditions_eq_ok_iff (keys : EntityKeys) (conditions : List Condition)
    (criteria : Criteria) :
    ofConditions keys conditions = .ok criteria ↔
      (∀ condition ∈ conditions, keys.refusal? condition = none) ∧
        (Demand.of keys.schema (conditions.flatMap keys.expand)).criteria = criteria := by
  rw [ofConditions_eq, ← List.findSome?_eq_none_iff]
  cases conditions.findSome? keys.refusal? <;> simp

end Criteria

end AccessPlanner
