import AccessPlanner.Proofs.Criteria.Acceptance
import AccessPlanner.Proofs.Criteria.Reachable

/-!
# Composite ids with `null` components

How a composite id falls apart is up to the entity type, and its components may be `null`.  A schema
leaves such components out of its own composite ids; other entity types need not.

`null` counts as a component.  The equality of a key property with it is refused, when the
components before it are already bound: this is the one way in which a refused condition changes the
criteria (`EntityKeys.add_refused`).  Other conditions on a composite id carry over to a component
that is `null` like to any other.  So routing is what it would be without such components only where
there are none (`EntityKeys.add_eq_withoutNulls_iff`).
-/

namespace AccessPlanner

namespace Criteria

variable {keys : EntityKeys} {criteria : Criteria} {condition : Condition}

/-! ### Refused equalities -/

/-- No key property is equated with `null`. -/
theorem bindProperty_null {property : String} (h : keys.schema.primary.has property = true) :
    criteria.bindProperty keys property .null = ⟨criteria, some (.nullKeyValue property)⟩ :=
  if_pos h

/-- A property that cannot be equated with a value stays as it is. -/
theorem bindProperty_of_error {property : String} {value : Json} {cause : PlanError}
    (h : (criteria.bindProperty keys property value).error = some cause) :
    value.isNull = true ∧ cause = .nullKeyValue property ∧
      (criteria.bindProperty keys property value).criteria = criteria := by
  have hstep := bindProperty_step keys criteria property value
  generalize criteria.bindProperty keys property value = outcome at h hstep ⊢
  cases hstep with
  | refused hnull => exact ⟨hnull, (Option.some.inj h).symm, rfl⟩
  | hash | range | again | residual => cases h

/-- **Where the equalities with components end that are refused:** at a component that is `null`,
after the components before it. -/
theorem bindParts_of_error {parts : List (String × Json)} {cause : PlanError}
    (h : (criteria.bindParts keys parts).error = some cause) :
    ∃ before part after, parts = before ++ part :: after ∧ part.2.isNull = true ∧
      (criteria.bindParts keys before).error = none ∧
      (criteria.bindParts keys parts).criteria = (criteria.bindParts keys before).criteria := by
  induction parts generalizing criteria with
  | nil => cases h
  | cons part rest ih =>
    rw [bindParts, Outcome.error_andThen] at h
    -- the first component is refused, or the refusal is among the rest
    cases hfirst : (criteria.bindProperty keys part.1 part.2).error with
    | some error =>
      have hstop : criteria.bindParts keys (part :: rest) =
          criteria.bindProperty keys part.1 part.2 := Outcome.andThen_of_error_eq_some hfirst _
      obtain ⟨hnull, -, hsame⟩ := bindProperty_of_error hfirst
      exact ⟨[], part, rest, rfl, hnull, rfl, by rw [hstop]; exact hsame⟩
    | none =>
      rw [hfirst, Option.none_or] at h
      obtain ⟨before, other, after, rfl, hnull, hbefore, hreached⟩ := ih h
      refine ⟨part :: before, other, after, rfl, hnull, ?_, ?_⟩
      · rw [bindParts, Outcome.andThen_of_error_eq_none hfirst, hbefore]
      · rw [bindParts, bindParts, Outcome.andThen_of_error_eq_none hfirst,
          Outcome.andThen_of_error_eq_none hfirst, hreached]

/-- Only an equality is routed before it is refused. -/
theorem routeParts_of_error {hop : condition.operator.isCompositeIdOperator = true}
    {parts : List (String × Json)} {cause : PlanError}
    (h : (criteria.routeParts keys condition hop parts).error = some cause) :
    (criteria.routeParts keys condition hop parts).criteria = criteria ∨
      condition.operator = .eq ∧
        criteria.routeParts keys condition hop parts = criteria.bindParts keys parts := by
  unfold routeParts at h ⊢
  split at h
  next hnone => exact .inl (by rw [if_pos hnone])
  next hsome =>
    rw [if_neg hsome]
    split at h
    next hequality => exact .inr ⟨hequality, if_pos hequality⟩
    next hother =>
      rw [if_neg hother]
      split at h
      next hname => exact .inl (by rw [if_pos hname])
      next => cases h

/-! ### Changes -/

/-- **Residual conditions are all kept.** -/
theorem residualConditions_foldl_perm (more : List Condition) (criteria : Criteria) :
    (more.foldl addResidual criteria).residualConditions.Perm
      (criteria.residualConditions ++ more) := by
  induction more generalizing criteria with
  | nil => rw [List.append_nil]; exact .refl _
  | cons condition rest ih =>
    have hstep : (criteria.addResidual condition).residualConditions.Perm
        (criteria.residualConditions ++ [condition]) :=
      flatMap_addToGroups_perm condition criteria.residual
    have hrest := (ih (criteria.addResidual condition)).trans (hstep.append_right rest)
    rwa [List.append_assoc] at hrest

theorem addResidual_ne (criteria : Criteria) (condition : Condition) :
    criteria.addResidual condition ≠ criteria := by
  intro hsame
  -- there is one residual condition more
  have hlength := (residualConditions_foldl_perm [condition] criteria).length_eq
  rw [List.foldl_cons, List.foldl_nil, hsame, List.length_append] at hlength
  exact absurd hlength (by simp)

/-- **A value binds the hash property unless it is already bound to it.** -/
theorem bindProperty_hashKey_eq_iff {value : Json} (hnull : value.isNull = false) :
    (criteria.bindProperty keys keys.schema.hashKey value).criteria = criteria ↔
      criteria.hashValue.any (·.same value) = true := by
  have hstep := bindProperty_step keys criteria keys.schema.hashKey value
  generalize criteria.bindProperty keys keys.schema.hashKey value = outcome at hstep ⊢
  cases hstep with
  | refused h => rw [hnull] at h; cases h
  | hash _ _ hfree =>
    rw [hfree]
    refine iff_of_false (fun h => ?_) Bool.false_ne_true
    have hvalue : some value = criteria.hashValue := congrArg hashValue h
    rw [hfree] at hvalue
    cases hvalue
  | range _ hkey => exact absurd hkey keys.schema.rangeKey_ne_hashKey
  | again bound _ hbound hsame =>
    rw [boundValue?_hashKey] at hbound
    rw [hbound]
    exact iff_of_true rfl hsame
  | residual _ _ hnew =>
    rw [boundValue?_hashKey] at hnew
    refine iff_of_false (addResidual_ne criteria _) ?_
    rw [Bool.not_eq_true, Option.any_eq_false]
    exact hnew

end Criteria

namespace EntityKeys

variable {keys : EntityKeys} {criteria : Criteria} {condition : Condition}

/-! ### Equalities that break off -/

/-- **An equality that breaks off:** it is on a composite id with a component for the hash property
and with `null` for the range property. -/
structure BreaksOff (keys : EntityKeys) (condition : Condition) (hash : Json) (range : String) :
    Prop where
  composite : keys.schema.isCompositeId condition.property = true
  equality : condition.operator = .eq
  components : ∃ value, condition.values = [value] ∧ value ≠ .null ∧
    keys.decompose value = { hash := some hash, range := some .null }
  rangeKey : keys.schema.rangeKey = some range
  hash_not_null : hash ≠ .null

theorem BreaksOff.isNull_hash {hash : Json} {range : String}
    (h : keys.BreaksOff condition hash range) : hash.isNull = false :=
  Json.isNull_eq_false_iff.mpr h.hash_not_null

/-- There are at most two components. -/
theorem components_eq_append {value : Json} {before after : List (String × Json)}
    {part : String × Json} (h : keys.components value = before ++ part :: after) :
    before = [] ∨ ∃ hash, before = [(keys.schema.hashKey, hash)] ∧
      keys.decompose value = { hash := some hash, range := some part.2 } ∧
      keys.schema.rangeKey = some part.1 := by
  have hsingle {before : List (String × Json)} {found : Option (String × Json)}
      (h : found.toList = before ++ part :: after) : before = [] ∧ found = some part := by
    cases found with
    | none => exact absurd h.symm (by simp)
    | some other =>
      obtain ⟨rfl, hcons⟩ := (List.append_eq_singleton_iff.mp h.symm).resolve_right (by simp)
      exact ⟨rfl, congrArg some (List.cons.inj hcons).1.symm⟩
  unfold components at h
  generalize keys.decompose value = parts at h ⊢
  obtain ⟨hash, range⟩ := parts
  cases hash with
  | none => exact .inl (hsingle h).1
  | some hash =>
    cases before with
    | nil => exact .inl rfl
    | cons first rest =>
      obtain ⟨rfl, hrest⟩ := List.cons.inj h
      obtain ⟨rfl, hpart⟩ := hsingle hrest
      obtain ⟨property, hkey, hpart⟩ := Option.bind_eq_some_iff.mp hpart
      obtain ⟨component, rfl, rfl⟩ := Option.map_eq_some_iff.mp hpart
      exact .inr ⟨hash, rfl, rfl, hkey⟩

/-- **What an equality that breaks off has done:** the hash property is equated with its
component. -/
theorem BreaksOff.add_eq {hash : Json} {range : String} (h : keys.BreaksOff condition hash range) :
    criteria.add keys condition =
      ⟨(criteria.bindProperty keys keys.schema.hashKey hash).criteria,
        some (.nullKeyValue range)⟩ := by
  obtain ⟨value, hvalues, hnull, hdecompose⟩ := h.components
  have hop : condition.operator.isCompositeIdOperator = true := by rw [h.equality]; rfl
  have hparts : keys.components value = [(keys.schema.hashKey, hash), (range, .null)] := by
    unfold EntityKeys.components
    rw [hdecompose, h.rangeKey]
    rfl
  -- the hash component is bound before the other one is looked at
  have hfirst : (criteria.bindProperty keys keys.schema.hashKey hash).error = none := by
    rw [Criteria.bindProperty_error, h.isNull_hash, Bool.false_and, if_neg Bool.false_ne_true]
  rw [Criteria.add_of_isCompositeId h.composite hop hvalues
    (Json.isNull_eq_false_iff.mpr hnull), hparts, Criteria.routeParts,
    if_neg (by simp), if_pos h.equality, Criteria.bindParts,
    Criteria.Outcome.andThen_of_error_eq_none hfirst]
  show (Criteria.bindProperty _ _ _ _).andThen _ = _
  rw [Criteria.bindProperty_null (KeySchema.has_rangeKey h.rangeKey)]
  rfl

/-- **Nothing else that is refused changes the criteria.** -/
theorem add_of_error {cause : PlanError} (h : (criteria.add keys condition).error = some cause) :
    (criteria.add keys condition).criteria = criteria ∨
      ∃ hash range, keys.BreaksOff condition hash range := by
  have hstep := Criteria.add_step keys criteria condition
  generalize criteria.add keys condition = outcome at h hstep ⊢
  cases hstep with
  | bound => exact .inl (Criteria.bindProperty_of_error h).2.2
  | residual => cases h
  | ambiguous | null => exact .inl rfl
  | @parts value hid hop hvalues hnull =>
    rcases Criteria.routeParts_of_error h with hsame | ⟨hequality, hbound⟩
    · exact .inl hsame
    · rw [hbound] at h ⊢
      obtain ⟨before, part, after, hparts, hpart, hbefore, hreached⟩ :=
        Criteria.bindParts_of_error h
      rcases components_eq_append hparts with rfl | ⟨hash, rfl, hdecompose, hkey⟩
      · exact .inl hreached
      · rw [Json.isNull_iff.mp hpart] at hdecompose
        rw [Criteria.bindParts_error (by simpa using keys.schema.has_hashKey)] at hbefore
        have hhash : hash.isNull = false := by simpa using hbefore
        exact .inr ⟨hash, part.1, hid, hequality,
          ⟨value, hvalues, Json.isNull_eq_false_iff.mp hnull, hdecompose⟩, hkey,
          Json.isNull_eq_false_iff.mp hhash⟩

/-- The decomposition of a schema leaves `null` out. -/
theorem not_breaksOff_entity {schema : KeySchema} {hash : Json} {range : String} :
    ¬ schema.entity.BreaksOff condition hash range := by
  intro h
  obtain ⟨value, -, -, hdecompose⟩ := h.components
  have hrange : (schema.decompose value).range = some .null := congrArg Components.range hdecompose
  obtain ⟨property, -, hfield⟩ := Option.bind_eq_some_iff.mp hrange
  exact absurd (Option.filter_eq_some_iff.mp hfield).2 (by decide)

/-- **What a refused condition leaves behind.** The criteria are as they were, with one exception:
an equality that breaks off equates the hash property first, which changes the criteria unless the
value is known.  With the decomposition of a schema there is no exception. -/
theorem add_refused (keys : EntityKeys) (criteria : Criteria) :
    (∀ property value,
      criteria.bind keys property value = criteria.add keys (.equals property value)) ∧
    (∀ condition cause, (criteria.add keys condition).error = some cause →
      ((criteria.add keys condition).criteria = criteria ↔
        ∀ hash range, keys.BreaksOff condition hash range →
          criteria.hashValue.any (·.same hash) = true) ∧
      ∀ hash range, keys.BreaksOff condition hash range →
        cause = .nullKeyValue range ∧
          (criteria.add keys condition).criteria =
            (criteria.bindProperty keys keys.schema.hashKey hash).criteria) ∧
    ∀ (schema : KeySchema) condition cause,
      (criteria.add schema.entity condition).error = some cause →
        (criteria.add schema.entity condition).criteria = criteria := by
  refine ⟨fun property value => rfl, fun condition cause hcause => ⟨⟨?_, ?_⟩, ?_⟩, ?_⟩
  · intro hsame hash range hbreaks
    rw [hbreaks.add_eq] at hsame
    exact (Criteria.bindProperty_hashKey_eq_iff hbreaks.isNull_hash).mp hsame
  · intro hknown
    rcases add_of_error hcause with hsame | ⟨hash, range, hbreaks⟩
    · exact hsame
    · rw [hbreaks.add_eq]
      exact (Criteria.bindProperty_hashKey_eq_iff hbreaks.isNull_hash).mpr
        (hknown hash range hbreaks)
  · intro hash range hbreaks
    rw [hbreaks.add_eq] at hcause ⊢
    exact ⟨(Option.some.inj hcause).symm, rfl⟩
  · intro schema condition cause hcause
    rcases add_of_error hcause with hsame | ⟨hash, range, hbreaks⟩
    · exact hsame
    · exact absurd hbreaks not_breaksOff_entity

/-- A customer and no day, when another customer is known already: the new one is one more
condition. -/
theorem add_refused_other_customer :
    let keys := KeySchema.orders.pairEntity
    let criteria : Criteria := { hashValue := some (.string "ada") }
    let condition : Condition := .equals "id" (.array [.string "bob", .null])
    (criteria.add keys condition).error = some (.nullKeyValue "day") ∧
      keys.BreaksOff condition (.string "bob") "day" ∧
      (criteria.add keys condition).criteria =
        criteria.addResidual (.equals "customer" (.string "bob")) ∧
      (criteria.add keys condition).criteria ≠ criteria := by
  intro keys criteria condition
  have hcause : (criteria.add keys condition).error = some (.nullKeyValue "day") := rfl
  have hbreaks : keys.BreaksOff condition (.string "bob") "day" :=
    ⟨rfl, rfl, ⟨_, rfl, nofun, rfl⟩, rfl, nofun⟩
  obtain ⟨hiff, hrouted⟩ := (add_refused keys criteria).2.1 condition _ hcause
  refine ⟨hcause, hbreaks, (hrouted _ _ hbreaks).2, fun hsame => ?_⟩
  exact absurd (hiff.mp hsame _ _ hbreaks) (by decide)

/-- A customer and no day are refused for the day, with the customer bound. -/
theorem add_refused_after_customer :
    let keys := KeySchema.orders.pairEntity
    let condition : Condition := .equals "id" (.array [.string "ada", .null])
    Criteria.Reachable keys .empty ∧
      (Criteria.empty.add keys condition).error = some (.nullKeyValue "day") ∧
      Criteria.empty.hashValue = none ∧
      (Criteria.empty.add keys condition).criteria.hashValue = some (.string "ada") :=
  ⟨.empty, rfl, rfl, rfl⟩

/-! ### Without `null` -/

/-- **The same entity type without components that are `null`.** -/
def withoutNulls (keys : EntityKeys) : EntityKeys where
  schema := keys.schema
  decompose value :=
    { hash := (keys.decompose value).hash.filter fun part => !part.isNull
      range := (keys.decompose value).range.filter fun part => !part.isNull }

theorem components_withoutNulls (keys : EntityKeys) (value : Json) :
    keys.withoutNulls.components value =
      (keys.components value).filter fun part => !part.2.isNull := by
  have hfilter (property : String) (found : Option Json) :
      ((found.filter fun part => !part.isNull).map (property, ·)).toList =
        (found.map (property, ·)).toList.filter fun part => !part.2.isNull := by
    cases found with
    | none => rfl
    | some part =>
      rw [Option.filter_some]
      cases hnull : part.isNull <;> simp [hnull]
  unfold components
  dsimp only [withoutNulls]
  rw [List.filter_append, hfilter]
  cases keys.schema.rangeKey with
  | none => rfl
  | some property => exact congrArg _ (hfilter property _)

theorem bindParts_withoutNulls (keys : EntityKeys) (criteria : Criteria)
    (parts : List (String × Json)) :
    criteria.bindParts keys.withoutNulls parts = criteria.bindParts keys parts := by
  induction parts generalizing criteria with
  | nil => rfl
  | cons part rest ih =>
    exact congrArg (Criteria.Outcome.andThen _) (funext fun reached => ih reached)

theorem routeParts_withoutNulls (keys : EntityKeys) (criteria : Criteria)
    (hop : condition.operator.isCompositeIdOperator = true) (parts : List (String × Json)) :
    criteria.routeParts keys.withoutNulls condition hop parts =
      criteria.routeParts keys condition hop parts := by
  unfold Criteria.routeParts
  rw [bindParts_withoutNulls]

/-- The components that are not `null`. -/
abbrev present (parts : List (String × Json)) : List (String × Json) :=
  parts.filter fun part => !part.2.isNull

theorem find?_present (parts : List (String × Json)) :
    ((present parts).find? fun part => part.2.isNull) = none := by
  refine List.find?_eq_none.mpr fun part hpart => ?_
  simpa using (List.mem_filter.mp hpart).2

/-- A composite id is invalid only if it has no components. -/
theorem routeParts_error_eq_invalid_iff (hop : condition.operator.isCompositeIdOperator = true)
    {parts : List (String × Json)}
    (hkeys : ∀ part ∈ parts, keys.schema.primary.has part.1 = true) :
    (criteria.routeParts keys condition hop parts).error =
        some (.invalidCompositeId condition.property) ↔ parts = [] := by
  rw [Criteria.routeParts_error hop hkeys, ← List.isEmpty_iff]
  split
  next hnone => exact iff_of_true rfl hnone
  next hsome =>
    refine iff_of_false (fun herror => ?_) hsome
    split at herror
    next =>
      obtain ⟨first, -, hcause⟩ := Option.map_eq_some_iff.mp herror
      cases hcause
    next => split at herror <;> cases herror

/-- An equality with a component that is `null` is refused for the first of them. -/
theorem routeParts_error_of_null (criteria : Criteria)
    (hop : condition.operator.isCompositeIdOperator = true)
    {parts : List (String × Json)}
    (hkeys : ∀ part ∈ parts, keys.schema.primary.has part.1 = true)
    (hequality : condition.operator = .eq) {part : String × Json} (hpart : part ∈ parts)
    (hnull : part.2 = .null) :
    ∃ first ∈ parts, first.2 = .null ∧
      (criteria.routeParts keys condition hop parts).error = some (.nullKeyValue first.1) := by
  have hsome : (parts.find? fun part => part.2.isNull).isSome = true :=
    List.find?_isSome.mpr ⟨part, hpart, Json.isNull_iff.mpr hnull⟩
  obtain ⟨first, hfirst⟩ := Option.isSome_iff_exists.mp hsome
  have hfirstNull := List.find?_some (p := fun part : String × Json => part.2.isNull) hfirst
  refine ⟨first, List.mem_of_find?_eq_some hfirst, Json.isNull_iff.mp hfirstNull, ?_⟩
  rw [Criteria.routeParts_error hop hkeys,
    if_neg (mt List.isEmpty_iff.mp (List.ne_nil_of_mem hpart)), if_pos hequality, hfirst]
  rfl

/-- Any other condition that is not refused is stated for every component, `null` or not. -/
theorem residualConditions_routeParts_perm (hop : condition.operator.isCompositeIdOperator = true)
    {parts : List (String × Json)} (hother : condition.operator ≠ .eq)
    (hnone : (criteria.routeParts keys condition hop parts).error = none) :
    (criteria.routeParts keys condition hop parts).criteria.residualConditions.Perm
      (criteria.residualConditions ++ parts.map (condition.onPart hop)) := by
  unfold Criteria.routeParts at hnone ⊢
  split at hnone
  next => cases hnone
  next hsome =>
    rw [if_neg hsome, if_neg hother]
    split at hnone
    next => cases hnone
    next hnamed =>
      rw [if_neg hnamed]
      exact Criteria.residualConditions_foldl_perm _ criteria

/-- An equality with a component that is `null` is refused for it; without that component it is not
refused, or there is no component left. -/
theorem routeParts_ne_of_eq (hop : condition.operator.isCompositeIdOperator = true)
    {parts : List (String × Json)}
    (hkeys : ∀ part ∈ parts, keys.schema.primary.has part.1 = true)
    (hequality : condition.operator = .eq) {part : String × Json} (hpart : part ∈ parts)
    (hnull : part.2 = .null) :
    criteria.routeParts keys condition hop parts ≠
      criteria.routeParts keys condition hop (present parts) := by
  intro hsame
  obtain ⟨first, -, -, herror⟩ :=
    routeParts_error_of_null criteria hop hkeys hequality hpart hnull
  rw [hsame, Criteria.routeParts_error hop fun other hother =>
    hkeys other (List.mem_filter.mp hother).1, if_pos hequality, find?_present] at herror
  split at herror <;> cases herror

/-- Any other condition is stated for a component that is `null` as well. -/
theorem routeParts_ne_of_ne (hop : condition.operator.isCompositeIdOperator = true)
    {parts : List (String × Json)}
    (hkeys : ∀ part ∈ parts, keys.schema.primary.has part.1 = true)
    (hother : condition.operator ≠ .eq)
    (hnamed : ∀ part ∈ parts, part.1 = "" → part.2 = .null)
    {part : String × Json} (hpart : part ∈ parts) (hnull : part.2 = .null) :
    criteria.routeParts keys condition hop parts ≠
      criteria.routeParts keys condition hop (present parts) := by
  intro hsame
  cases herror : (criteria.routeParts keys condition hop parts).error with
  | none =>
    -- nothing is refused, but the component that is `null` makes one condition more
    have hall := residualConditions_routeParts_perm hop hother herror
    have hleft := residualConditions_routeParts_perm hop hother (hsame ▸ herror)
    rw [hsame] at hall
    have hlength := (hall.symm.trans hleft).length_eq
    rw [List.length_append, List.length_append, List.length_map, List.length_map,
      Nat.add_left_cancel_iff] at hlength
    have hfull := List.length_filter_eq_length_iff.mp hlength.symm part hpart
    rw [hnull] at hfull
    cases hfull
  | some cause =>
    -- the components of properties without names are all `null`
    have hpresent : ((present parts).any fun part => part.1 = "") = false := by
      rw [List.any_eq_false]
      intro other hmem hname
      obtain ⟨hmem, hfull⟩ := List.mem_filter.mp hmem
      rw [hnamed other hmem (of_decide_eq_true hname)] at hfull
      cases hfull
    have hleft := congrArg Criteria.Outcome.error hsame
    rw [herror, Criteria.routeParts_error hop fun other hother =>
      hkeys other (List.mem_filter.mp hother).1, if_neg hother, hpresent,
      if_neg Bool.false_ne_true] at hleft
    rw [Criteria.routeParts_error hop hkeys,
      if_neg (mt List.isEmpty_iff.mp (List.ne_nil_of_mem hpart)), if_neg hother] at herror
    split at herror
    next =>
      obtain rfl := Option.some.inj herror
      split at hleft <;> cases hleft
    next => cases herror

/-- **When components that are `null` do not matter:** there are none, or the condition is refused
for the name of another component anyway. -/
theorem routeParts_eq_present_iff (hop : condition.operator.isCompositeIdOperator = true)
    {parts : List (String × Json)}
    (hkeys : ∀ part ∈ parts, keys.schema.primary.has part.1 = true) :
    criteria.routeParts keys condition hop parts =
        criteria.routeParts keys condition hop (present parts) ↔
      (∀ part ∈ parts, part.2 ≠ .null) ∨
        condition.operator ≠ .eq ∧ ∃ part ∈ parts, part.1 = "" ∧ part.2 ≠ .null := by
  constructor
  · intro hsame
    by_contra hneither
    obtain ⟨hsome, hnamed⟩ := not_or.mp hneither
    push Not at hsome hnamed
    obtain ⟨part, hpart, hnull⟩ := hsome
    by_cases hequality : condition.operator = .eq
    · exact routeParts_ne_of_eq hop hkeys hequality hpart hnull hsame
    · exact routeParts_ne_of_ne hop hkeys hequality (hnamed hequality) hpart hnull hsame
  · rintro (hfull | ⟨hother, part, hpart, hname, hfull⟩)
    · have hall : present parts = parts := by
        refine List.filter_eq_self.mpr fun part hpart => ?_
        rw [Bool.not_eq_true', Json.isNull_eq_false_iff]
        exact hfull part hpart
      rw [hall]
    · have hpresent : part ∈ present parts := by
        refine List.mem_filter.mpr ⟨hpart, ?_⟩
        rw [Bool.not_eq_true', Json.isNull_eq_false_iff]
        exact hfull
      rw [Criteria.routeParts_of_nameless hop hother hpart hname,
        Criteria.routeParts_of_nameless hop hother hpresent hname]

/-- **What `null` among the components of a composite id does.** A condition on it is routed as it
is without components that are `null` exactly if there are none, or if another component belongs to
a property without a name.  An id is invalid if it has no component, and one that is `null` counts:
equalities are refused for it, and other conditions state it. -/
theorem add_eq_withoutNulls_iff {value : Json}
    (hid : keys.schema.isCompositeId condition.property = true)
    (hop : condition.operator = .eq ∨ condition.operator = .contains ∨
      condition.operator = .beginsWith)
    (hvalues : condition.values = [value]) (hnull : value ≠ .null) :
    (criteria.add keys condition = criteria.add keys.withoutNulls condition ↔
      (∀ part ∈ keys.components value, part.2 ≠ .null) ∨
        condition.operator ≠ .eq ∧ ∃ part ∈ keys.components value, part.1 = "" ∧ part.2 ≠ .null) ∧
    ((criteria.add keys condition).error = some (.invalidCompositeId condition.property) ↔
      keys.components value = []) ∧
    ∀ part ∈ keys.components value, part.2 = .null →
      (condition.operator = .eq →
        ∃ first ∈ keys.components value, first.2 = .null ∧
          (criteria.add keys condition).error = some (.nullKeyValue first.1)) ∧
      (condition.operator ≠ .eq → (criteria.add keys condition).error = none →
        ∃ stated ∈ (criteria.add keys condition).criteria.residualConditions,
          stated.property = part.1 ∧ stated.operator = condition.operator ∧
            stated.values = [.null]) := by
  have hcarried : condition.operator.isCompositeIdOperator = true := by
    rcases hop with hop | hop | hop <;> rw [hop] <;> rfl
  have hfull : value.isNull = false := Json.isNull_eq_false_iff.mpr hnull
  have hkeys : ∀ part ∈ keys.components value, keys.schema.primary.has part.1 = true :=
    fun part => has_of_mem_components
  have hrouted (keys : EntityKeys) (hid : keys.schema.isCompositeId condition.property = true) :
      criteria.add keys condition =
        criteria.routeParts keys condition hcarried (keys.components value) :=
    Criteria.add_of_isCompositeId hid hcarried hvalues hfull
  refine ⟨?_, ?_, fun part hpart hpartNull => ⟨fun hequality => ?_, fun hother hnone => ?_⟩⟩
  · rw [hrouted keys hid, hrouted keys.withoutNulls hid, components_withoutNulls,
      routeParts_withoutNulls]
    exact routeParts_eq_present_iff hcarried hkeys
  · rw [hrouted keys hid]
    exact routeParts_error_eq_invalid_iff hcarried hkeys
  · rw [hrouted keys hid]
    exact routeParts_error_of_null criteria hcarried hkeys hequality hpart hpartNull
  · rw [hrouted keys hid] at hnone ⊢
    have hstated := residualConditions_routeParts_perm hcarried hother hnone
    refine ⟨condition.onPart hcarried part, hstated.mem_iff.mpr ?_, rfl, rfl, ?_⟩
    · exact List.mem_append_right _ (List.mem_map_of_mem hpart)
    · rw [← hpartNull]
      rfl

/-- A part of a customer and no day: the condition is stated for the day as well. -/
theorem add_eq_withoutNulls_iff_missing_day :
    let keys := KeySchema.orders.pairEntity
    let value : Json := .array [.string "ada", .null]
    let condition : Condition := ⟨"id", .contains, [value], rfl⟩
    let reached := Criteria.empty.add keys condition
    reached ≠ Criteria.empty.add keys.withoutNulls condition ∧
      reached.error = none ∧
      ∃ stated ∈ reached.criteria.residualConditions,
        stated.property = "day" ∧ stated.operator = .contains ∧ stated.values = [.null] := by
  intro keys value condition reached
  have hmissing : ("day", Json.null) ∈ keys.components value := .tail _ (.head _)
  have hid : keys.schema.isCompositeId condition.property = true := rfl
  have hvalues : condition.values = [value] := rfl
  obtain ⟨hsame, -, hstated⟩ :=
    add_eq_withoutNulls_iff hid (.inr (.inl rfl)) hvalues (show value ≠ .null from nofun)
  refine ⟨fun heq => ?_, rfl, (hstated _ hmissing rfl).2 (by decide) rfl⟩
  rcases hsame.mp heq with hfull | ⟨-, part, hpart, hname, -⟩
  · exact hfull _ hmissing rfl
  · rcases List.mem_pair.mp hpart with rfl | rfl <;> exact absurd hname (by decide)

/-- A customer and no day.  The equality is refused for the day, and a part of the customer is asked
for together with a part of `null`; with the day left out, the customer is bound, or a part of the
customer asked for alone. -/
theorem add_counts_missing_day :
    let keys := KeySchema.orders.pairEntity
    let value : Json := .array [.string "ada", .null]
    let equality : Condition := .equals "id" value
    let part : Condition := ⟨"id", .contains, [value], rfl⟩
    Criteria.Reachable keys .empty ∧
      (Criteria.empty.add keys equality).error = some (.nullKeyValue "day") ∧
      (Criteria.empty.add keys.withoutNulls equality).error = none ∧
      ((Criteria.empty.add keys part).criteria.residual.map fun group => group.1) =
        ["customer", "day"] ∧
      ((Criteria.empty.add keys.withoutNulls part).criteria.residual.map fun group => group.1) =
        ["customer"] :=
  ⟨.empty, rfl, rfl, rfl, rfl⟩

end EntityKeys

end AccessPlanner
