import AccessPlanner.Criteria.Basic
import AccessPlanner.Proofs.Except
import AccessPlanner.Proofs.Schema.Rules

/-!
# What routing one condition does

`BindStep` lists what the equality of a property can do and `AddStep` what a condition can do; what
is true of every routing is shown for each of these cases, without another look at how conditions
are routed.

Whether a condition is refused depends on the entity type and the condition alone, not on what was
routed before (`add_error`), so that one can speak of acceptable conditions.  An acceptable
condition is routed as the conditions that it stands for, its *expansion*: the conditions on the
key properties for a condition on a composite id, and itself otherwise.
-/

namespace AccessPlanner

/-! ### Equalities -/

/-- An equality is determined by its property and its value. -/
theorem Condition.eq_equals {condition : Condition} {value : Json}
    (h : condition.equality? = some value) : condition = .equals condition.property value := by
  obtain ⟨property, operator, values, admitted⟩ := condition
  unfold equality? at h
  split at h
  next hop =>
    obtain rfl : operator = .eq := hop
    obtain ⟨only, rfl⟩ : ∃ only, values = [only] :=
      List.length_eq_one_iff.mp (beq_iff_eq.mp admitted)
    obtain rfl : only = value := Option.some.inj h
    rfl
  next => cases h

namespace Criteria

/-! ### Bound values -/

@[simp] theorem boundValue?_hashKey (schema : KeySchema) (criteria : Criteria) :
    criteria.boundValue? schema schema.hashKey = criteria.hashValue :=
  if_pos (beq_self_eq_true _)

theorem boundValue?_rangeKey {schema : KeySchema} {property : String}
    (h : schema.rangeKey = some property) (criteria : Criteria) :
    criteria.boundValue? schema property = criteria.rangeValue := by
  have hhash : ¬ schema.isHashKey property = true := by
    intro heq
    exact schema.rangeKey_ne_hashKey (h.trans (congrArg some (beq_iff_eq.mp heq).symm))
  rw [boundValue?, if_neg hhash, if_pos (by rw [KeySchema.isRangeKey, h, beq_self_eq_true])]

theorem boundValue?_of_has_eq_false {schema : KeySchema} {property : String}
    (h : schema.primary.has property = false) (criteria : Criteria) :
    criteria.boundValue? schema property = none := by
  have hboth : schema.isHashKey property = false ∧ schema.isRangeKey property = false :=
    Bool.or_eq_false_iff.mp h
  rw [boundValue?, hboth.1, hboth.2]
  rfl

/-! ### One equality -/

/-- **All that the equality of a property with a value can do,** where the property is no composite
id: it is refused, it binds a key property, it repeats what a key property is bound to, or it is
one more residual condition. -/
inductive BindStep (schema : KeySchema) (criteria : Criteria) (property : String) (value : Json) :
    Outcome → Prop
  | refused (hnull : value.isNull = true) (hkey : schema.primary.has property = true) :
      BindStep schema criteria property value ⟨criteria, some (.nullKeyValue property)⟩
  | hash (hnull : value.isNull = false) (hkey : property = schema.hashKey)
      (hfree : criteria.hashValue = none) :
      BindStep schema criteria property value ⟨{ criteria with hashValue := some value }, none⟩
  | range (hnull : value.isNull = false) (hkey : schema.rangeKey = some property)
      (hfree : criteria.rangeValue = none) :
      BindStep schema criteria property value ⟨{ criteria with rangeValue := some value }, none⟩
  | again (bound : Json) (hallowed : (value.isNull && schema.primary.has property) = false)
      (hbound : criteria.boundValue? schema property = some bound)
      (hsame : bound.same value = true) :
      BindStep schema criteria property value ⟨criteria, none⟩
  | residual (hallowed : (value.isNull && schema.primary.has property) = false)
      (hkey : schema.primary.has property = true →
        (criteria.boundValue? schema property).isSome = true)
      (hnew : ∀ bound, criteria.boundValue? schema property = some bound →
        bound.same value = false) :
      BindStep schema criteria property value
        ⟨criteria.addResidual (.equals property value), none⟩

theorem BindStep.of_bound {schema : KeySchema} {criteria : Criteria} {property : String}
    {value bound : Json} (hallowed : (value.isNull && schema.primary.has property) = false)
    (hbound : criteria.boundValue? schema property = some bound) :
    BindStep schema criteria property value
      (if bound.same value then ⟨criteria, none⟩
      else ⟨criteria.addResidual (.equals property value), none⟩) := by
  split
  next hsame => exact .again bound hallowed hbound hsame
  next hsame =>
    refine .residual hallowed (fun _ => by rw [hbound]; rfl) fun other hother => ?_
    rw [hbound] at hother
    obtain rfl := Option.some.inj hother
    exact Bool.eq_false_iff.mpr hsame

/-- Binding a property is one of these steps. -/
theorem bindProperty_step (keys : EntityKeys) (criteria : Criteria) (property : String)
    (value : Json) :
    BindStep keys.schema criteria property value (criteria.bindProperty keys property value) := by
  have hhas : keys.schema.primary.has property =
      (keys.schema.isHashKey property || keys.schema.isRangeKey property) := rfl
  unfold bindProperty
  dsimp only
  rw [← hhas]
  -- refusals first, then the cases of the property, as in `bindProperty`
  cases hallowed : value.isNull && keys.schema.primary.has property with
  | true =>
    rw [if_pos rfl]
    rw [Bool.and_eq_true] at hallowed
    exact .refused hallowed.1 hallowed.2
  | false =>
    rw [if_neg (by simp)]
    have hnull : keys.schema.primary.has property = true → value.isNull = false := by
      intro h
      rwa [h, Bool.and_true] at hallowed
    cases hhash : keys.schema.isHashKey property with
    | true =>
      obtain rfl : keys.schema.hashKey = property := beq_iff_eq.mp hhash
      rw [if_pos rfl]
      cases hvalue : criteria.hashValue with
      | none => exact .hash (hnull (by rw [hhas, hhash, Bool.true_or])) rfl hvalue
      | some bound => exact .of_bound hallowed ((boundValue?_hashKey _ _).trans hvalue)
    | false =>
      rw [if_neg (by simp)]
      cases hrange : keys.schema.isRangeKey property with
      | true =>
        have hkey : keys.schema.rangeKey = some property := beq_iff_eq.mp hrange
        rw [if_pos rfl]
        cases hvalue : criteria.rangeValue with
        | none => exact .range (hnull (by rw [hhas, hrange, Bool.or_true])) hkey hvalue
        | some bound => exact .of_bound hallowed ((boundValue?_rangeKey hkey _).trans hvalue)
      | false =>
        rw [hhash, hrange, Bool.or_self] at hhas
        rw [if_neg (by simp)]
        refine .residual hallowed (fun h => ?_) fun other hother => ?_
        · rw [hhas] at h
          cases h
        · rw [boundValue?_of_has_eq_false hhas] at hother
          cases hother

/-- Only `null` for a key property is refused. -/
theorem bindProperty_error (keys : EntityKeys) (criteria : Criteria) (property : String)
    (value : Json) :
    (criteria.bindProperty keys property value).error =
      if value.isNull && keys.schema.primary.has property then some (.nullKeyValue property)
      else none := by
  have hstep := bindProperty_step keys criteria property value
  generalize criteria.bindProperty keys property value = outcome at hstep ⊢
  cases hstep with
  | refused hnull hkey => rw [hnull, hkey, Bool.and_self, if_pos rfl]
  | hash hnull => rw [hnull, Bool.false_and, if_neg (by simp)]
  | range hnull => rw [hnull, Bool.false_and, if_neg (by simp)]
  | again _ hallowed => rw [hallowed, if_neg (by simp)]
  | residual hallowed => rw [hallowed, if_neg (by simp)]

end Criteria

/-! ### Components of composite ids -/

namespace EntityKeys

variable {keys : EntityKeys}

/-- The components of a composite id with the key properties they are for, the hash property
first. -/
def components (keys : EntityKeys) (value : Json) : List (String × Json) :=
  let hash := (keys.decompose value).hash.map (keys.schema.hashKey, ·)
  let range := keys.schema.rangeKey.bind fun property =>
    (keys.decompose value).range.map (property, ·)
  hash.toList ++ range.toList

theorem components_eq (keys : EntityKeys) (value : Json) :
    keys.components value =
      (Criteria.keyComponents keys value).1.toList ++
        (Criteria.keyComponents keys value).2.toList := rfl

/-- A component belongs to a property of the primary key. -/
theorem property_of_mem_components {value : Json} {part : String × Json}
    (h : part ∈ keys.components value) :
    part.1 = keys.schema.hashKey ∨ keys.schema.rangeKey = some part.1 := by
  rcases List.mem_append.mp h with hhash | hrange
  · obtain ⟨component, -, rfl⟩ := Option.map_eq_some_iff.mp (Option.mem_toList.mp hhash)
    exact .inl rfl
  · obtain ⟨property, hkey, hpart⟩ := Option.bind_eq_some_iff.mp (Option.mem_toList.mp hrange)
    obtain ⟨component, -, rfl⟩ := Option.map_eq_some_iff.mp hpart
    exact .inr hkey

theorem has_of_mem_components {value : Json} {part : String × Json}
    (h : part ∈ keys.components value) : keys.schema.primary.has part.1 = true := by
  rcases property_of_mem_components h with hhash | hrange
  · rw [hhash]
    exact keys.schema.has_hashKey
  · exact KeySchema.has_rangeKey hrange

end EntityKeys

namespace Criteria

theorem Outcome.error_andThen (outcome : Outcome) (route : Criteria → Outcome) :
    (outcome.andThen route).error = outcome.error.or (route outcome.criteria).error := by
  obtain ⟨criteria, error⟩ := outcome
  cases error <;> rfl

theorem Outcome.andThen_of_error_eq_none {outcome : Outcome} (h : outcome.error = none)
    (route : Criteria → Outcome) : outcome.andThen route = route outcome.criteria := by
  unfold andThen
  rw [h]

theorem Outcome.andThen_of_error_eq_some {outcome : Outcome} {cause : PlanError}
    (h : outcome.error = some cause) (route : Criteria → Outcome) :
    outcome.andThen route = outcome := by
  unfold andThen
  rw [h]

def bindParts (keys : EntityKeys) : Criteria → List (String × Json) → Outcome
  | criteria, [] => ⟨criteria, none⟩
  | criteria, (property, value) :: rest =>
    (criteria.bindProperty keys property value).andThen fun reached => reached.bindParts keys rest

/-- **What an equality does:** it binds the components of a composite id, if there are any, and its
own property otherwise. -/
theorem bind_eq (keys : EntityKeys) (criteria : Criteria) (property : String) (value : Json) :
    criteria.bind keys property value =
      if keys.schema.isCompositeId property then
        if value.isNull then ⟨criteria, some (.nullKeyValue property)⟩
        else if (keys.components value).isEmpty then
          ⟨criteria, some (.invalidCompositeId property)⟩
        else criteria.bindParts keys (keys.components value)
      else criteria.bindProperty keys property value := by
  -- nothing is routed after the last component:
  have hlast : ∀ (reached : Criteria) (part : String × Json),
      reached.bindProperty keys part.1 part.2 = reached.bindParts keys [part] := by
    intro reached part
    rw [bindParts, Outcome.andThen]
    generalize reached.bindProperty keys part.1 part.2 = outcome
    obtain ⟨criteria, error⟩ := outcome
    cases error <;> rfl
  rw [bind, EntityKeys.components_eq]
  split
  next =>
    split
    next => rfl
    next =>
      match keyComponents keys value with
      | (none, none) => rfl
      | (none, some range) => exact hlast criteria range
      | (some hash, none) => rfl
      | (some hash, some range) =>
        exact congrArg ((criteria.bindProperty keys hash.1 hash.2).andThen ·)
          (funext fun reached => hlast reached range)
  next => rfl

/-- Equalities of key properties are refused for the first `null` among the values. -/
theorem bindParts_error {keys : EntityKeys} {criteria : Criteria} {parts : List (String × Json)}
    (hkeys : ∀ part ∈ parts, keys.schema.primary.has part.1 = true) :
    (criteria.bindParts keys parts).error =
      (parts.find? fun part => part.2.isNull).map fun part => .nullKeyValue part.1 := by
  induction parts generalizing criteria with
  | nil => rfl
  | cons part rest ih =>
    obtain ⟨hfirst, hrest⟩ := List.forall_mem_cons.mp hkeys
    rw [bindParts, Outcome.error_andThen, bindProperty_error, hfirst, Bool.and_true, ih hrest,
      List.find?_cons]
    cases part.2.isNull <;> rfl

end Criteria

/-! ### Expansion -/

theorem Operator.admits_one {operator : Operator} (h : operator.isCompositeIdOperator = true) :
    operator.arity.admits 1 = true := by
  revert h
  cases operator <;> decide

theorem Condition.exists_values_eq {condition : Condition}
    (h : condition.operator.isCompositeIdOperator = true) :
    ∃ value, condition.values = [value] := by
  obtain ⟨property, operator, values, admitted⟩ := condition
  have hone : operator.arity = .exactly 1 := by
    revert h
    cases operator <;> simp [Operator.isCompositeIdOperator, Operator.arity]
  rw [hone] at admitted
  exact List.length_eq_one_iff.mp (beq_iff_eq.mp admitted)

/-- **The conditions that a condition stands for.** A condition on a composite id stands for the
same condition on each component. -/
def EntityKeys.expand (keys : EntityKeys) (condition : Condition) : List Condition :=
  if keys.schema.isCompositeId condition.property then
    if h : condition.operator.isCompositeIdOperator then
      (keys.components (.ofOption condition.values.head?)).map fun part =>
        ⟨part.1, condition.operator, [part.2], condition.operator.admits_one h⟩
    else []
  else [condition]

/-- The condition on a component that a condition on a composite id stands for. -/
def Condition.onPart (condition : Condition)
    (hop : condition.operator.isCompositeIdOperator = true) (part : String × Json) : Condition :=
  ⟨part.1, condition.operator, [part.2], condition.operator.admits_one hop⟩

theorem Condition.onPart_of_eq {condition : Condition} (h : condition.operator = .eq)
    (hop : condition.operator.isCompositeIdOperator = true) (part : String × Json) :
    condition.onPart hop part = .equals part.1 part.2 := by
  obtain ⟨property, operator, values, admitted⟩ := condition
  obtain rfl : operator = .eq := h
  rfl

namespace Criteria

variable {keys : EntityKeys} {criteria : Criteria} {condition : Condition}

theorem expand_of_isCompositeId_eq_false
    (h : keys.schema.isCompositeId condition.property = false) :
    keys.expand condition = [condition] := by
  unfold EntityKeys.expand
  rw [h]
  rfl

theorem expand_of_isCompositeId (hid : keys.schema.isCompositeId condition.property = true)
    (hop : condition.operator.isCompositeIdOperator = true) {value : Json}
    (hvalues : condition.values = [value]) :
    keys.expand condition = (keys.components value).map (condition.onPart hop) := by
  unfold EntityKeys.expand
  rw [if_pos hid, dif_pos hop, hvalues]
  rfl

/-- A condition on a composite id stands for conditions on components only. -/
theorem exists_of_mem_expand {stated : Condition}
    (hid : keys.schema.isCompositeId condition.property = true)
    (h : stated ∈ keys.expand condition) :
    ∃ hop value, condition.values = [value] ∧
      ∃ part ∈ keys.components value, condition.onPart hop part = stated := by
  by_cases hop : condition.operator.isCompositeIdOperator = true
  · obtain ⟨value, hvalues⟩ := Condition.exists_values_eq hop
    rw [expand_of_isCompositeId hid hop hvalues] at h
    exact ⟨hop, value, hvalues, List.mem_map.mp h⟩
  · unfold EntityKeys.expand at h
    rw [if_pos hid, dif_neg hop] at h
    cases h

/-! ### Conditions on composite ids -/

/-- **Routing the components of a composite id.** -/
def routeParts (keys : EntityKeys) (criteria : Criteria) (condition : Condition)
    (hop : condition.operator.isCompositeIdOperator = true) (parts : List (String × Json)) :
    Outcome :=
  if parts.isEmpty then ⟨criteria, some (.invalidCompositeId condition.property)⟩
  else if condition.operator = .eq then criteria.bindParts keys parts
  else if parts.any fun part => part.1 = "" then
    ⟨criteria, some (.ambiguousCompositeId condition.property condition.operator)⟩
  else ⟨(parts.map (condition.onPart hop)).foldl addResidual criteria, none⟩

/-- A condition that is no equality cannot be stated for a property without a name. -/
theorem routeParts_of_nameless (hop : condition.operator.isCompositeIdOperator = true)
    (hother : condition.operator ≠ .eq) {parts : List (String × Json)} {part : String × Json}
    (hpart : part ∈ parts) (hname : part.1 = "") :
    criteria.routeParts keys condition hop parts =
      ⟨criteria, some (.ambiguousCompositeId condition.property condition.operator)⟩ := by
  have hnameless : (parts.any fun part => part.1 = "") = true :=
    List.any_eq_true.mpr ⟨part, hpart, decide_eq_true hname⟩
  unfold routeParts
  rw [if_neg (mt List.isEmpty_iff.mp (List.ne_nil_of_mem hpart)), if_neg hother, if_pos hnameless]

theorem componentConditions_eq (hop : condition.operator.isCompositeIdOperator = true)
    (value : Json) :
    componentConditions keys condition value =
      if (keys.components value).any fun part => part.1 = "" then
        .error (.ambiguousCompositeId condition.property condition.operator)
      else .ok ((keys.components value).map (condition.onPart hop)) := by
  -- the components are visited one by one, and only a name can be missing
  rw [← mapM_ite_error]
  refine congrArg (List.mapM · (keys.components value)) (funext fun part => ?_)
  by_cases hname : part.1 = ""
  · have hmake : Condition.make part.1 condition.operator [part.2] = .error .emptyProperty :=
      if_pos hname
    dsimp only
    rw [hmake, if_pos (decide_eq_true hname)]
    rfl
  · have hproperty : (condition.onPart hop part).property ≠ "" := hname
    have hmake : Condition.make part.1 condition.operator [part.2] =
        .ok (condition.onPart hop part) := Condition.make_of_ne_empty hproperty
    dsimp only
    rw [hmake, if_neg (by rwa [decide_eq_true_eq])]
    rfl

theorem add_of_isCompositeId (hid : keys.schema.isCompositeId condition.property = true)
    (hop : condition.operator.isCompositeIdOperator = true) {value : Json}
    (hvalues : condition.values = [value]) (hnull : value.isNull = false) :
    criteria.add keys condition =
      criteria.routeParts keys condition hop (keys.components value) := by
  -- equalities are routed before the operator is looked at
  unfold add routeParts
  by_cases hequality : condition.operator = .eq
  · have hvalue : condition.equality? = some value := by
      rw [Condition.equality?, if_pos hequality, hvalues, List.head?_cons]
    rw [hvalue, if_pos hequality]
    dsimp only
    rw [bind_eq, if_pos hid, if_neg (by rw [hnull]; simp)]
  · have hnone : condition.equality? = none := if_neg hequality
    rw [hnone, if_neg hequality]
    dsimp only
    rw [if_pos hid, if_pos hop, addCompositeId, hvalues, List.head?_cons]
    dsimp only
    rw [if_neg (by rw [hnull]; simp), componentConditions_eq hop]
    cases keys.components value with
    | nil => rfl
    | cons part rest =>
      rw [List.isEmpty_cons, if_neg Bool.false_ne_true]
      cases (part :: rest).any fun part => part.1 = "" <;> rfl

theorem add_of_isNull (hid : keys.schema.isCompositeId condition.property = true)
    (hop : condition.operator.isCompositeIdOperator = true) {value : Json}
    (hvalues : condition.values = [value]) (hnull : value.isNull = true) :
    criteria.add keys condition = ⟨criteria, some (.nullKeyValue condition.property)⟩ := by
  unfold add
  by_cases hequality : condition.operator = .eq
  · have hvalue : condition.equality? = some value := by
      rw [Condition.equality?, if_pos hequality, hvalues, List.head?_cons]
    rw [hvalue]
    dsimp only
    rw [bind_eq, if_pos hid, if_pos hnull]
  · have hnone : condition.equality? = none := if_neg hequality
    rw [hnone]
    dsimp only
    rw [if_pos hid, if_pos hop, addCompositeId, hvalues, List.head?_cons]
    exact if_pos hnull

theorem add_of_not_isCompositeIdOperator
    (hid : keys.schema.isCompositeId condition.property = true)
    (hop : condition.operator.isCompositeIdOperator = false) :
    criteria.add keys condition =
      ⟨criteria, some (.ambiguousCompositeId condition.property condition.operator)⟩ := by
  have hnone : condition.equality? = none := by
    refine if_neg fun heq => ?_
    rw [heq] at hop
    cases hop
  unfold add
  rw [hnone]
  dsimp only
  rw [if_pos hid, if_neg (by rw [hop]; simp)]

theorem add_of_equality (hid : keys.schema.isCompositeId condition.property = false) {value : Json}
    (hequality : condition.equality? = some value) :
    criteria.add keys condition = criteria.bindProperty keys condition.property value := by
  unfold add
  rw [hequality]
  dsimp only
  rw [bind_eq, if_neg (by rw [hid]; simp)]

theorem add_of_not_equality (hid : keys.schema.isCompositeId condition.property = false)
    (hequality : condition.equality? = none) :
    criteria.add keys condition = ⟨criteria.addResidual condition, none⟩ := by
  unfold add
  rw [hequality]
  dsimp only
  rw [if_neg (by rw [hid]; simp)]

/-- **All that routing a condition can do.** A condition on a plain property is an equality, which
is bound, or residual.  A condition on a composite id is refused for its operator, refused for
`null`, or routed to its components. -/
inductive AddStep (keys : EntityKeys) (criteria : Criteria) (condition : Condition) : Outcome → Prop
  | bound {value : Json} (hid : keys.schema.isCompositeId condition.property = false)
      (hequality : condition.equality? = some value) :
      AddStep keys criteria condition (criteria.bindProperty keys condition.property value)
  | residual (hid : keys.schema.isCompositeId condition.property = false)
      (hequality : condition.equality? = none) :
      AddStep keys criteria condition ⟨criteria.addResidual condition, none⟩
  | ambiguous (hid : keys.schema.isCompositeId condition.property = true)
      (hop : condition.operator.isCompositeIdOperator = false) :
      AddStep keys criteria condition
        ⟨criteria, some (.ambiguousCompositeId condition.property condition.operator)⟩
  | null {value : Json} (hid : keys.schema.isCompositeId condition.property = true)
      (hop : condition.operator.isCompositeIdOperator = true) (hvalues : condition.values = [value])
      (hnull : value.isNull = true) :
      AddStep keys criteria condition ⟨criteria, some (.nullKeyValue condition.property)⟩
  | parts {value : Json} (hid : keys.schema.isCompositeId condition.property = true)
      (hop : condition.operator.isCompositeIdOperator = true) (hvalues : condition.values = [value])
      (hnull : value.isNull = false) :
      AddStep keys criteria condition
        (criteria.routeParts keys condition hop (keys.components value))

/-- Routing a condition is one of these steps. -/
theorem add_step (keys : EntityKeys) (criteria : Criteria) (condition : Condition) :
    AddStep keys criteria condition (criteria.add keys condition) := by
  cases hid : keys.schema.isCompositeId condition.property with
  | false =>
    cases hequality : condition.equality? with
    | some value =>
      rw [add_of_equality hid hequality]
      exact .bound hid hequality
    | none =>
      rw [add_of_not_equality hid hequality]
      exact .residual hid hequality
  | true =>
    cases hop : condition.operator.isCompositeIdOperator with
    | false =>
      rw [add_of_not_isCompositeIdOperator hid hop]
      exact .ambiguous hid hop
    | true =>
      obtain ⟨value, hvalues⟩ := Condition.exists_values_eq hop
      cases hnull : value.isNull with
      | true =>
        rw [add_of_isNull hid hop hvalues hnull]
        exact .null hid hop hvalues hnull
      | false =>
        rw [add_of_isCompositeId hid hop hvalues hnull]
        exact .parts hid hop hvalues hnull

end Criteria

/-! ### Refusals -/

/-- **The refusal of a condition,** if it is refused when it is routed on its own. -/
def EntityKeys.refusal? (keys : EntityKeys) (condition : Condition) : Option PlanError :=
  (Criteria.empty.add keys condition).error

namespace Criteria

variable {keys : EntityKeys} {condition : Condition}

/-- What is refused of a composite id: that it has no components, an equality with a component that
is `null`, or another condition on a component of a property without a name. -/
theorem routeParts_error {criteria : Criteria}
    (hop : condition.operator.isCompositeIdOperator = true) {parts : List (String × Json)}
    (hkeys : ∀ part ∈ parts, keys.schema.primary.has part.1 = true) :
    (criteria.routeParts keys condition hop parts).error =
      if parts.isEmpty then some (.invalidCompositeId condition.property)
      else if condition.operator = .eq then
        (parts.find? fun part => part.2.isNull).map fun part => .nullKeyValue part.1
      else if parts.any fun part => part.1 = "" then
        some (.ambiguousCompositeId condition.property condition.operator)
      else none := by
  unfold routeParts
  split
  next => rfl
  next =>
    split
    next => exact bindParts_error hkeys
    next => split <;> rfl

/-- **Refusals do not depend on what was routed before.** -/
theorem add_error (keys : EntityKeys) (criteria : Criteria) (condition : Condition) :
    (criteria.add keys condition).error = keys.refusal? condition := by
  unfold EntityKeys.refusal?
  have hstep := add_step keys criteria condition
  generalize criteria.add keys condition = outcome at hstep ⊢
  cases hstep with
  | bound hid hequality =>
    rw [add_of_equality hid hequality, bindProperty_error, bindProperty_error]
  | residual hid hequality => rw [add_of_not_equality hid hequality]
  | ambiguous hid hop => rw [add_of_not_isCompositeIdOperator hid hop]
  | null hid hop hvalues hnull => rw [add_of_isNull hid hop hvalues hnull]
  | @parts value hid hop hvalues hnull =>
    have hkeys : ∀ part ∈ keys.components value, keys.schema.primary.has part.1 = true :=
      fun _ => EntityKeys.has_of_mem_components
    rw [add_of_isCompositeId hid hop hvalues hnull, routeParts_error hop hkeys,
      routeParts_error hop hkeys]

/-- **The step that a condition takes on its own,** with its refusal. -/
theorem refusal?_step (keys : EntityKeys) (condition : Condition) :
    ∃ outcome, AddStep keys .empty condition outcome ∧ outcome.error = keys.refusal? condition :=
  ⟨_, add_step keys .empty condition, rfl⟩

end Criteria

end AccessPlanner
