import AccessPlanner.Proofs.Criteria.Ranking
import AccessPlanner.Proofs.Criteria.Rearrangement
import AccessPlanner.Proofs.Plan.Configuration
import AccessPlanner.Proofs.Plan.Conservation
import AccessPlanner.Proofs.Plan.Legality
import AccessPlanner.Proofs.Plan.Outcome

/-!
# The order of the conditions

The first equality of a key property binds it, so the order of the conditions decides which of
several values is bound, and what is left over as the rest.  It does not decide more than that.

What two rearranged lists of conditions demand is compared in `Demand.Alike`.  A key property has a
value in both demands or in none, and a property without a value has the same conditions in both
rests; hence an index serves both demands or none of them (`Alike.serve?`), and the best one is
the same.  If the key properties are equated with one value each, the values are the same as well.
If one of them is not, a condition on a property that has a value is left over in both
(`Alike.clash`), which rules out the plans that serve everything by the primary hash property.
-/

namespace AccessPlanner

/-- **Every key property is equated with one value at most.** -/
def IsSingleValued (schema : KeySchema) (conditions : List Condition) : Prop :=
  ∀ property, schema.primary.has property = true →
    ∀ a b, Condition.equals property a ∈ conditions → Condition.equals property b ∈ conditions →
      a.same b = true

theorem IsSingleValued.rearranged {schema : KeySchema} {conditions others : List Condition}
    (h : Rearranged conditions others) (hsingle : IsSingleValued schema conditions) :
    IsSingleValued schema others := by
  intro property hkey a b ha hb
  obtain ⟨a', ha', hsame⟩ := h.symm.exists_equals ha
  obtain ⟨b', hb', hsame'⟩ := h.symm.exists_equals hb
  -- back to the first list, and forth again
  have hab := Json.same_trans hsame (hsingle property hkey a' b' ha' hb')
  exact Json.same_trans hab ((Json.same_comm _ _).trans hsame')

namespace Demand

theorem arranged_perm (conditions : List Condition) : (arranged conditions).Perm conditions := by
  have hgroups := Criteria.flatMap_groupsOf_perm conditions
  rwa [Criteria.groupsOf, List.flatMap_map] at hgroups

theorem arranged_congr {conditions others : List Condition} (h : Rearranged conditions others) :
    Rearranged (arranged conditions) (arranged others) :=
  ((Rearranged.of_perm (arranged_perm conditions)).trans h).trans
    (.of_perm (arranged_perm others).symm)

/-! ### The demands of rearranged lists -/

/-- **Two demands that are alike.** If they are *settled*, their values and their rests are the
same; if not, neither of them leaves the properties with values alone. -/
structure Alike (schema : KeySchema) (settled : Prop) (demand other : Demand) : Prop where
  hash : Option.Rel (fun a b => settled → a.same b = true) demand.hash other.hash
  range : Option.Rel (fun a b => settled → a.same b = true) demand.range other.range
  restOn : ∀ property, demand.value? schema property = none →
    Rearranged (demand.restOn property) (other.restOn property)
  rest : settled → Rearranged demand.rest other.rest
  clash : ¬settled →
    (∃ condition ∈ demand.rest, (demand.value? schema condition.property).isSome = true) ∧
      ∃ condition ∈ other.rest, (other.value? schema condition.property).isSome = true

variable {schema : KeySchema} {conditions others : List Condition}

theorem isSome_value?_rearranged (h : Rearranged conditions others) {property : String}
    (hsome : ((Demand.of schema conditions).value? schema property).isSome = true) :
    ((Demand.of schema others).value? schema property).isSome = true := by
  obtain ⟨hkey, value, hmem⟩ := isSome_value?_iff.mp hsome
  obtain ⟨other, hother, -⟩ := h.exists_equals hmem
  exact isSome_value?_iff.mpr ⟨hkey, other, hother⟩

theorem has_of_value? {property : String} {value : Json}
    (h : (Demand.of schema conditions).value? schema property = some value) :
    schema.primary.has property = true :=
  (isSome_value?_iff.mp (Option.isSome_of_eq_some h)).1

theorem value?_rearranged (schema : KeySchema) (h : Rearranged conditions others)
    (property : String) :
    Option.Rel (fun a b => IsSingleValued schema conditions → a.same b = true)
      ((Demand.of schema conditions).value? schema property)
      ((Demand.of schema others).value? schema property) := by
  cases hvalue : (Demand.of schema conditions).value? schema property with
  | none =>
    cases hother : (Demand.of schema others).value? schema property with
    | none => exact .none
    | some other =>
      have hsome := isSome_value?_rearranged h.symm (Option.isSome_of_eq_some hother)
      rw [hvalue] at hsome
      cases hsome
  | some value =>
    obtain ⟨other, hother⟩ := Option.isSome_iff_exists.mp
      (isSome_value?_rearranged h (Option.isSome_of_eq_some hvalue))
    rw [hother]
    refine .some fun hsingle => ?_
    obtain ⟨twin, htwin, hsame⟩ := h.exists_equals (equals_mem_of_value? hvalue)
    exact Json.same_trans hsame (hsingle.rearranged h property (has_of_value? hvalue) twin other
      htwin (equals_mem_of_value? hother))

/-- A property without a value keeps all its conditions. -/
theorem restOn_of {property : String}
    (hfree : (Demand.of schema conditions).value? schema property = none) :
    (Demand.of schema conditions).restOn property =
      conditions.filter fun condition => condition.property == property := by
  rw [restOn, of, List.filter_filter]
  refine List.filter_congr fun condition hmem => ?_
  cases hproperty : condition.property == property with
  | false => rfl
  | true =>
    rcases mem_rest_or_repeats schema hmem with hrest | ⟨bound, value, hvalue, -, -⟩
    · exact (List.mem_filter.mp hrest).2
    · rw [beq_iff_eq.mp hproperty, hfree] at hvalue
      cases hvalue

theorem restOn_rearranged (h : Rearranged conditions others) {property : String}
    (hfree : (Demand.of schema conditions).value? schema property = none) :
    Rearranged ((Demand.of schema conditions).restOn property)
      ((Demand.of schema others).restOn property) := by
  have hvalue := value?_rearranged schema h property
  rw [hfree] at hvalue
  have hother : (Demand.of schema others).value? schema property = none := by
    generalize (Demand.of schema others).value? schema property = value at hvalue
    cases hvalue
    rfl
  rw [restOn_of hfree, restOn_of hother]
  exact h.filter fun a b hsame => by rw [hsame.property_eq]

/-- Where the key properties have one value each, the rest is what does not equate any of them. -/
theorem rest_of_isSingleValued (hsingle : IsSingleValued schema conditions) :
    (Demand.of schema conditions).rest =
      conditions.filter fun condition =>
        !(decide (condition.operator = .eq) && schema.primary.has condition.property) := by
  refine List.filter_congr fun condition hmem => congrArg (!·) ?_
  rw [Bool.eq_iff_iff, Bool.and_eq_true, decide_eq_true_iff]
  constructor
  · intro hcovers
    obtain ⟨bound, value, hvalue, heq, -⟩ :=
      @exists_of_covers schema (Demand.of schema conditions) condition hcovers
    exact ⟨by rw [heq]; rfl, has_of_value? hvalue⟩
  · rintro ⟨hop, hkey⟩
    obtain ⟨value, hequality⟩ :=
      Option.isSome_iff_exists.mp (Condition.isSome_equality?_iff.mpr hop)
    have heq := Condition.eq_equals hequality
    rw [heq] at hmem
    obtain ⟨bound, hbound⟩ := Option.isSome_iff_exists.mp
      (isSome_value?_iff.mpr ⟨hkey, value, hmem⟩)
    have hcovers := covers_equals schema (Demand.of schema conditions) condition.property value
    rw [boundValue?_criteria, hbound, Option.any_some, ← heq] at hcovers
    exact hcovers.trans (hsingle _ hkey bound value (equals_mem_of_value? hbound) hmem)

/-- Where some key property has several values, one of them is in the rest. -/
theorem exists_clash (h : ¬IsSingleValued schema conditions) :
    ∃ condition ∈ (Demand.of schema conditions).rest,
      ((Demand.of schema conditions).value? schema condition.property).isSome = true := by
  by_contra hnone
  push Not at hnone
  refine h fun property hkey a b ha hb => ?_
  -- both equalities repeat the value of the property
  have hrepeats : ∀ value, Condition.equals property value ∈ conditions →
      ∃ bound, (Demand.of schema conditions).value? schema property = some bound ∧
        bound.same value = true := by
    intro value hmem
    rcases mem_rest_or_repeats schema hmem with hrest | ⟨bound, other, hbound, heq, hsame⟩
    · exact absurd (isSome_value?_iff.mpr ⟨hkey, value, hmem⟩) (hnone _ hrest)
    · obtain rfl : value = other := (List.cons.inj (congrArg Condition.values heq)).1
      exact ⟨bound, hbound, hsame⟩
  obtain ⟨bound, hbound, hsame⟩ := hrepeats a ha
  obtain ⟨bound', hbound', hsame'⟩ := hrepeats b hb
  rw [hbound] at hbound'
  obtain rfl := Option.some.inj hbound'
  exact Json.same_trans ((Json.same_comm _ _).trans hsame) hsame'

/-- **Rearranged lists demand alike.** -/
theorem alike_of (h : Rearranged conditions others) :
    Alike schema (IsSingleValued schema conditions) (Demand.of schema conditions)
      (Demand.of schema others) where
  hash := by
    have hvalue := value?_rearranged schema h schema.hashKey
    rwa [value?_hashKey, value?_hashKey] at hvalue
  range := by
    cases hkey : schema.rangeKey with
    | none =>
      rw [of, of, hkey]
      exact .none
    | some property =>
      have hvalue := value?_rearranged schema h property
      rwa [value?_rangeKey hkey, value?_rangeKey hkey] at hvalue
  restOn property := restOn_rearranged h
  rest hsingle := by
    rw [rest_of_isSingleValued hsingle, rest_of_isSingleValued (hsingle.rearranged h)]
    exact h.filter fun a b hsame => by rw [hsame.operator_eq, hsame.property_eq]
  clash hmany := ⟨exists_clash hmany, exists_clash fun hsingle => hmany (hsingle.rearranged h.symm)⟩

end Demand

/-! ### Indexes -/

/-- **Two key conditions that are alike:** they come from the same source and property, and ask the
same where the demands are settled. -/
structure KeyCondition.Alike (settled : Prop) (key other : KeyCondition) : Prop where
  source_eq : key.source = other.source
  property_eq : key.condition.property = other.condition.property
  same : settled → key.condition.Same other.condition

/-- **Two matches of one index,** with key conditions that are alike. -/
structure IndexMatch.Alike (settled : Prop) (found other : IndexMatch) : Prop where
  index_eq : found.index = other.index
  hash : found.hash.Alike settled other.hash
  range : Option.Rel (KeyCondition.Alike settled) found.range other.range

/-- Matches that are alike serve the same properties. -/
theorem IndexMatch.Alike.consumes_eq {settled : Prop} {found other : IndexMatch}
    (h : found.Alike settled other) : found.consumes = other.consumes := by
  obtain ⟨index, hash, range⟩ := found
  obtain ⟨index', hash', range'⟩ := other
  funext source property
  unfold consumes keyConditions
  have hrange := h.range
  dsimp only at hrange ⊢
  rw [List.any_cons, List.any_cons, h.hash.source_eq, h.hash.property_eq]
  cases hrange with
  | none => rfl
  | some hkey =>
    rw [Option.toList_some, Option.toList_some, List.any_cons, List.any_cons, hkey.source_eq,
      hkey.property_eq]

namespace Demand.Alike

variable {schema : KeySchema} {settled : Prop} {demand other : Demand}

/-- Demands that are settled have the same values and the same rest. -/
theorem settle (h : Alike schema settled demand other) (hsettled : settled) :
    Option.Rel (fun a b => a.same b = true) demand.hash other.hash ∧
      Option.Rel (fun a b => a.same b = true) demand.range other.range ∧
      Rearranged.BySize demand.rest other.rest := by
  have hsame : ∀ a b : Json, (settled → a.same b = true) → a.same b = true :=
    fun _ _ hrelated => hrelated hsettled
  exact ⟨rel_imp hsame h.hash, rel_imp hsame h.range, (h.rest hsettled).bySize⟩

theorem value (h : Alike schema settled demand other) (property : String) :
    Option.Rel (fun a b => settled → a.same b = true) (demand.value? schema property)
      (other.value? schema property) := by
  unfold value?
  split
  next => exact h.hash
  next =>
    split
    next => exact h.range
    next => exact .none

/-- **What two demands that are alike say of a property:** values, or conditions that are the same
and as many. -/
inductive OnProperty (settled : Prop) :
    Option Json → List Condition → Option Json → List Condition → Prop
  | value {a b : Json} (rest others : List Condition) (hsame : settled → a.same b = true) :
      OnProperty settled (some a) rest (some b) others
  | conditions {rest others : List Condition} (hsize : Rearranged.BySize rest others) :
      OnProperty settled none rest none others

theorem onProperty (h : Alike schema settled demand other) (property : String) :
    OnProperty settled (demand.value? schema property) (demand.restOn property)
      (other.value? schema property) (other.restOn property) := by
  have hvalue := h.value property
  have hrest := h.restOn property
  generalize demand.value? schema property = value at hvalue hrest ⊢
  generalize other.value? schema property = value' at hvalue ⊢
  cases hvalue with
  | some hsame => exact .value _ _ hsame
  | none => exact .conditions (Rearranged.bySize (hrest rfl))

theorem hashOf? (h : Alike schema settled demand other) (property : String) :
    Option.Rel (KeyCondition.Alike settled) (demand.hashOf? schema property)
      (other.hashOf? schema property) := by
  have hproperty := h.onProperty property
  unfold Demand.hashOf?
  generalize demand.value? schema property = value at hproperty ⊢
  generalize demand.restOn property = rest at hproperty ⊢
  generalize other.value? schema property = value' at hproperty ⊢
  generalize other.restOn property = rest' at hproperty ⊢
  cases hproperty with
  | value _ _ hsame =>
    exact .some ⟨rfl, rfl, fun hsettled => .equals property (hsame hsettled)⟩
  | conditions hsize =>
    cases hsize with
    | none => exact .none
    | one hsame =>
      dsimp only
      rw [hsame.operator_eq]
      split
      next => exact .some ⟨rfl, hsame.property_eq, fun _ => hsame⟩
      next => exact .none
    | more => exact .none

theorem rangeOf? (h : Alike schema settled demand other) (property : String) :
    Option.Rel (Option.Rel (KeyCondition.Alike settled)) (demand.rangeOf? schema property)
      (other.rangeOf? schema property) := by
  have hproperty := h.onProperty property
  unfold Demand.rangeOf?
  generalize demand.value? schema property = value at hproperty ⊢
  generalize demand.restOn property = rest at hproperty ⊢
  generalize other.value? schema property = value' at hproperty ⊢
  generalize other.restOn property = rest' at hproperty ⊢
  cases hproperty with
  | value _ _ hsame =>
    exact .some (.some ⟨rfl, rfl, fun hsettled => .equals property (hsame hsettled)⟩)
  | conditions hsize =>
    cases hsize with
    | none => exact .some .none
    | one hsame =>
      dsimp only
      rw [hsame.operator_eq]
      split
      next => exact .some (.some ⟨rfl, hsame.property_eq, fun _ => hsame⟩)
      next => exact .none
    | more => exact .none

/-- **An index serves demands alike.** -/
theorem serve? (h : Alike schema settled demand other) (index : IndexDefinition) :
    Option.Rel (IndexMatch.Alike settled) (demand.serve? schema index)
      (other.serve? schema index) := by
  refine rel_bind (fun hash hash' hhash => ?_) (h.hashOf? index.hashKey)
  cases index.rangeKey with
  | none => exact .some ⟨rfl, hhash, .none⟩
  | some property =>
    exact rel_map (fun _ _ hrange => ⟨rfl, hhash, hrange⟩) (h.rangeOf? property)

/-- **The best index is the same,** if the properties with conditions are. -/
theorem bestIndex? (h : Alike schema settled demand other) (order : IndexOrder)
    {conditions others : List Condition} (hconditions : Rearranged conditions others)
    (sort : Option SortOrder) :
    Option.Rel (IndexMatch.Alike settled) (demand.bestIndex? schema order conditions sort)
      (other.bestIndex? schema order others sort) := by
  refine firstBest?_rel (fun found twin halike => ?_) ?_
  · rw [halike.index_eq]
    exact IndexRank.ofKey_congr hconditions.mem_properties_iff sort _
  · refine List.rel_filterMap ?_ (List.forall₂_same.mpr fun _ _ => rfl)
    rintro index _ rfl
    exact h.serve? index

/-! ### Filters -/

theorem equalities (h : Alike schema settled demand other) (hsettled : settled) :
    List.Forall₂ Condition.Same (demand.equalities schema) (other.equalities schema) := by
  obtain ⟨hhash, hrange, -⟩ := h.settle hsettled
  have hequals : ∀ property, ∀ a b : Json, a.same b = true →
      (Condition.equals property a).Same (.equals property b) := fun property _ _ hsame =>
    .equals property hsame
  refine List.rel_append (forall₂_toList (rel_map (hequals schema.hashKey) hhash)) ?_
  cases schema.rangeKey with
  | none => exact .nil
  | some property => exact forall₂_toList (rel_map (hequals property) hrange)

/-- **The filters of a scan** are the same. -/
theorem filters (h : Alike schema settled demand other) (hsettled : settled) :
    Rearranged (demand.filters schema) (other.filters schema) :=
  (Rearranged.of_forall₂ (h.equalities hsettled)).append (arranged_congr (h.rest hsettled))

/-- **The filters of a query of an index** are the same. -/
theorem filtersAfter (h : Alike schema settled demand other) (hsettled : settled)
    {found twin : IndexMatch} (hfound : found.Alike settled twin) :
    Rearranged (demand.filtersAfter schema found) (other.filtersAfter schema twin) := by
  have hkeep : ∀ source, ∀ a b : Condition, a.Same b →
      (!twin.consumes source a.property) = !twin.consumes source b.property := by
    intro source a b hsame
    rw [hsame.property_eq]
  unfold Demand.filtersAfter
  rw [hfound.consumes_eq]
  exact ((Rearranged.of_forall₂ (h.equalities hsettled)).filter (hkeep .bound)).append
    (arranged_congr ((h.rest hsettled).filter (hkeep .residual)))

end Demand.Alike

/-! ### Plans -/

/-- **Plans that do the same:** the same load, or a query or scan with the same conditions, where
filters may stand in another order. -/
inductive AccessPlan.Matches : AccessPlan → AccessPlan → Prop
  | load {hash hash' : Json} {range range' : Option Json} (hhash : hash.same hash' = true)
      (hrange : Option.Rel (fun a b => a.same b = true) range range') :
      Matches (.load hash range) (.load hash' range')
  | query {indexName : Option String} {sort : Option SortOrder} {hash hash' : Condition}
      {range range' : Option Condition} {filters filters' : List Condition}
      (hhash : hash.Same hash') (hrange : Option.Rel Condition.Same range range')
      (hfilters : Rearranged filters filters') :
      Matches (.query ⟨indexName, hash, range, filters, sort⟩)
        (.query ⟨indexName, hash', range', filters', sort⟩)
  | scan {sort : Option SortOrder} {filters filters' : List Condition}
      (hfilters : Rearranged filters filters') :
      Matches (.scan ⟨filters, sort⟩) (.scan ⟨filters', sort⟩)

/-- **Results of planning the same conditions:** plans of one mode for one index, which do the same
in a settled case, or failures of one kind. -/
def PlansMatch (settled : Prop) :
    Except PlanError AccessPlan → Except PlanError AccessPlan → Prop :=
  PlansRelated fun plan other =>
    plan.mode = other.mode ∧ plan.indexName? = other.indexName? ∧ (settled → plan.Matches other)

namespace Demand

variable {schema : KeySchema} {settled : Prop} {demand other : Demand}

/-- **No plan of the primary hash property** leaves a property with a value alone. -/
theorem keyOutcome?_eq_none (order : IndexOrder) (sort : Option SortOrder) {condition : Condition}
    (hmem : condition ∈ demand.rest)
    (hsome : (demand.value? schema condition.property).isSome = true) :
    demand.keyOutcome? schema order sort = none := by
  obtain ⟨hash, range, rest⟩ := demand
  unfold keyOutcome?
  cases hash with
  | none => rfl
  | some hash =>
    match rest with
    | [] => cases hmem
    | first :: second :: rest => rfl
    | [only] =>
      obtain rfl := List.mem_singleton.mp hmem
      cases range with
      | some range => rfl
      | none =>
        -- only the hash property has a value
        have hhash : condition.property = schema.hashKey := by
          by_contra hne
          rw [value?, if_neg hne, ite_self] at hsome
          cases hsome
        dsimp only
        rw [hhash, Criteria.rangeAddress?_hashKey]
        rfl

variable {hash hash' : Json} {range range' : Option Json}

/-- Values alone are loaded, or queried if the range property has none. -/
theorem keyOutcome?_of_rest_nil (order : IndexOrder) (sort : Option SortOrder)
    (hhash : hash.same hash' = true)
    (hrange : Option.Rel (fun a b => a.same b = true) range range') :
    Option.Rel (PlansMatch settled) (keyOutcome? schema order ⟨some hash, range, []⟩ sort)
      (keyOutcome? schema order ⟨some hash', range', []⟩ sort) := by
  unfold keyOutcome?
  dsimp only
  cases hrange with
  | some hsame =>
    rw [if_pos (.inr rfl), if_pos (.inr rfl)]
    exact .some ⟨rfl, rfl, fun _ => .load hhash (.some hsame)⟩
  | none =>
    split
    next => exact .some ⟨rfl, rfl, fun _ => .load hhash .none⟩
    next =>
      refine .some (plansRelated_checkSort ⟨rfl, rfl, fun _ => ?_⟩ fun _ _ => .rfl)
      exact .query (.equals schema.hashKey hhash) .none (.of_perm (.refl []))

/-- One more condition is served by a range property, or by no key of the primary hash property. -/
theorem keyOutcome?_of_rest_singleton (order : IndexOrder) (sort : Option SortOrder)
    (hhash : hash.same hash' = true)
    (hrange : Option.Rel (fun a b => a.same b = true) range range')
    {only only' : Condition} (hsame : only.Same only') :
    Option.Rel (PlansMatch settled) (keyOutcome? schema order ⟨some hash, range, [only]⟩ sort)
      (keyOutcome? schema order ⟨some hash', range', [only']⟩ sort) := by
  unfold keyOutcome?
  dsimp only
  rw [hsame.property_eq, hsame.operator_eq]
  cases hrange with
  | some => exact .none
  | none =>
    rw [Option.isSome_none, if_neg Bool.false_ne_true, if_neg Bool.false_ne_true]
    cases Criteria.rangeAddress? schema order only'.property with
    | none => exact .none
    | some indexName =>
      refine .some ?_
      cases only'.operator.isKeyOperator with
      | false => rfl
      | true =>
        refine plansRelated_checkSort ⟨rfl, rfl, fun _ => ?_⟩ fun _ _ => .rfl
        exact .query (.equals schema.hashKey hhash) (.some hsame) (.of_perm (.refl []))

/-- **The first three cases of the table** agree. -/
theorem Alike.keyOutcome? (h : Alike schema settled demand other) (order : IndexOrder)
    (sort : Option SortOrder) :
    Option.Rel (PlansMatch settled) (demand.keyOutcome? schema order sort)
      (other.keyOutcome? schema order sort) := by
  by_cases hsettled : settled
  · obtain ⟨hhash, hrange, hsize⟩ := h.settle hsettled
    obtain ⟨hash, range, rest⟩ := demand
    obtain ⟨hash', range', rest'⟩ := other
    dsimp only at hhash hrange hsize
    cases hhash with
    | none => exact .none
    | some hhash =>
      cases hsize with
      | none => exact keyOutcome?_of_rest_nil order sort hhash hrange
      | one hsame => exact keyOutcome?_of_rest_singleton order sort hhash hrange hsame
      | more => exact .none
  · obtain ⟨⟨condition, hmem, hsome⟩, condition', hmem', hsome'⟩ := h.clash hsettled
    rw [keyOutcome?_eq_none order sort hmem hsome, keyOutcome?_eq_none order sort hmem' hsome']
    exact .none

/-- **The table of outcomes does not depend on the order of the conditions.** -/
theorem outcome_rearranged (schema : KeySchema) {conditions others : List Condition}
    (h : Rearranged conditions others) (config : PlannerConfig) (sort : Option SortOrder)
    (projection : Projection) :
    PlansMatch (IsSingleValued schema conditions) (outcome schema config conditions sort projection)
      (outcome schema config others sort projection) := by
  have halike : Alike schema _ (Demand.of schema conditions) (Demand.of schema others) := alike_of h
  have hkey := halike.keyOutcome? config.indexOrder sort
  have hindex := halike.bestIndex? config.indexOrder h sort
  unfold outcome
  dsimp only
  generalize Demand.of schema conditions = demand at halike hkey hindex ⊢
  generalize Demand.of schema others = other at halike hkey hindex ⊢
  generalize demand.keyOutcome? schema config.indexOrder sort = result at hkey ⊢
  generalize other.keyOutcome? schema config.indexOrder sort = result' at hkey ⊢
  generalize demand.bestIndex? schema config.indexOrder conditions sort = best at hindex ⊢
  generalize other.bestIndex? schema config.indexOrder others sort = best' at hindex ⊢
  cases hkey with
  | some hmatch => exact hmatch
  | none =>
    cases hindex with
    | @some found twin hfound =>
      dsimp only
      rw [hfound.index_eq]
      refine plansRelated_checkSort ⟨rfl, rfl, fun hsettled => ?_⟩ fun _ _ => .rfl
      have hrange := rel_map (fun _ _ hkey => hkey.same hsettled) hfound.range
      exact .query (hfound.hash.same hsettled) hrange (halike.filtersAfter hsettled hfound)
    | none =>
      dsimp only
      cases config.allowsScan projection with
      | true => exact ⟨rfl, rfl, fun hsettled => .scan (halike.filters hsettled)⟩
      | false => rfl

end Demand

/-! ### Carried conditions -/

/-- **What a list of conditions demands are these conditions,** up to repetitions. -/
theorem Demand.sameConditions_of (schema : KeySchema) (conditions : List Condition) :
    SameConditions ((Demand.of schema conditions).criteria.conditions schema) conditions := by
  constructor
  · intro condition hmem
    rcases mem_conditions_iff.mp hmem with hequality | hrest
    · obtain ⟨property, value, hvalue, rfl⟩ := mem_equalities_iff.mp hequality
      exact ⟨_, equals_mem_of_value? hvalue, .refl _⟩
    · exact ⟨condition, mem_of_mem_rest hrest, .refl condition⟩
  · intro condition hmem
    rcases mem_rest_or_repeats schema hmem with hrest | ⟨bound, value, hvalue, heq, hsame⟩
    · exact ⟨condition, mem_conditions_iff.mpr (.inr hrest), .refl condition⟩
    · refine ⟨_, mem_conditions_iff.mpr (.inl (mem_equalities_iff.mpr ⟨_, _, hvalue, rfl⟩)), ?_⟩
      rw [heq]
      exact (Condition.Same.equals _ hsame).symm

namespace ConditionSet

/-- **A plan carries the conditions that the set stands for,** up to repetitions. -/
theorem plan_sameConditions {keys : EntityKeys} {config : PlannerConfig} {set : ConditionSet}
    {projection : Projection} {plan : AccessPlan} (h : set.plan keys config projection = .ok plan) :
    SameConditions (plan.carried keys.schema) (set.conditions.flatMap keys.expand) := by
  obtain ⟨criteria, hcriteria, hsound, hplanned⟩ := exists_planned h
  obtain ⟨-, rfl⟩ := (Criteria.ofConditions_eq_ok_iff keys set.conditions criteria).mp hcriteria
  have hperm := hplanned.carried_perm hsound
  exact (Rearranged.of_perm hperm).sameConditions.trans (Demand.sameConditions_of _ _)

/-! ### Condition sets -/

/-- Acceptable conditions are planned by what they demand. -/
theorem plan_of_acceptable {schema : KeySchema} {set : ConditionSet}
    (hvalid : set.validate = .ok ())
    (hacceptable : ∀ condition ∈ set.conditions, schema.entity.refusal? condition = none)
    (config : PlannerConfig) (projection : Projection) :
    set.plan schema.entity config projection =
      (Demand.of schema (set.conditions.flatMap schema.entity.expand)).criteria.plan schema config
        set.sort projection := by
  rw [plan_eq, hvalid,
    (Criteria.ofConditions_eq_ok_iff schema.entity set.conditions _).mpr ⟨hacceptable, rfl⟩]
  rfl

theorem exists_plan_eq_error {keys : EntityKeys} {set : ConditionSet}
    (hrefused : ¬∀ condition ∈ set.conditions, keys.refusal? condition = none)
    (config : PlannerConfig) (projection : Projection) :
    ∃ cause, set.plan keys config projection = .error cause := by
  cases hplan : set.plan keys config projection with
  | error cause => exact ⟨cause, rfl⟩
  | ok plan =>
    obtain ⟨criteria, hcriteria, -, -⟩ := exists_planned hplan
    exact absurd ((Criteria.ofConditions_eq_ok_iff keys set.conditions criteria).mp hcriteria).1
      hrefused

/-- **The order of the conditions does not matter.** Two valid condition sets with the same
conditions in different orders are both planned or both refused.  The plans have the same mode,
query the same index, and carry the same conditions; they are the same but for the order of the
filters if every key property is equated with one value at most.  Refusals are of the same kind if
each condition is acceptable on its own. -/
theorem plan_rearranged {schema : KeySchema} {set other : ConditionSet}
    (hvalid : set.validate = .ok ()) (hother : other.validate = .ok ())
    (hconditions : Rearranged set.conditions other.conditions) (hsort : set.sort = other.sort)
    (config : PlannerConfig) (projection : Projection) :
    match set.plan schema.entity config projection, other.plan schema.entity config projection with
    | .ok plan, .ok twin =>
      plan.mode = twin.mode ∧ plan.indexName? = twin.indexName? ∧
        SameConditions (plan.carried schema) (twin.carried schema) ∧
        (IsSingleValued schema (set.conditions.flatMap schema.entity.expand) → plan.Matches twin)
    | .error cause, .error twin =>
      (∀ condition ∈ set.conditions, schema.entity.refusal? condition = none) →
        cause.kind = twin.kind
    | _, _ => False := by
  by_cases hacceptable : ∀ condition ∈ set.conditions, schema.entity.refusal? condition = none
  · have hacceptable' := (hconditions.forall_refusal?_iff schema).mp hacceptable
    have houtcome := Demand.outcome_rearranged schema (hconditions.expand schema) config set.sort
      projection
    rw [← Demand.plan_criteria, ← Demand.plan_criteria, ← plan_of_acceptable hvalid hacceptable,
      hsort, ← plan_of_acceptable hother hacceptable'] at houtcome
    rcases houtcome.cases with
      ⟨plan, twin, hplan, htwin, hmode, hname, hmatches⟩ | ⟨cause, twin, hcause, htwin, hkind⟩
    · rw [hplan, htwin]
      -- both plans carry what the sets stand for, and the sets stand for the same
      have hcarried := (plan_sameConditions hplan).trans
        ((hconditions.expand schema).sameConditions.trans (plan_sameConditions htwin).symm)
      exact ⟨hmode, hname, hcarried, hmatches⟩
    · rw [hcause, htwin]
      exact fun _ => hkind
  · obtain ⟨cause, hcause⟩ := exists_plan_eq_error hacceptable config projection
    obtain ⟨twin, htwin⟩ := exists_plan_eq_error
      (mt (hconditions.forall_refusal?_iff schema).mpr hacceptable) config projection
    rw [hcause, htwin]
    exact fun hall => absurd hall hacceptable

/-- Open orders of two customers.  The first customer is bound, and the other order of the
conditions leaves one more condition over, but both plans query the same index with the same
conditions. -/
theorem plan_rearranged_two_customers :
    let ada := Condition.equals "customer" (.string "ada")
    let bob := Condition.equals "customer" (.string "bob")
    let opened := Condition.equals "status" (.string "open")
    let set : ConditionSet := { conditions := [ada, opened, ada, bob] }
    let other : ConditionSet := { conditions := [bob, ada, opened, ada] }
    set.validate = .ok () ∧ other.validate = .ok () ∧
      Rearranged set.conditions other.conditions ∧ set.sort = other.sort ∧
      ∃ plan twin, set.plan KeySchema.orders.entity {} .items = .ok plan ∧
        other.plan KeySchema.orders.entity {} .items = .ok twin ∧
        plan.filters = [ada, bob] ∧ twin.filters = [bob, ada, ada] ∧
        plan.indexName? = twin.indexName? ∧
        SameConditions (plan.carried KeySchema.orders) (twin.carried KeySchema.orders) := by
  intro ada bob opened set other
  have hconditions : Rearranged set.conditions other.conditions :=
    .of_perm (List.perm_append_singleton bob [ada, opened, ada])
  have hplan : set.plan KeySchema.orders.entity {} .items =
      .ok (.query ⟨some "byStatus", opened, none, [ada, bob], none⟩) := by
    rfl
  have htwin : other.plan KeySchema.orders.entity {} .items =
      .ok (.query ⟨some "byStatus", opened, none, [bob, ada, ada], none⟩) := by
    rfl
  have hmatch := @plan_rearranged KeySchema.orders set other rfl rfl hconditions rfl {} .items
  rw [hplan, htwin] at hmatch
  exact ⟨rfl, rfl, hconditions, rfl, _, _, hplan, htwin, rfl, rfl, hmatch.2.1, hmatch.2.2.1⟩

end ConditionSet

end AccessPlanner
