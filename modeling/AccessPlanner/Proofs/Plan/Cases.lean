import AccessPlanner.Proofs.Criteria.Places
import AccessPlanner.Proofs.Plan.Outcome

/-!
# The cases of planning

`Demand.IsOutcome` says case by case what a list of conditions without composite ids comes to, for
plans and refusals alike.  Each case is put in terms of the conditions, the keys and the requested
order: which values and which rest the conditions have (`Demand.of`), in which key a range property
is addressed (`Criteria.Addresses`), which index is the best one (`IsBestIndex`), which conditions
it leaves over (`leftOver`), and whether a query delivers the order (`QueryOutcome`).

The table of outcomes computes them, one step at a time (`outcome_eq_iff`).  So planning comes to
exactly one of the cases (`ConditionSet.plan_eq_iff_isOutcome`).
-/

namespace AccessPlanner

/-- **What a query comes to:** it delivers the requested order if that is the order of the range
property it addresses, and it is refused otherwise. -/
inductive QueryOutcome (rangeKey : Option String) (query : QueryPlan) :
    Except PlanError AccessPlan → Prop
  | delivered (h : ∀ order, query.sort = some order → rangeKey = some order.property) :
      QueryOutcome rangeKey query (.ok (.query query))
  | refused (order : SortOrder) (hsort : query.sort = some order)
      (hother : rangeKey ≠ some order.property) :
      QueryOutcome rangeKey query (.error (.illegalSortTarget order.property rangeKey))

/-- Whether everything may be scanned. -/
def PlannerConfig.MayScan (config : PlannerConfig) (projection : Projection) : Prop :=
  (projection = .items ∧ config.scanEnabled = true) ∨
    (projection = .count ∧ config.scanCountEnabled = true)

theorem PlannerConfig.allowsScan_iff {config : PlannerConfig} {projection : Projection} :
    config.allowsScan projection = true ↔ config.MayScan projection := by
  cases projection <;> simp [allowsScan, MayScan]

namespace Demand

/-! ### The cases -/

/-- **The cases of the primary hash property,** where it has a value: nothing is left but the
primary key, or one condition on a range property that is addressed with it. -/
inductive KeyCase (schema : KeySchema) (order : IndexOrder) (sort : Option SortOrder) :
    Demand → Except PlanError AccessPlan → Prop
  | load (hash : Json) (range : Option Json)
      (hwhole : schema.rangeKey = none ∨ range.isSome = true) :
      KeyCase schema order sort ⟨some hash, range, []⟩ (.ok (.load hash range))
  | hash (hash : Json) {result : Except PlanError AccessPlan} (hpart : schema.rangeKey ≠ none)
      (hquery : QueryOutcome schema.rangeKey
        ⟨none, .equals schema.hashKey hash, none, [], sort⟩ result) :
      KeyCase schema order sort ⟨some hash, none, []⟩ result
  | operator (hash : Json) (only : Condition) {indexName : Option String}
      (haddress : Criteria.Addresses schema order only.property indexName)
      (hop : only.operator ∉ Operator.forRangeKey) :
      KeyCase schema order sort ⟨some hash, none, [only]⟩
        (.error (.illegalKeyOperator only.property only.operator))
  | range (hash : Json) (only : Condition) {indexName : Option String}
      {result : Except PlanError AccessPlan}
      (haddress : Criteria.Addresses schema order only.property indexName)
      (hop : only.operator ∈ Operator.forRangeKey)
      (hquery : QueryOutcome (some only.property)
        ⟨indexName, .equals schema.hashKey hash, some only, [], sort⟩ result) :
      KeyCase schema order sort ⟨some hash, none, [only]⟩ result

/-- **The index to query:** of those that serve the demand, the first one in the given order that is
in the least place for the properties with conditions. -/
def IsBestIndex (schema : KeySchema) (order : IndexOrder) (sort : Option SortOrder)
    (conditions : List Condition) (found : IndexMatch) : Prop :=
  ∃ listed, order.Lists schema.indexes listed ∧
    IsFirstLeast
      (fun found => found.index.toKeyPair.place (conditions.map (·.property)).toFinset sort)
      (listed.filterMap ((Demand.of schema conditions).serve? schema)) found

/-- **What a query of an index leaves over:** the equalities of properties that its key does not
have, and all of the rest but what is asked of a property of its key that has no value. -/
def leftOver (schema : KeySchema) (demand : Demand) (index : IndexDefinition) : List Condition :=
  let key := index.hashKey :: index.rangeKey.toList
  (demand.equalities schema).filter (fun condition => condition.property ∉ key) ++
    arranged (demand.rest.filter fun condition =>
      condition.property ∉ key ∨ (demand.value? schema condition.property).isSome = true)

/-- **What a list of conditions comes to.** The cases of the primary hash property come before the
query of an index, and this before the scan. -/
inductive IsOutcome (schema : KeySchema) (config : PlannerConfig) (conditions : List Condition)
    (sort : Option SortOrder) (projection : Projection) : Except PlanError AccessPlan → Prop
  | key {result : Except PlanError AccessPlan}
      (hkey : KeyCase schema config.indexOrder sort (Demand.of schema conditions) result) :
      IsOutcome schema config conditions sort projection result
  | index (found : IndexMatch) {result : Except PlanError AccessPlan}
      (hkey : ∀ other, ¬ KeyCase schema config.indexOrder sort (Demand.of schema conditions) other)
      (hbest : IsBestIndex schema config.indexOrder sort conditions found)
      (hquery : QueryOutcome found.index.rangeKey
        ⟨some found.index.name, found.hash.condition, found.range.map fun key => key.condition,
          (Demand.of schema conditions).leftOver schema found.index, sort⟩ result) :
      IsOutcome schema config conditions sort projection result
  | scan
      (hkey : ∀ other, ¬ KeyCase schema config.indexOrder sort (Demand.of schema conditions) other)
      (hindex : ∀ index ∈ schema.indexes, (Demand.of schema conditions).serve? schema index = none)
      (hallowed : config.MayScan projection) :
      IsOutcome schema config conditions sort projection
        (.ok (.scan ⟨(Demand.of schema conditions).filters schema, sort⟩))
  | unsupported
      (hkey : ∀ other, ¬ KeyCase schema config.indexOrder sort (Demand.of schema conditions) other)
      (hindex : ∀ index ∈ schema.indexes, (Demand.of schema conditions).serve? schema index = none)
      (hforbidden : ¬ config.MayScan projection) :
      IsOutcome schema config conditions sort projection
        (.error (.unsupportedAccessPattern
          (((Demand.of schema conditions).filters schema).map fun condition =>
            (condition.property, condition.operator))))

/-! ### Queries -/

theorem queryOutcome_iff {rangeKey : Option String} {query : QueryPlan}
    {result : Except PlanError AccessPlan} :
    (do
      checkSort query.sort rangeKey
      return AccessPlan.query query) = result ↔ QueryOutcome rangeKey query result := by
  constructor
  · rintro rfl
    cases hsort : checkSort query.sort rangeKey with
    | ok done => exact .delivered (checkSort_eq_ok_iff.mp hsort)
    | error cause =>
      obtain ⟨order, hsome, hother, rfl⟩ := checkSort_eq_error_iff.mp hsort
      exact .refused order hsome hother
  · intro h
    cases h with
    | delivered h =>
      rw [checkSort_eq_ok_iff.mpr h]
      rfl
    | refused order hsort hother =>
      rw [checkSort_eq_error_iff.mpr ⟨order, hsort, hother, rfl⟩]
      rfl

variable {schema : KeySchema} {order : IndexOrder} {sort : Option SortOrder} {demand : Demand}

/-- **The first three cases of the table** are those of the primary hash property. -/
theorem keyOutcome?_eq_some_iff {result : Except PlanError AccessPlan} :
    demand.keyOutcome? schema order sort = some result ↔
      KeyCase schema order sort demand result := by
  constructor
  · intro h
    obtain ⟨hash, range, rest⟩ := demand
    unfold keyOutcome? at h
    split at h
    next hash hsome hnil =>
      obtain rfl : _ = some hash := hsome
      obtain rfl : _ = [] := hnil
      split at h
      next hwhole =>
        obtain rfl := Option.some.inj h
        exact .load hash range hwhole
      next hpart =>
        rw [not_or] at hpart
        obtain rfl : range = none := by simpa using hpart.2
        exact .hash hash hpart.1 (queryOutcome_iff.mp (Option.some.inj h))
    next hash only hsome hsingle =>
      obtain rfl : _ = some hash := hsome
      obtain rfl : _ = [only] := hsingle
      split at h
      next => cases h
      next hfree =>
        obtain rfl : range = none := by simpa using hfree
        obtain ⟨indexName, haddress, hresult⟩ := Option.map_eq_some_iff.mp h
        have haddress := Criteria.rangeAddress?_eq_some_iff.mp haddress
        cases hop : only.operator.isKeyOperator with
        | false =>
          rw [hop] at hresult
          obtain rfl := hresult
          exact .operator hash only haddress
            (mt Operator.isKeyOperator_iff.mpr (Bool.eq_false_iff.mp hop))
        | true =>
          rw [hop] at hresult
          exact .range hash only haddress (Operator.isKeyOperator_iff.mp hop)
            (queryOutcome_iff.mp hresult)
    next => cases h
  · intro h
    cases h with
    | load hash range hwhole => exact if_pos hwhole
    | hash hash hpart hquery =>
      refine (if_neg ?_).trans (congrArg some (queryOutcome_iff.mpr hquery))
      simpa using hpart
    | operator hash only haddress hop =>
      have hop := Bool.eq_false_iff.mpr (mt Operator.isKeyOperator_iff.mp hop)
      unfold keyOutcome?
      dsimp only
      rw [Criteria.rangeAddress?_eq_some_iff.mpr haddress, hop]
      rfl
    | range hash only haddress hop hquery =>
      unfold keyOutcome?
      dsimp only
      rw [Criteria.rangeAddress?_eq_some_iff.mpr haddress, Operator.isKeyOperator_iff.mpr hop]
      exact congrArg some (queryOutcome_iff.mpr hquery)

theorem keyOutcome?_eq_none_iff :
    demand.keyOutcome? schema order sort = none ↔
      ∀ other, ¬ KeyCase schema order sort demand other := by
  rw [Option.eq_none_iff_forall_ne_some]
  exact forall_congr' fun _ => not_congr keyOutcome?_eq_some_iff

/-! ### Indexes -/

theorem index_of_serve? {index : IndexDefinition} {found : IndexMatch}
    (h : demand.serve? schema index = some found) : found.index = index :=
  Criteria.index_of_matchIndex? ((matchIndex?_criteria schema demand index).trans h)

/-- **The best index of the table** is the first one in the least place. -/
theorem bestIndex?_eq_some_iff {conditions : List Condition} {found : IndexMatch} :
    (Demand.of schema conditions).bestIndex? schema order conditions sort = some found ↔
      IsBestIndex schema order sort conditions found := by
  -- ranks are places, since the two properties of an index differ
  have hplace : ∀ other ∈ (order.arrange schema.indexes).filterMap
      ((Demand.of schema conditions).serve? schema),
      (IndexRank.ofKey (conditions.map (·.property)) sort other.index.toKeyPair).place =
        other.index.toKeyPair.place (conditions.map (·.property)).toFinset sort := by
    intro other hmem
    obtain ⟨index, hindex, hserve⟩ := List.mem_filterMap.mp hmem
    refine KeyPair.place_ofKey (fun _ => List.mem_toFinset.symm) sort ?_
    rw [index_of_serve? hserve]
    exact KeySchema.index_rangeKey_ne_hashKey (IndexOrder.mem_arrange.mp hindex)
  rw [bestIndex?, firstBest?_eq_some_iff]
  constructor
  · intro h
    exact ⟨_, order.lists_arrange schema.indexes, h.congr hplace⟩
  · rintro ⟨listed, hlisted, h⟩
    rw [KeySchema.lists_iff.mp hlisted] at h
    exact h.congr fun other hmem => (hplace other hmem).symm

theorem bestIndex?_eq_none_iff {conditions : List Condition} :
    demand.bestIndex? schema order conditions sort = none ↔
      ∀ index ∈ schema.indexes, demand.serve? schema index = none := by
  rw [bestIndex?, ← Option.not_isSome_iff_eq_none, isSome_firstBest?_iff, not_not,
    List.filterMap_eq_nil_iff]
  simp only [IndexOrder.mem_arrange]

/-! ### What an index leaves over -/

/-- Where a condition on a property comes from if a key serves it. -/
def source (schema : KeySchema) (demand : Demand) (property : String) : KeySource :=
  if (demand.value? schema property).isSome = true then .bound else .residual

theorem property_of_restOn {property : String} {only : Condition}
    (h : demand.restOn property = [only]) : only.property = property := by
  have hmem : only ∈ demand.restOn property := by
    rw [h]
    exact List.mem_cons_self ..
  exact beq_iff_eq.mp (List.mem_filter.mp hmem).2

/-- **A condition that serves a property** is on the property, and comes from its only source. -/
structure OnProperty (schema : KeySchema) (demand : Demand) (property : String)
    (key : KeyCondition) : Prop where
  property_eq : key.condition.property = property
  source_eq : key.source = demand.source schema property

theorem hashOf?_eq_some {property : String} {key : KeyCondition}
    (h : demand.hashOf? schema property = some key) : OnProperty schema demand property key := by
  unfold hashOf? at h
  split at h
  next value hvalue =>
    obtain rfl := Option.some.inj h
    exact ⟨rfl, by rw [source, hvalue]; rfl⟩
  next only hvalue honly =>
    split at h
    next =>
      obtain rfl := Option.some.inj h
      exact ⟨property_of_restOn honly, by rw [source, hvalue]; rfl⟩
    next => cases h
  next => cases h

theorem rangeOf?_eq_some {property : String} {range : Option KeyCondition}
    (h : demand.rangeOf? schema property = some range) :
    (range = none → demand.value? schema property = none ∧ demand.restOn property = []) ∧
      ∀ key, range = some key → OnProperty schema demand property key := by
  unfold rangeOf? at h
  split at h
  next value hvalue =>
    obtain rfl := Option.some.inj h
    refine ⟨nofun, fun key hkey => ?_⟩
    obtain rfl := Option.some.inj hkey
    exact ⟨rfl, by rw [source, hvalue]; rfl⟩
  next hvalue hnil =>
    obtain rfl := Option.some.inj h
    exact ⟨fun _ => ⟨hvalue, hnil⟩, nofun⟩
  next only hvalue honly =>
    split at h
    next =>
      obtain rfl := Option.some.inj h
      refine ⟨nofun, fun key hkey => ?_⟩
      obtain rfl := Option.some.inj hkey
      exact ⟨property_of_restOn honly, by rw [source, hvalue]; rfl⟩
    next => cases h
  next => cases h

theorem OnProperty.serves_iff {property other : String} {key : KeyCondition} {source : KeySource}
    (h : OnProperty schema demand property key) :
    (key.source == source && key.condition.property == other) = true ↔
      other = property ∧ source = demand.source schema other := by
  rw [Bool.and_eq_true, beq_iff_eq, beq_iff_eq, h.property_eq, h.source_eq]
  constructor
  · rintro ⟨rfl, rfl⟩
    exact ⟨rfl, rfl⟩
  · rintro ⟨rfl, rfl⟩
    exact ⟨rfl, rfl⟩

/-- **What a key serves:** of each of its properties that anything is asked of, all from the only
source. -/
theorem consumes_iff {index : IndexDefinition} {found : IndexMatch}
    (h : demand.serve? schema index = some found) (source : KeySource) {property : String}
    (hasked : (demand.value? schema property).isSome = true ∨ demand.restOn property ≠ []) :
    found.consumes source property = true ↔
      property ∈ index.hashKey :: index.rangeKey.toList ∧
        source = demand.source schema property := by
  unfold serve? at h
  obtain ⟨hash, hhash, hrest⟩ := Option.bind_eq_some_iff.mp h
  have hhash := hashOf?_eq_some hhash
  rw [List.mem_cons, or_and_right]
  cases hkey : index.rangeKey with
  | none =>
    rw [hkey] at hrest
    obtain rfl := Option.some.inj hrest
    simp [IndexMatch.consumes, IndexMatch.keyConditions, hhash.serves_iff]
  | some rangeKey =>
    rw [hkey] at hrest
    obtain ⟨range, hrange, rfl⟩ := Option.map_eq_some_iff.mp hrest
    obtain ⟨hnone, hsome⟩ := rangeOf?_eq_some hrange
    unfold IndexMatch.consumes IndexMatch.keyConditions
    rw [List.any_cons, Bool.or_eq_true, hhash.serves_iff]
    refine or_congr_right ?_
    cases range with
    | none =>
      -- nothing is asked of the range property
      obtain ⟨hvalue, hnil⟩ := hnone rfl
      refine iff_of_false (by simp) ?_
      rintro ⟨hproperty, -⟩
      obtain rfl : property = rangeKey := by simpa using hproperty
      rw [hvalue, hnil] at hasked
      simp at hasked
    | some key => simp [(hsome key rfl).serves_iff]

/-- **The filters of the table** are what the index leaves over. -/
theorem filtersAfter_eq_leftOver {index : IndexDefinition} {found : IndexMatch}
    (h : demand.serve? schema index = some found) :
    demand.filtersAfter schema found = demand.leftOver schema index := by
  unfold filtersAfter leftOver
  congr 1
  · refine List.filter_congr fun condition hmem => ?_
    obtain ⟨property, value, hvalue, rfl⟩ := mem_equalities_iff.mp hmem
    have hsome : (demand.value? schema property).isSome = true := by rw [hvalue]; rfl
    have hsource : demand.source schema property = .bound := if_pos hsome
    have hconsumes := consumes_iff h .bound (.inl hsome)
    rw [hsource, and_iff_left rfl] at hconsumes
    rw [Bool.not_eq_eq_eq_not, Bool.eq_iff_iff]
    simp [Condition.equals, hconsumes]
  · congr 1
    refine List.filter_congr fun condition hmem => ?_
    have hasked : demand.restOn condition.property ≠ [] :=
      List.ne_nil_of_mem (List.mem_filter.mpr ⟨hmem, beq_self_eq_true _⟩)
    have hconsumes := consumes_iff h .residual (.inr hasked)
    have hsource : KeySource.residual = demand.source schema condition.property ↔
        ¬ (demand.value? schema condition.property).isSome = true := by
      unfold source
      split <;> simp [*]
    rw [hsource] at hconsumes
    rw [Bool.not_eq_eq_eq_not, Bool.eq_iff_iff]
    simp [hconsumes]

/-! ### The whole table -/

theorem serve?_of_bestIndex? {conditions : List Condition} {found : IndexMatch}
    (h : demand.bestIndex? schema order conditions sort = some found) :
    demand.serve? schema found.index = some found := by
  obtain ⟨index, -, hserve⟩ := List.mem_filterMap.mp (mem_of_firstBest?_eq_some h)
  rwa [index_of_serve? hserve]

/-- **The table comes to the case that applies.** -/
theorem outcome_eq_iff {config : PlannerConfig} {conditions : List Condition}
    {projection : Projection} {result : Except PlanError AccessPlan} :
    outcome schema config conditions sort projection = result ↔
      IsOutcome schema config conditions sort projection result := by
  unfold outcome
  dsimp only
  constructor
  · rintro rfl
    split
    next hkey => exact .key (keyOutcome?_eq_some_iff.mp hkey)
    next hkey =>
      have hkey := keyOutcome?_eq_none_iff.mp hkey
      split
      next found hbest =>
        rw [filtersAfter_eq_leftOver (serve?_of_bestIndex? hbest)]
        exact .index found hkey (bestIndex?_eq_some_iff.mp hbest) (queryOutcome_iff.mp rfl)
      next hbest =>
        have hindex := bestIndex?_eq_none_iff.mp hbest
        split
        next hallowed => exact .scan hkey hindex (PlannerConfig.allowsScan_iff.mp hallowed)
        next hforbidden =>
          exact .unsupported hkey hindex (mt PlannerConfig.allowsScan_iff.mpr hforbidden)
  · intro h
    cases h with
    | key hkey => rw [keyOutcome?_eq_some_iff.mpr hkey]
    | index found hkey hbest hquery =>
      have hbest := bestIndex?_eq_some_iff.mpr hbest
      rw [keyOutcome?_eq_none_iff.mpr hkey, hbest]
      dsimp only
      rw [filtersAfter_eq_leftOver (serve?_of_bestIndex? hbest)]
      exact queryOutcome_iff.mpr hquery
    | scan hkey hindex hallowed =>
      rw [keyOutcome?_eq_none_iff.mpr hkey, bestIndex?_eq_none_iff.mpr hindex]
      exact if_pos (PlannerConfig.allowsScan_iff.mpr hallowed)
    | unsupported hkey hindex hforbidden =>
      rw [keyOutcome?_eq_none_iff.mpr hkey, bestIndex?_eq_none_iff.mpr hindex]
      exact if_neg (mt PlannerConfig.allowsScan_iff.mp hforbidden)

end Demand

namespace ConditionSet

/-- **Planning comes to one of the cases,** for conditions each of which is acceptable on its own:
to that of the conditions that they stand for, and to no other one. -/
theorem plan_eq_iff_isOutcome {keys : EntityKeys} {set : ConditionSet}
    (hvalid : set.validate = .ok ())
    (hacceptable : ∀ condition ∈ set.conditions, keys.refusal? condition = none)
    (config : PlannerConfig) (projection : Projection) (result : Except PlanError AccessPlan) :
    set.plan keys config projection = result ↔
      Demand.IsOutcome keys.schema config (set.conditions.flatMap keys.expand) set.sort projection
        result := by
  rw [plan_eq_outcome hvalid hacceptable, Demand.outcome_eq_iff]

/-- An order by its id, its day once more, and a second customer: both key properties have values,
the second customer is all that the rest holds, and the index with the key swapped serves the
values.  It cannot deliver the order of the day, which is its hash property. -/
theorem plan_eq_iff_isOutcome_second_customer :
    let keys := KeySchema.orders.entity
    let id := Json.object [("customer", .string "ada"), ("day", .ofNat 1)]
    let set : ConditionSet :=
      { conditions :=
          [.equals "id" id, .equals "day" (.ofNat 1), .equals "customer" (.string "bob")] }
    let query : QueryPlan :=
      { indexName := some "byDay", hash := .equals "day" (.ofNat 1)
        range := some (.equals "customer" (.string "ada"))
        filters := [.equals "customer" (.string "bob")], sort := none }
    set.validate = .ok () ∧
      (∀ condition ∈ set.conditions, keys.refusal? condition = none) ∧
      Demand.IsOutcome keys.schema {} (set.conditions.flatMap keys.expand) none .items
        (.ok (.query query)) ∧
      Demand.IsOutcome keys.schema {} (set.conditions.flatMap keys.expand)
        (some { property := "day" }) .items
        (.error (.illegalSortTarget "day" (some "customer"))) := by
  intro keys id set query
  have hacceptable : ∀ condition ∈ set.conditions, keys.refusal? condition = none := by
    simp only [set, List.forall_mem_cons]
    exact ⟨rfl, rfl, rfl, fun _ h => nomatch h⟩
  refine ⟨rfl, hacceptable, (plan_eq_iff_isOutcome rfl hacceptable {} .items _).mp rfl, ?_⟩
  let sorted : ConditionSet := set.sortBy { property := "day" }
  exact (@plan_eq_iff_isOutcome keys sorted rfl hacceptable {} .items _).mp rfl

end ConditionSet

end AccessPlanner
