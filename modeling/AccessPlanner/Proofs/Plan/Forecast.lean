import AccessPlanner.Proofs.Plan.Configuration

/-!
# What criteria foretell

Two questions can be put to criteria before anything is planned: which index would be queried
(`indexName?`), and whether a query of the primary key will do (`isQueryable`).  The planner decides
by rules of its own, and the answers are compared with its plans here.

They part ways in one situation: the hash property is bound, the range property is not, and one
condition is left (`HashAndOne`).

* The rule for this situation takes the first index of the hash property and the property of the
  condition, whereas `indexName?` names the best index.  The two are the same, unless the properties
  are swapped in an earlier index that is just as good (`indexName?_of_plan`).
* `isQueryable` is content with a condition on any range property, whereas the rule wants a key that
  has the primary hash property as well.  Some other index may still step in; if there is none, only
  a scan is left (`plan_of_isQueryable`).
-/

namespace AccessPlanner

namespace Criteria

variable {schema : KeySchema} {criteria : Criteria}

/-! ### Indexes with a range property -/

/-- An index serves the criteria if both of its properties do. -/
theorem isSome_matchIndex?_of_key {index : IndexDefinition} {hashKey property : String}
    (hkey : index.toKeyPair = ⟨hashKey, some property⟩)
    (hhash : (criteria.indexHash? schema hashKey).isSome = true)
    (hrange : (criteria.indexRange? schema property).isSome = true) :
    (criteria.matchIndex? schema index).isSome = true := by
  obtain ⟨⟨_, _⟩, name⟩ := index
  cases hkey
  obtain ⟨hash, hhash⟩ := Option.isSome_iff_exists.mp hhash
  obtain ⟨range, hrange⟩ := Option.isSome_iff_exists.mp hrange
  simp only [matchIndex?, hhash, hrange, Option.map_some, Option.isSome_some]

/-! ### A hash value and one condition -/

/-- **The hash property is bound and one condition is left.** -/
structure HashAndOne (criteria : Criteria) (value : Json) (only : Condition) : Prop where
  hash : criteria.hashValue = some value
  range : criteria.rangeValue = none
  residual : criteria.residual = [(only.property, [only])]

theorem Sound.property_of_residual (h : Sound schema criteria) {group : String}
    {only : Condition} (hresidual : criteria.residual = [(group, [only])]) :
    group = only.property := by
  obtain ⟨conditions, hgrouped⟩ := h.grouped
  exact ((groupsOf_eq_singleton_iff _ _ _).mp (hgrouped.symm.trans hresidual)).2

namespace HashAndOne

variable {value : Json} {only : Condition}

theorem boundValue?_property (h : HashAndOne criteria value only)
    (hne : only.property ≠ schema.hashKey) :
    criteria.boundValue? schema only.property = none := by
  by_cases hkey : schema.rangeKey = some only.property
  · rw [boundValue?_rangeKey hkey, h.range]
  · exact boundValue?_of_has_eq_false (KeySchema.has_eq_false_iff.mpr ⟨hne.symm, hkey⟩) _

theorem singleResidual?_eq (h : HashAndOne criteria value only) :
    criteria.singleResidual? = some only := by
  rw [singleResidual?, h.residual]

theorem not_isHashOnly (h : HashAndOne criteria value only) : ¬ criteria.isHashOnly = true := by
  intro honly
  have hnil := (isHashOnly_iff.mp honly).2.2
  rw [h.residual] at hnil
  cases hnil

theorem residualFor_property (h : HashAndOne criteria value only) :
    criteria.residualFor only.property = [only] := by
  rw [residualFor, h.residual, lookup?]
  simp

theorem mem_properties_iff (h : HashAndOne criteria value only) (property : String) :
    property ∈ criteria.properties schema ↔
      property = schema.hashKey ∨ property = only.property := by
  rw [properties, h.residual, bound, boundHash?, boundRange?, h.hash, h.range]
  cases schema.rangeKey <;> simp [or_comm]

/-! ### Two keys for two properties -/

/-- The index of the two properties serves both. -/
theorem isSome_matchIndex?_of_aligned (h : HashAndOne criteria value only)
    (hne : only.property ≠ schema.hashKey) (hop : only.operator.isKeyOperator = true)
    {index : IndexDefinition} (hkey : index.toKeyPair = ⟨schema.hashKey, some only.property⟩) :
    (criteria.matchIndex? schema index).isSome = true := by
  refine isSome_matchIndex?_of_key hkey ?_ ?_
  · rw [indexHash?, boundValue?_hashKey, h.hash]
    rfl
  · rw [indexRange?, h.boundValue?_property hne, h.residualFor_property]
    dsimp only
    rw [if_pos hop]
    rfl

/-- The index with the two properties swapped serves both if the condition is an equality. -/
theorem isSome_matchIndex?_of_swapped (h : HashAndOne criteria value only)
    (hne : only.property ≠ schema.hashKey) (heq : only.operator = .eq)
    {index : IndexDefinition} (hkey : index.toKeyPair = ⟨only.property, some schema.hashKey⟩) :
    (criteria.matchIndex? schema index).isSome = true := by
  refine isSome_matchIndex?_of_key hkey ?_ ?_
  · rw [indexHash?, h.boundValue?_property hne, h.residualFor_property]
    dsimp only
    rw [if_pos heq]
    rfl
  · rw [indexRange?, boundValue?_hashKey, h.hash]
    rfl

theorem operator_of_swapped (h : HashAndOne criteria value only)
    (hne : only.property ≠ schema.hashKey) {found : IndexMatch}
    (hmem : found.index ∈ schema.indexes)
    (hmatch : criteria.matchIndex? schema found.index = some found)
    (hkey : found.index.hashKey = only.property) : only.operator = .eq := by
  have hfits := matchIndex?_eq_some hmem hmatch
  have hserves := hfits.hash
  have heq := hfits.hash_eq
  rw [hkey] at hserves
  generalize found.hash = key at hserves heq
  cases hserves with
  | bound value hbound =>
    rw [h.boundValue?_property hne] at hbound
    cases hbound
  | residual other _ honly =>
    rw [h.residualFor_property] at honly
    obtain ⟨rfl, -⟩ := List.cons.inj honly
    exact heq

/-- **Only two keys are exact** for two properties. -/
theorem key_of_tier (h : HashAndOne criteria value only) (hne : only.property ≠ schema.hashKey)
    {sort : Option SortOrder} {key : KeyPair}
    (htier : (IndexRank.ofKey (criteria.properties schema) sort key).tier = 0) :
    key = ⟨schema.hashKey, some only.property⟩ ∨ key = ⟨only.property, some schema.hashKey⟩ := by
  rw [IndexRank.ofKey_tier_eq_zero_iff] at htier
  simp only [h.mem_properties_iff, KeyPair.properties, List.mem_cons, Option.mem_toList] at htier
  have hhash := (htier schema.hashKey).mp (.inl rfl)
  have honly := (htier only.property).mp (.inr rfl)
  obtain ⟨hashKey, rangeKey⟩ := key
  dsimp only at hhash honly
  rcases hhash with hhash | hhash
  · rcases honly with honly | honly
    · exact absurd (honly.trans hhash.symm) hne
    · exact .inl (by rw [hhash, honly])
  · rcases honly with honly | honly
    · exact .inr (by rw [hhash, honly])
    · exact absurd (Option.some.inj (honly.symm.trans hhash)) hne

theorem tier_of_key (h : HashAndOne criteria value only) {sort : Option SortOrder} {key : KeyPair}
    (hkey : key = ⟨schema.hashKey, some only.property⟩ ∨
      key = ⟨only.property, some schema.hashKey⟩) :
    (IndexRank.ofKey (criteria.properties schema) sort key).tier = 0 := by
  rw [IndexRank.ofKey_tier_eq_zero_iff]
  simp only [h.mem_properties_iff]
  intro property
  rcases hkey with rfl | rfl
  · simp [KeyPair.properties]
  · simp [KeyPair.properties, or_comm]

/-! ### The best key for two properties -/

/-- **The keys that are chosen** for a bound hash property and one condition: the key of the two
properties and, for an equality where nothing is to be sorted by, the key with the two swapped. -/
def IsBest (schema : KeySchema) (only : Condition) (sort : Option SortOrder) (key : KeyPair) :
    Prop :=
  key = ⟨schema.hashKey, some only.property⟩ ∨
    key = ⟨only.property, some schema.hashKey⟩ ∧ only.operator = .eq ∧ sort = none

instance (schema : KeySchema) (only : Condition) (sort : Option SortOrder) (key : KeyPair) :
    Decidable (IsBest schema only sort key) :=
  inferInstanceAs (Decidable (_ ∨ _))

variable {sort : Option SortOrder}

/-- Where any key delivers the requested order, the best ones do. -/
theorem IsBest.delivers {key : KeyPair} (hbest : IsBest schema only sort key)
    (hsort : checkSort sort (some only.property) = .ok ()) (wanted : List String)
    (other : KeyPair) (hother : (IndexRank.ofKey wanted sort other).delivers = true) :
    (IndexRank.ofKey wanted sort key).delivers = true := by
  obtain ⟨order, rfl, -⟩ := IndexRank.ofKey_delivers_iff.mp hother
  rcases hbest with rfl | ⟨-, -, hnone⟩
  · exact IndexRank.ofKey_delivers_iff.mpr ⟨order, rfl, checkSort_eq_ok_iff.mp hsort order rfl⟩
  · cases hnone

/-- No key is better than a best one. -/
theorem not_isBetter_of_isBest (h : HashAndOne criteria value only) {key other : KeyPair}
    (hbest : IsBest schema only sort key)
    (hsort : checkSort sort (some only.property) = .ok ()) :
    (IndexRank.ofKey (criteria.properties schema) sort other).isBetter
      (IndexRank.ofKey (criteria.properties schema) sort key) = false := by
  have htier : (IndexRank.ofKey (criteria.properties schema) sort key).tier = 0 :=
    h.tier_of_key (hbest.imp_right And.left)
  have hlength : other.properties.length ≤ key.properties.length := by
    have hkey : key.properties.length = 2 := by rcases hbest with rfl | ⟨rfl, -⟩ <;> rfl
    rw [hkey, KeyPair.properties, List.length_cons]
    cases other.rangeKey <;> simp
  have hcovered := IndexRank.ofKey_covered_le htier hlength
  have hdelivers := hbest.delivers hsort (criteria.properties schema) other
  rw [Bool.eq_false_iff, ne_eq, IndexRank.isBetter_iff]
  rintro (⟨hother, hkey⟩ | ⟨-, hless | ⟨-, hmore⟩⟩)
  · rw [hdelivers hother] at hkey
    cases hkey
  · omega
  · omega

/-- The key of any other candidate is worse than a best one. -/
theorem isBetter_of_not_isBest (h : HashAndOne criteria value only)
    (hne : only.property ≠ schema.hashKey) {key : KeyPair} {found : IndexMatch}
    (hbest : IsBest schema only sort key)
    (hsort : checkSort sort (some only.property) = .ok ())
    (hmem : found.index ∈ schema.indexes)
    (hmatch : criteria.matchIndex? schema found.index = some found)
    (hother : ¬ IsBest schema only sort found.index.toKeyPair) :
    (IndexRank.ofKey (criteria.properties schema) sort key).isBetter
      (IndexRank.ofKey (criteria.properties schema) sort found.index.toKeyPair) = true := by
  have htier : (IndexRank.ofKey (criteria.properties schema) sort key).tier = 0 :=
    h.tier_of_key (hbest.imp_right And.left)
  have hdelivers := hbest.delivers hsort (criteria.properties schema) found.index.toKeyPair
  rw [IndexRank.isBetter_iff]
  by_cases hexact :
      (IndexRank.ofKey (criteria.properties schema) sort found.index.toKeyPair).tier = 0
  · -- the swapped key is as exact, but an order is asked for that it does not deliver
    have hswapped : found.index.toKeyPair = ⟨only.property, some schema.hashKey⟩ :=
      (h.key_of_tier hne hexact).resolve_left fun hkey => hother (.inl hkey)
    have heq := h.operator_of_swapped hne hmem hmatch (congrArg KeyPair.hashKey hswapped)
    obtain ⟨order, rfl⟩ := Option.ne_none_iff_exists'.mp fun hnone =>
      hother (.inr ⟨hswapped, heq, hnone⟩)
    have horder := checkSort_eq_ok_iff.mp hsort order rfl
    refine .inl ⟨?_, ?_⟩
    · rcases hbest with rfl | ⟨-, -, hnone⟩
      · exact IndexRank.ofKey_delivers_iff.mpr ⟨order, rfl, horder⟩
      · cases hnone
    · rw [Bool.eq_false_iff, ne_eq, IndexRank.ofKey_delivers_iff, hswapped]
      rintro ⟨other, hsame, hrange⟩
      obtain rfl := Option.some.inj hsame
      exact hne (Option.some.inj (horder.trans hrange.symm))
  · cases hcase :
        (IndexRank.ofKey (criteria.properties schema) sort found.index.toKeyPair).delivers with
    | true => exact .inr ⟨hdelivers hcase, .inl (by omega)⟩
    | false =>
      cases hkey : (IndexRank.ofKey (criteria.properties schema) sort key).delivers with
      | true => exact .inl ⟨rfl, rfl⟩
      | false => exact .inr ⟨rfl, .inl (by omega)⟩

/-- **The first index with a best key is named.** -/
theorem exists_indexName? (h : HashAndOne criteria value only)
    (hne : only.property ≠ schema.hashKey) (hop : only.operator.isKeyOperator = true)
    (hsort : checkSort sort (some only.property) = .ok ()) (order : IndexOrder)
    {index : IndexDefinition} (hmem : index ∈ schema.indexes)
    (hbest : IsBest schema only sort index.toKeyPair) :
    ∃ before chosen after, order.arrange schema.indexes = before ++ chosen :: after ∧
      IsBest schema only sort chosen.toKeyPair ∧
      (∀ other ∈ before, ¬ IsBest schema only sort other.toKeyPair) ∧
      criteria.indexName? schema order sort = some chosen.name := by
  obtain ⟨chosen, hfind⟩ : ∃ chosen, ((order.arrange schema.indexes).find? fun index =>
      decide (IsBest schema only sort index.toKeyPair)) = some chosen := by
    rw [← Option.isSome_iff_exists, List.find?_isSome]
    exact ⟨index, IndexOrder.mem_arrange.mpr hmem, decide_eq_true hbest⟩
  obtain ⟨hchosen, before, after, harranged, hbefore⟩ := List.find?_eq_some_iff_append.mp hfind
  have hchosen := of_decide_eq_true hchosen
  have hworse : ∀ other ∈ before, ¬ IsBest schema only sort other.toKeyPair := by
    intro other hother
    simpa using hbefore other hother
  refine ⟨before, chosen, after, harranged, hchosen, hworse, ?_⟩
  obtain ⟨found, hfound⟩ : ∃ found, criteria.matchIndex? schema chosen = some found := by
    rw [← Option.isSome_iff_exists]
    rcases hchosen with hkey | ⟨hkey, heq, -⟩
    · exact h.isSome_matchIndex?_of_aligned hne hop hkey
    · exact h.isSome_matchIndex?_of_swapped hne heq hkey
  obtain rfl := index_of_matchIndex? hfound
  have hcandidates : criteria.candidates schema order =
      before.filterMap (criteria.matchIndex? schema) ++
        found :: after.filterMap (criteria.matchIndex? schema) := by
    rw [candidates, harranged, List.filterMap_append, List.filterMap_cons_some hfound]
  have hselect : criteria.selectIndex? schema order sort = some found := by
    unfold selectIndex?
    rw [hcandidates]
    refine firstBest?_append_cons (fun other hother => ?_) fun other _ => ?_
    · obtain ⟨index, hindex, hmatch⟩ := List.mem_filterMap.mp hother
      obtain rfl := index_of_matchIndex? hmatch
      have hmem : other.index ∈ schema.indexes := by
        rw [← (order.arrange_perm _).mem_iff, harranged]
        exact List.mem_append_left _ hindex
      exact h.isBetter_of_not_isBest hne hchosen hsort hmem hmatch (hworse _ hindex)
    · exact h.not_isBetter_of_isBest hchosen hsort
  rw [indexName?, hselect]
  rfl

end HashAndOne

/-! ### The index that is queried -/

/-- **One index overtakes another:** the hash property is bound and an equality is left, the
overtaken index has these two properties for its key, and an index that is earlier in the given
order has them swapped. -/
structure Overtakes (schema : KeySchema) (order : IndexOrder) (criteria : Criteria)
    (swapped planned : IndexDefinition) : Prop where
  keys : ∃ value only, HashAndOne criteria value only ∧ only.operator = .eq ∧
    planned.toKeyPair = ⟨schema.hashKey, some only.property⟩ ∧
    swapped.toKeyPair = ⟨only.property, some schema.hashKey⟩
  earlier : ∃ listed, order.Lists schema.indexes listed ∧ [swapped, planned].Sublist listed

variable {order : IndexOrder} {sort : Option SortOrder}

theorem Overtakes.sublist {swapped planned : IndexDefinition}
    (h : Overtakes schema order criteria swapped planned) :
    [swapped, planned].Sublist (order.arrange schema.indexes) := by
  obtain ⟨listed, hlisted, hearlier⟩ := h.earlier
  rwa [KeySchema.lists_iff.mp hlisted] at hearlier

theorem Overtakes.mem {swapped planned : IndexDefinition}
    (h : Overtakes schema order criteria swapped planned) : planned ∈ schema.indexes :=
  IndexOrder.mem_arrange.mp (h.sublist.subset (List.mem_cons_of_mem _ (List.mem_cons_self ..)))

/-- **The first index of the two properties is named,** or it is overtaken. -/
theorem HashAndOne.indexName?_eq_or {value : Json} {only : Condition} {name : String}
    (h : HashAndOne criteria value only)
    (haddress : rangeAddress? schema order only.property = some (some name))
    (hop : only.operator.isKeyOperator = true)
    (hsort : checkSort sort (some only.property) = .ok ()) :
    criteria.indexName? schema order sort = some name ∨
      sort = none ∧ ∃ swapped planned,
        Overtakes schema order criteria swapped planned ∧ planned.name = name := by
  have hne : only.property ≠ schema.hashKey := by
    intro heq
    rw [heq, rangeAddress?_hashKey] at haddress
    cases haddress
  obtain _ | ⟨_, planned, _, hother, hlisted, hkey, -⟩ := rangeAddress?_eq_some_iff.mp haddress
  have hmem : planned ∈ schema.indexes :=
    hlisted.perm.mem_iff.mp (List.mem_append_right _ (List.mem_cons_self ..))
  have hbest : IsBest schema only sort planned.toKeyPair := .inl hkey
  obtain ⟨before, chosen, after, harranged, hchosen, hworse, hnamed⟩ :=
    h.exists_indexName? hne hop hsort order hmem hbest
  have hchosenListed := KeySchema.lists_iff.mpr harranged.symm
  rcases hchosen with haligned | ⟨hswapped, heq, hnone⟩
  · -- nothing before it has its key, so the property is addressed through it
    have hfirst := rangeAddress?_eq_some_iff.mpr <|
      Addresses.index before chosen after hother hchosenListed haligned
        fun earlier hearlier hsame => hworse earlier hearlier (.inl hsame)
    rw [haddress, Option.some.injEq] at hfirst
    exact .inl (hnamed.trans hfirst.symm)
  · -- the planned index is neither before the chosen one nor is it the chosen one
    have hafter : planned ∈ after := by
      rw [← hchosenListed.perm.mem_iff, List.mem_append, List.mem_cons] at hmem
      rcases hmem with hbefore | rfl | hafter
      · exact absurd hbest (hworse planned hbefore)
      · rw [hkey] at hswapped
        exact absurd (congrArg KeyPair.hashKey hswapped).symm hne
      · exact hafter
    refine .inr ⟨hnone, chosen, planned, ⟨⟨value, only, h, heq, hkey, hswapped⟩,
      _, hchosenListed, ?_⟩, rfl⟩
    exact ((List.singleton_sublist.mpr hafter).cons_cons chosen).trans
      (List.sublist_append_right ..)

/-- **An index that is overtaken is not named** where nothing is to be sorted by. -/
theorem Overtakes.indexName?_ne {swapped planned : IndexDefinition}
    (h : Overtakes schema order criteria swapped planned) :
    criteria.indexName? schema order none ≠ some planned.name := by
  obtain ⟨value, only, hone, heq, hkey, hswapped⟩ := h.keys
  have hmem := h.mem
  have hne : only.property ≠ schema.hashKey := by
    intro hsame
    have hconflict := KeySchema.index_rangeKey_ne_hashKey hmem
    rw [hkey, hsame] at hconflict
    exact hconflict rfl
  have hop : only.operator.isKeyOperator = true := by
    rw [heq]
    rfl
  obtain ⟨before, chosen, after, harranged, -, hworse, hnamed⟩ :=
    hone.exists_indexName? hne hop (rfl : checkSort none _ = _) order hmem (.inl hkey)
  rw [hnamed]
  intro hname
  -- otherwise it would be the first index with a best key
  obtain rfl : chosen = planned := by
    have hchosen : chosen ∈ schema.indexes := by
      rw [← (order.arrange_perm _).mem_iff, harranged]
      exact List.mem_append_right _ (List.mem_cons_self ..)
    have hindex := KeySchema.index?_name hchosen
    rw [Option.some.inj hname, KeySchema.index?_name hmem] at hindex
    exact (Option.some.inj hindex).symm
  have hsub := h.sublist
  have hnodup := (order.arrange_perm schema.indexes).nodup_iff.mpr schema.nodup_indexes
  rw [harranged] at hsub hnodup
  obtain ⟨left, right, hsplit, hleft, hright⟩ := List.sublist_append_iff.mp hsub
  cases left with
  | nil =>
    have hnot : chosen ∉ after := (List.nodup_cons.mp (List.nodup_append.mp hnodup).2.1).1
    rw [List.nil_append] at hsplit
    rw [← hsplit] at hright
    cases hright with
    | cons _ hlater => exact hnot (hlater.subset (by simp))
    | cons_cons _ hlater => exact hnot (hlater.subset (by simp))
  | cons first rest =>
    obtain ⟨rfl, -⟩ := List.cons.inj hsplit
    exact hworse swapped (hleft.subset (List.mem_cons_self ..)) (.inr ⟨hswapped, heq, rfl⟩)

/-- **The index that is queried is the one that was named,** unless nothing is to be sorted by and
it is overtaken. -/
theorem indexName?_of_plan {keys : EntityKeys} {criteria : Criteria} (h : Reachable keys criteria)
    {config : PlannerConfig} {sort : Option SortOrder} {projection : Projection}
    {plan : AccessPlan} {name : String}
    (hplan : criteria.plan keys.schema config sort projection = .ok plan)
    (hname : plan.indexName? = some name) :
    criteria.indexName? keys.schema config.indexOrder sort = some name ↔
      ¬ (sort = none ∧ ∃ swapped planned,
        Overtakes keys.schema config.indexOrder criteria swapped planned ∧
          planned.name = name) := by
  constructor
  · rintro hnamed ⟨rfl, swapped, planned, hovertakes, rfl⟩
    exact hovertakes.indexName?_ne hnamed
  · intro hfree
    cases planned_of_plan hplan with
    | load => cases hname
    | hash => cases hname
    | range value group only indexName hhash hrange hresidual haddress hop hsort =>
      obtain rfl : indexName = some name := hname
      obtain rfl := h.sound.property_of_residual hresidual
      have hone : HashAndOne criteria value only := ⟨hhash, hrange, hresidual⟩
      exact (hone.indexName?_eq_or haddress hop hsort).resolve_right hfree
    | index found hselect =>
      rw [indexName?, hselect]
      exact hname
    | scan => cases hname

/-- Invoices of a customer by their total are queried through one index, and the other one is
named. -/
theorem plan_through_overtaken_index :
    let keys := KeySchema.invoices.entity
    let opened := (empty.add keys (.equals "customer" (.string "ada"))).criteria
    let criteria := (opened.add keys (.equals "total" (.ofNat 100))).criteria
    Reachable keys criteria ∧
      criteria.plan keys.schema {} none .items =
        .ok (.query ⟨some "byCustomer", .equals "customer" (.string "ada"),
          some (.equals "total" (.ofNat 100)), [], none⟩) ∧
      criteria.indexName? keys.schema .declared none = some "byTotal" :=
  ⟨.add (.add .empty _) _, rfl, rfl⟩

/-- Where they are to be sorted by the total, the index that is queried is the one that was
named. -/
theorem indexName?_of_plan_invoices_by_total :
    let keys := KeySchema.invoices.entity
    let opened := (empty.add keys (.equals "customer" (.string "ada"))).criteria
    let criteria := (opened.add keys (.equals "total" (.ofNat 100))).criteria
    let sort : SortOrder := { property := "total" }
    ∃ plan, criteria.plan keys.schema {} (some sort) .items = .ok plan ∧
      plan.indexName? = some "byCustomer" ∧
      criteria.indexName? keys.schema .declared (some sort) = some "byCustomer" := by
  intro keys opened criteria sort
  have hreachable : Reachable keys criteria := .add (.add .empty _) _
  have hplan : criteria.plan keys.schema {} (some sort) .items =
      .ok (.query ⟨some "byCustomer", .equals "customer" (.string "ada"),
        some (.equals "total" (.ofNat 100)), [], some sort⟩) := rfl
  refine ⟨_, hplan, rfl, (indexName?_of_plan hreachable hplan rfl).mpr ?_⟩
  rintro ⟨hnone, -⟩
  cases hnone

/-! ### Whether a query will do -/

theorem isSingleOnRange_iff :
    criteria.isSingleOnRange schema = true ↔
      criteria.rangeValue = none ∧ ∃ group only, criteria.residual = [(group, [only])] ∧
        isSomeRangeKey schema group = true := by
  rw [isSingleOnRange, Bool.and_eq_true, Bool.not_eq_true', hasRange, Option.isSome_eq_false_iff,
    Option.isNone_iff_eq_none]
  refine and_congr_right fun _ => ?_
  split
  next group only hresidual =>
    constructor
    · intro hkey
      exact ⟨group, only, hresidual, hkey⟩
    · rintro ⟨other, single, hother, hkey⟩
      obtain ⟨hpair, -⟩ := List.cons.inj (hresidual.symm.trans hother)
      obtain ⟨rfl, -⟩ := Prod.mk.inj hpair
      exact hkey
  next hresidual =>
    constructor
    · intro h
      cases h
    · rintro ⟨group, only, hgroup, -⟩
      exact absurd hgroup (hresidual group only)

/-- **A query will do** if only the hash property is bound, or if the one condition that is left
suits a range property. -/
theorem isQueryable_iff (hsound : Sound schema criteria) :
    criteria.isQueryable schema = true ↔
      criteria.isHashOnly = true ∨ ∃ value only, HashAndOne criteria value only ∧
        isSomeRangeKey schema only.property = true ∧ only.operator.isKeyOperator = true := by
  have hpermitted : ∀ {group : String} {only : Condition},
      criteria.residual = [(group, [only])] → isSomeRangeKey schema group = true →
        (criteria.areKeyOperatorsPermitted schema = true ↔
          only.operator.isKeyOperator = true) := by
    intro group only hresidual hkey
    rw [areKeyOperatorsPermitted, hresidual]
    simp [hkey]
  rw [isQueryable, Bool.or_eq_true, Bool.and_eq_true, Bool.and_eq_true, isSingleOnRange_iff]
  refine or_congr_right ⟨?_, ?_⟩
  · rintro ⟨⟨hhas, hfree, group, only, hresidual, hkey⟩, hop⟩
    obtain ⟨value, hvalue⟩ := exists_of_hasHash hhas
    obtain rfl := hsound.property_of_residual hresidual
    exact ⟨value, only, ⟨hvalue, hfree, hresidual⟩, hkey, (hpermitted hresidual hkey).mp hop⟩
  · rintro ⟨value, only, hone, hkey, hop⟩
    refine ⟨⟨?_, hone.range, _, only, hone.residual, hkey⟩, (hpermitted hone.residual hkey).mpr hop⟩
    rw [hasHash, hone.hash]
    rfl

/-- A hash value alone is loaded, or queried by. -/
theorem plan_of_isHashOnly (h : criteria.isHashOnly = true) (config : PlannerConfig)
    (projection : Projection) :
    ∃ plan, criteria.plan schema config none projection = .ok plan ∧ plan.mode ≠ "scan" := by
  rw [plan_eq_getD, decided?, loadRule?, hashRule?, if_pos h]
  by_cases hloadable : criteria.isLoadable schema = true
  · rw [if_pos hloadable]
    exact ⟨_, rfl, by simp [AccessPlan.mode]⟩
  · rw [if_neg hloadable]
    exact ⟨_, rfl, by simp [AccessPlan.mode]⟩

/-- A hash value and one condition are left to the last three rules. -/
theorem HashAndOne.decided?_eq {value : Json} {only : Condition}
    (h : HashAndOne criteria value only) (sort : Option SortOrder) (order : IndexOrder) :
    criteria.decided? schema sort order =
      (criteria.rangeRule? schema order sort).or (criteria.indexRule? schema order sort) := by
  have hload : criteria.loadRule? schema = none := by
    refine if_neg fun hloadable => ?_
    have hnil := (isLoadable_iff.mp hloadable).2.1
    rw [h.residual] at hnil
    cases hnil
  have hhash : criteria.hashRule? schema sort = none := if_neg h.not_isHashOnly
  rw [decided?, hload, hhash]
  rfl

/-- A condition that suits a range property is queried by wherever that property is addressed. -/
theorem HashAndOne.rangeRule?_eq {value : Json} {only : Condition}
    (h : HashAndOne criteria value only)
    (hkey : isSomeRangeKey schema only.property = true)
    (hop : only.operator.isKeyOperator = true) (order : IndexOrder) :
    criteria.rangeRule? schema order none =
      (rangeAddress? schema order only.property).map fun indexName =>
        .ok (.query ⟨indexName, criteria.hashCondition schema, some only, [], none⟩) := by
  have hcase : (criteria.hasHash && criteria.isSingleOnRange schema) = true := by
    rw [Bool.and_eq_true, hasHash, h.hash]
    exact ⟨rfl, isSingleOnRange_iff.mpr ⟨h.range, _, only, h.residual, hkey⟩⟩
  rw [rangeRule?, if_pos hcase, h.singleResidual?_eq]
  dsimp only
  rw [hop]
  rfl

/-- An index is selected if one serves. -/
theorem isSome_selectIndex?_iff (order : IndexOrder) (sort : Option SortOrder) :
    (criteria.selectIndex? schema order sort).isSome = true ↔
      ∃ index ∈ schema.indexes, (criteria.matchIndex? schema index).isSome = true := by
  rw [selectIndex?, isSome_firstBest?_iff, ← List.isEmpty_eq_false_iff,
    List.isEmpty_eq_false_iff_exists_mem]
  simp only [mem_candidates_iff, Option.isSome_iff_exists]
  exact ⟨fun ⟨found, index, hmem, hmatch⟩ => ⟨index, hmem, found, hmatch⟩,
    fun ⟨index, hmem, found, hmatch⟩ => ⟨found, index, hmem, hmatch⟩⟩

/-- **What a query really takes:** only a hash value, or one condition on the range property of the
primary key, or an index that serves. -/
def IsServed (schema : KeySchema) (criteria : Criteria) : Prop :=
  criteria.isHashOnly = true ∨
    (∃ only, criteria.singleResidual? = some only ∧ schema.isRangeKey only.property = true) ∨
    ∃ index ∈ schema.indexes, (criteria.matchIndex? schema index).isSome = true

/-- A property that is addressed is served. -/
theorem HashAndOne.isServed_of_rangeAddress? {value : Json} {only : Condition}
    (h : HashAndOne criteria value only) (hop : only.operator.isKeyOperator = true)
    {indexName : Option String}
    (haddress : rangeAddress? schema order only.property = some indexName) :
    IsServed schema criteria := by
  rcases rangeAddress?_eq_some haddress with ⟨-, hkey⟩ | ⟨index, hmem, -, hhash, hkey⟩
  · exact .inr (.inl ⟨only, h.singleResidual?_eq, beq_iff_eq.mpr hkey⟩)
  · have hne : only.property ≠ schema.hashKey := by
      intro heq
      exact KeySchema.index_rangeKey_ne_hashKey hmem (by rw [hkey, heq, hhash])
    refine .inr (.inr ⟨index, hmem, h.isSome_matchIndex?_of_aligned hne hop ?_⟩)
    rw [← hhash, ← hkey]

/-- A condition that suits a range property, and what is left if no query serves it. -/
theorem HashAndOne.plan_eq {value : Json} {only : Condition} (h : HashAndOne criteria value only)
    (hkey : isSomeRangeKey schema only.property = true)
    (hop : only.operator.isKeyOperator = true) (config : PlannerConfig)
    (projection : Projection) :
    (IsServed schema criteria →
      ∃ plan, criteria.plan schema config none projection = .ok plan ∧ plan.mode ≠ "scan") ∧
    (¬ IsServed schema criteria →
      criteria.plan schema config none projection =
        criteria.scanRule schema config none projection) := by
  rw [plan_eq_getD, h.decided?_eq, h.rangeRule?_eq hkey hop]
  cases haddress : rangeAddress? schema config.indexOrder only.property with
  | some indexName =>
    refine ⟨fun _ => ⟨_, rfl, by simp [AccessPlan.mode]⟩, fun hunserved => ?_⟩
    exact absurd (h.isServed_of_rangeAddress? hop haddress) hunserved
  | none =>
    rw [Option.map_none, Option.none_or, indexRule?]
    cases hselect : criteria.selectIndex? schema config.indexOrder none with
    | some found =>
      refine ⟨fun _ => ⟨_, rfl, by simp [AccessPlan.mode]⟩, fun hunserved => ?_⟩
      have hsome : (criteria.selectIndex? schema config.indexOrder none).isSome = true := by
        rw [hselect]
        rfl
      exact absurd (.inr (.inr ((isSome_selectIndex?_iff _ _).mp hsome))) hunserved
    | none =>
      refine ⟨fun hserved => ?_, fun _ => rfl⟩
      rcases hserved with honly | ⟨single, hsingle, hrange⟩ | hindex
      · exact absurd honly h.not_isHashOnly
      · obtain rfl := Option.some.inj (h.singleResidual?_eq.symm.trans hsingle)
        rw [rangeAddress?, if_pos hrange] at haddress
        cases haddress
      · rw [← isSome_selectIndex?_iff config.indexOrder none, hselect] at hindex
        cases hindex

/-- **Criteria for which a query will do are loaded or queried** without an order if a query really
takes no more than they have, and otherwise only a scan is left.  Whatever is queried by the primary
key, a query will do for it. -/
theorem plan_of_isQueryable {keys : EntityKeys} {criteria : Criteria} (h : Reachable keys criteria)
    (config : PlannerConfig) (projection : Projection) :
    (criteria.isQueryable keys.schema = true →
      (IsServed keys.schema criteria →
        ∃ plan, criteria.plan keys.schema config none projection = .ok plan ∧
          plan.mode ≠ "scan") ∧
      (¬ IsServed keys.schema criteria →
        criteria.plan keys.schema config none projection =
          criteria.scanRule keys.schema config none projection)) ∧
    ∀ sort query, criteria.plan keys.schema config sort projection = .ok (.query query) →
      query.indexName = none → criteria.isQueryable keys.schema = true := by
  constructor
  · intro hqueryable
    rcases (isQueryable_iff h.sound).mp hqueryable with honly | ⟨value, only, hone, hkey, hop⟩
    · exact ⟨fun _ => plan_of_isHashOnly honly config projection,
        fun hunserved => absurd (.inl honly) hunserved⟩
    · exact hone.plan_eq hkey hop config projection
  · intro sort query hplan hprimary
    rw [isQueryable_iff h.sound]
    cases planned_of_plan hplan with
    | hash value hhash hfree hresidual =>
      exact .inl (isHashOnly_iff.mpr ⟨by rw [hasHash, hhash]; rfl, hfree, hresidual⟩)
    | range value group only indexName hhash hfree hresidual haddress hop =>
      obtain rfl := h.sound.property_of_residual hresidual
      exact .inr ⟨value, only, ⟨hhash, hfree, hresidual⟩,
        isSomeRangeKey_of_rangeAddress? haddress, hop⟩
    | index => cases hprimary

/-- Large invoices of a customer are queried: the total is the range property of an index that has
the customer, too. -/
theorem plan_of_isQueryable_large_invoices :
    let keys := KeySchema.invoices.entity
    let opened := (empty.add keys (.equals "customer" (.string "ada"))).criteria
    let large : Condition := ⟨"total", .ge, [.ofNat 100], rfl⟩
    let criteria := (opened.add keys large).criteria
    Reachable keys criteria ∧ criteria.isQueryable keys.schema = true ∧
      IsServed keys.schema criteria ∧
      ∃ plan, criteria.plan keys.schema {} none .items = .ok plan ∧ plan.mode ≠ "scan" := by
  intro keys opened large criteria
  have hreachable : Reachable keys criteria := .add (.add .empty _) _
  have hqueryable : criteria.isQueryable keys.schema = true := rfl
  have hserved : IsServed keys.schema criteria :=
    .inr (.inr ⟨{ name := "byCustomer", hashKey := "customer", rangeKey := some "total" },
      by decide, rfl⟩)
  exact ⟨hreachable, hqueryable, hserved,
    ((plan_of_isQueryable hreachable {} .items).1 hqueryable).1 hserved⟩

/-- Parcels of a customer by their weight are scanned for or refused: the weight is a range
property, but of an index that has nothing else in common with the question. -/
theorem scan_of_isQueryable :
    let keys := KeySchema.parcels.entity
    let opened := (empty.add keys (.equals "customer" (.string "ada"))).criteria
    let heavy : Condition := ⟨"weight", .ge, [.ofNat 100], rfl⟩
    let criteria := (opened.add keys heavy).criteria
    Reachable keys criteria ∧ criteria.isQueryable keys.schema = true ∧
      criteria.plan keys.schema .withScans none .items =
        .ok (.scan ⟨[.equals "customer" (.string "ada"), heavy], none⟩) ∧
      criteria.plan keys.schema {} none .items =
        .error (.unsupportedAccessPattern [("customer", .eq), ("weight", .ge)]) :=
  ⟨.add (.add .empty _) _, rfl, rfl, rfl⟩

end Criteria

end AccessPlanner
