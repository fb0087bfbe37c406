import AccessPlanner.Criteria.IndexMatch
import AccessPlanner.Proofs.Criteria.Reachable

/-!
# What an index uses up

`matchIndex?_eq_some` says which conditions a matching index serves through its key.  For sound
criteria each of them is the only condition of its source on its property, so that the key uses
up exactly what it serves: key conditions and left over filters are all conditions, each once
(`keyConditions_append_filtersAfter_perm`).

The count goes through one list, `sourced`, in which every condition stands with its source;
what is bound and what is residual on one property are then told apart.

Indexes are looked at in an order, as declared or by ascending names (`IndexOrder.Lists`), and for
the indexes of a schema there is one list of each (`KeySchema.lists_iff`).
-/

namespace AccessPlanner

/-! ### The order of the indexes -/

namespace IndexOrder

/-- **A list of indexes in an order:** as they are declared, or all of them by ascending names. -/
def Lists : IndexOrder → List IndexDefinition → List IndexDefinition → Prop
  | declared, indexes, listed => listed = indexes
  | lexicographic, indexes, listed =>
    listed.Perm indexes ∧ listed.Pairwise fun earlier later => earlier.name ≤ later.name

theorem Lists.perm {order : IndexOrder} {indexes listed : List IndexDefinition}
    (h : order.Lists indexes listed) : listed.Perm indexes := by
  cases order with
  | declared => exact h ▸ .refl _
  | lexicographic => exact h.1

theorem arrange_perm (order : IndexOrder) (indexes : List IndexDefinition) :
    (order.arrange indexes).Perm indexes := by
  cases order with
  | declared => exact .refl _
  | lexicographic => exact List.mergeSort_perm ..

@[simp] theorem mem_arrange {order : IndexOrder} {indexes : List IndexDefinition}
    {index : IndexDefinition} : index ∈ order.arrange indexes ↔ index ∈ indexes :=
  (order.arrange_perm indexes).mem_iff

/-- The lexicographic order ascends by name. -/
theorem pairwise_arrange (indexes : List IndexDefinition) :
    (lexicographic.arrange indexes).Pairwise fun earlier later => earlier.name ≤ later.name := by
  have hsorted : (lexicographic.arrange indexes).Pairwise fun earlier later =>
      decide (earlier.name ≤ later.name) = true := by
    refine List.pairwise_mergeSort ?_ ?_ indexes
    · intro a b c hab hbc
      rw [decide_eq_true_eq] at hab hbc ⊢
      exact String.le_trans hab hbc
    · intro a b
      rw [Bool.or_eq_true, decide_eq_true_eq, decide_eq_true_eq]
      exact String.le_total a.name b.name
  exact hsorted.imp of_decide_eq_true

/-- **Arranging lists the indexes in the order.** -/
theorem lists_arrange (order : IndexOrder) (indexes : List IndexDefinition) :
    order.Lists indexes (order.arrange indexes) := by
  cases order with
  | declared => exact rfl
  | lexicographic => exact ⟨arrange_perm .lexicographic indexes, pairwise_arrange indexes⟩

end IndexOrder

/-- **The indexes of a schema are listed in an order in one way only.** Two of them that come before
each other have one name, and the name identifies the index. -/
theorem KeySchema.lists_iff {schema : KeySchema} {order : IndexOrder}
    {listed : List IndexDefinition} :
    order.Lists schema.indexes listed ↔ listed = order.arrange schema.indexes := by
  refine ⟨fun h => ?_, fun h => h ▸ order.lists_arrange schema.indexes⟩
  cases order with
  | declared => exact h
  | lexicographic =>
    obtain ⟨hperm, hascending⟩ := h
    refine List.Perm.eq_of_pairwise ?_ hascending (IndexOrder.pairwise_arrange schema.indexes)
      (hperm.trans (IndexOrder.arrange_perm _ _).symm)
    intro a b ha hb hab hba
    have hfirst := index?_name (hperm.mem_iff.mp ha)
    have hsecond := index?_name (IndexOrder.mem_arrange.mp hb)
    rw [String.le_antisymm hab hba, hsecond] at hfirst
    exact (Option.some.inj hfirst).symm

/-! ### Choosing -/

/-- The choice of the better one of two elements keeps to the two. -/
theorem mem_of_firstBest?_eq_some {α : Type} {rank : α → IndexRank} {elements : List α} {best : α}
    (h : firstBest? rank elements = some best) : best ∈ elements := by
  cases elements with
  | nil => cases h
  | cons first rest =>
    obtain rfl := Option.some.inj h
    clear h
    induction rest generalizing first with
    | nil => exact List.mem_cons_self ..
    | cons other rest ih =>
      rw [List.foldl_cons]
      split
      next => exact List.mem_cons_of_mem _ (ih other)
      next =>
        rcases List.mem_cons.mp (ih first) with h | h
        · rw [h]
          exact List.mem_cons_self ..
        · exact List.mem_cons_of_mem _ (List.mem_cons_of_mem _ h)

/-- A rank depends only on which properties are wanted. -/
theorem IndexRank.ofKey_congr {wanted others : List String}
    (h : ∀ property, property ∈ wanted ↔ property ∈ others) (sort : Option SortOrder)
    (key : KeyPair) : IndexRank.ofKey wanted sort key = IndexRank.ofKey others sort key := by
  -- the rank asks in two ways only what is wanted:
  have hcontains : wanted.contains = others.contains := by
    ext property
    rw [Bool.eq_iff_iff, List.contains_iff_mem, List.contains_iff_mem, h]
  have hall : ∀ test : String → Bool, wanted.all test = others.all test := by
    intro test
    rw [Bool.eq_iff_iff, List.all_eq_true, List.all_eq_true]
    simp only [h]
  unfold IndexRank.ofKey
  rw [hcontains, hall]

namespace Criteria

variable {schema : KeySchema} {criteria : Criteria}

theorem mem_candidates_iff {order : IndexOrder} {found : IndexMatch} :
    found ∈ criteria.candidates schema order ↔
      ∃ index ∈ schema.indexes, criteria.matchIndex? schema index = some found := by
  rw [candidates, List.mem_filterMap]
  simp only [IndexOrder.mem_arrange]

theorem mem_candidates_of_selectIndex? {order : IndexOrder} {sort : Option SortOrder}
    {found : IndexMatch} (h : criteria.selectIndex? schema order sort = some found) :
    found ∈ criteria.candidates schema order :=
  mem_of_firstBest?_eq_some h

/-! ### Key conditions -/

/-- **A condition that a key serves on one of its properties:** the value that the property is
bound to, or the only residual condition on it. -/
inductive Serves (schema : KeySchema) (criteria : Criteria) (property : String) :
    KeyCondition → Prop
  | bound (value : Json) (h : criteria.boundValue? schema property = some value) :
      Serves schema criteria property ⟨.equals property value, .bound⟩
  | residual (only : Condition) (hfree : criteria.boundValue? schema property = none)
      (honly : criteria.residualFor property = [only])
      (hop : only.operator.isKeyOperator = true) :
      Serves schema criteria property ⟨only, .residual⟩

theorem indexHash?_eq_some {property : String} {key : KeyCondition}
    (h : criteria.indexHash? schema property = some key) :
    Serves schema criteria property key ∧ key.condition.operator = .eq := by
  unfold indexHash? at h
  split at h
  next value hbound =>
    obtain rfl := Option.some.inj h
    exact ⟨.bound value hbound, rfl⟩
  next hfree =>
    split at h
    next only honly =>
      split at h
      next hop =>
        obtain rfl := Option.some.inj h
        exact ⟨.residual only hfree honly (by rw [hop]; rfl), hop⟩
      next => cases h
    next => cases h

theorem indexRange?_eq_some {property : String} {range : Option KeyCondition}
    (h : criteria.indexRange? schema property = some range) :
    (range = none →
      criteria.boundValue? schema property = none ∧ criteria.residualFor property = []) ∧
      ∀ key, range = some key → Serves schema criteria property key := by
  unfold indexRange? at h
  split at h
  next value hbound =>
    obtain rfl := Option.some.inj h
    refine ⟨nofun, fun key hkey => ?_⟩
    obtain rfl := Option.some.inj hkey
    exact .bound value hbound
  next hfree =>
    split at h
    next hnone =>
      obtain rfl := Option.some.inj h
      exact ⟨fun _ => ⟨hfree, hnone⟩, nofun⟩
    next only honly =>
      split at h
      next hop =>
        obtain rfl := Option.some.inj h
        refine ⟨nofun, fun key hkey => ?_⟩
        obtain rfl := Option.some.inj hkey
        exact .residual only hfree honly hop
      next => cases h
    next => cases h

/-- **What a matching index serves:** an equality on its hash property and, if it has a condition
on a range property, that condition. -/
structure Fits (schema : KeySchema) (criteria : Criteria) (found : IndexMatch) : Prop where
  mem : found.index ∈ schema.indexes
  hash : Serves schema criteria found.index.hashKey found.hash
  hash_eq : found.hash.condition.operator = .eq
  range : ∀ key, found.range = some key →
    ∃ property, found.index.rangeKey = some property ∧ Serves schema criteria property key

/-- **Matching indexes fit.** -/
theorem matchIndex?_eq_some {index : IndexDefinition} {found : IndexMatch}
    (hmem : index ∈ schema.indexes) (h : criteria.matchIndex? schema index = some found) :
    Fits schema criteria found := by
  unfold matchIndex? at h
  split at h
  next => cases h
  next hash hhash =>
    obtain ⟨hserves, heq⟩ := indexHash?_eq_some hhash
    split at h
    next =>
      obtain rfl := Option.some.inj h
      exact ⟨hmem, hserves, heq, fun key hkey => nomatch hkey⟩
    next property hproperty =>
      obtain ⟨range, hrange, rfl⟩ := Option.map_eq_some_iff.mp h
      exact ⟨hmem, hserves, heq, fun key hkey =>
        ⟨property, hproperty, (indexRange?_eq_some hrange).2 key hkey⟩⟩

theorem index_of_matchIndex? {index : IndexDefinition} {found : IndexMatch}
    (h : criteria.matchIndex? schema index = some found) : found.index = index := by
  unfold matchIndex? at h
  split at h
  next => cases h
  next =>
    split at h
    next =>
      obtain rfl := Option.some.inj h
      rfl
    next =>
      obtain ⟨range, -, rfl⟩ := Option.map_eq_some_iff.mp h
      rfl

theorem fits_of_mem_candidates {order : IndexOrder} {found : IndexMatch}
    (h : found ∈ criteria.candidates schema order) : Fits schema criteria found := by
  obtain ⟨index, hmem, hmatch⟩ := mem_candidates_iff.mp h
  exact matchIndex?_eq_some hmem hmatch

/-! ### One source at a time -/

theorem filter_equals (name property : String) (value : Option Json) :
    (((value.map (name, ·)).toList.map fun entry => Condition.equals entry.1 entry.2).filter
        fun condition => condition.property == property) =
      if name = property then (value.map (Condition.equals property)).toList else [] := by
  cases value with
  | none => simp
  | some value =>
    by_cases h : name = property
    · subst h
      simp [Condition.equals]
    · simp [Condition.equals, h]

theorem map_fst_bound (schema : KeySchema) (criteria : Criteria) :
    (criteria.bound schema).map (·.1) = (criteria.boundConditions schema).map (·.property) := by
  rw [boundConditions, List.map_map]
  rfl

/-- **The bound conditions on a property** are the equality with its bound value. -/
theorem filter_boundConditions (schema : KeySchema) (criteria : Criteria) (property : String) :
    ((criteria.boundConditions schema).filter fun condition => condition.property == property) =
      ((criteria.boundValue? schema property).map (Condition.equals property)).toList := by
  have hrange :
      (((criteria.boundRange? schema).toList.map fun entry =>
          Condition.equals entry.1 entry.2).filter fun condition =>
            condition.property == property) =
        if schema.rangeKey = some property then
          (criteria.rangeValue.map (Condition.equals property)).toList
        else [] := by
    unfold boundRange?
    cases schema.rangeKey with
    | none => rfl
    | some name =>
      rw [Option.bind_some, filter_equals]
      simp only [Option.some.injEq]
  change (((criteria.boundHash? schema).toList ++ (criteria.boundRange? schema).toList).map
    fun entry => Condition.equals entry.1 entry.2).filter _ = _
  rw [List.map_append, List.filter_append, boundHash?, filter_equals, hrange]
  by_cases hhash : schema.hashKey = property
  · subst hhash
    rw [if_pos rfl, if_neg schema.rangeKey_ne_hashKey, List.append_nil, boundValue?_hashKey]
  · -- no bound hash condition is left, so the range property decides
    rw [if_neg hhash, List.nil_append]
    split
    next hkey => rw [boundValue?_rangeKey hkey]
    next hkey =>
      have hhas : schema.primary.has property = false :=
        KeySchema.has_eq_false_iff.mpr ⟨hhash, hkey⟩
      rw [boundValue?_of_has_eq_false hhas]
      rfl

theorem mem_boundConditions_iff {condition : Condition} :
    condition ∈ criteria.boundConditions schema ↔
      ∃ property value, criteria.boundValue? schema property = some value ∧
        condition = .equals property value := by
  constructor
  · intro hmem
    have hfound : condition ∈ (criteria.boundConditions schema).filter
        fun other => other.property == condition.property :=
      List.mem_filter.mpr ⟨hmem, beq_self_eq_true condition.property⟩
    rw [filter_boundConditions, Option.mem_toList, Option.map_eq_some_iff] at hfound
    obtain ⟨value, hvalue, heq⟩ := hfound
    exact ⟨_, value, hvalue, heq.symm⟩
  · rintro ⟨property, value, hvalue, rfl⟩
    have hfound : Condition.equals property value ∈ (criteria.boundConditions schema).filter
        fun condition => condition.property == property := by
      rw [filter_boundConditions, hvalue]
      exact List.mem_cons_self ..
    exact (List.mem_filter.mp hfound).1

theorem residualFor_of_groupsOf {conditions : List Condition}
    (h : criteria.residual = groupsOf conditions) (property : String) :
    criteria.residualFor property =
      conditions.filter fun condition => condition.property == property := by
  rw [residualFor, h, lookup?_groupsOf]

theorem Serves.property_eq (hsound : Sound schema criteria) {property : String}
    {key : KeyCondition} (h : Serves schema criteria property key) :
    key.condition.property = property := by
  cases h with
  | bound => rfl
  | residual only _ honly =>
    obtain ⟨conditions, hgrouped⟩ := hsound.grouped
    have hmem : only ∈ criteria.residualFor property := by
      rw [honly]
      exact List.mem_cons_self ..
    rw [residualFor_of_groupsOf hgrouped] at hmem
    exact beq_iff_eq.mp (List.mem_filter.mp hmem).2

/-! ### All sources together -/

/-- The conditions with their sources, where the residual ones are those of a list. -/
def sourced (schema : KeySchema) (criteria : Criteria) (conditions : List Condition) :
    List KeyCondition :=
  (criteria.boundConditions schema).map (⟨·, .bound⟩) ++ conditions.map (⟨·, .residual⟩)

theorem map_sourced_perm {conditions : List Condition}
    (h : criteria.residual = groupsOf conditions) :
    ((criteria.sourced schema conditions).map (·.condition)).Perm (criteria.conditions schema) := by
  have hmap : (criteria.sourced schema conditions).map (·.condition) =
      criteria.boundConditions schema ++ conditions := by
    simp [sourced, Function.comp_def]
  rw [hmap, Criteria.conditions, residualConditions, h]
  exact (flatMap_groupsOf_perm conditions).symm.append_left _

theorem filter_map_source (source tag : KeySource) (property : String)
    (conditions : List Condition) :
    ((conditions.map fun condition => (⟨condition, tag⟩ : KeyCondition)).filter fun other =>
        source == other.source && property == other.condition.property) =
      if source = tag then
        (conditions.filter fun condition => condition.property == property).map (⟨·, tag⟩)
      else [] := by
  rw [List.filter_map]
  by_cases h : source = tag
  · subst h
    rw [if_pos rfl]
    congr 1
    refine List.filter_congr fun condition _ => ?_
    rw [Function.comp_apply, beq_self_eq_true, Bool.true_and]
    exact BEq.comm
  · rw [if_neg h, List.map_eq_nil_iff, List.filter_eq_nil_iff]
    intro condition _ hboth
    rw [Function.comp_apply, Bool.and_eq_true, beq_iff_eq] at hboth
    exact h hboth.1

/-- **A served condition is the only one** of its source on its property. -/
theorem Serves.filter_sourced {conditions : List Condition}
    (hgrouped : criteria.residual = groupsOf conditions) {property : String} {key : KeyCondition}
    (h : Serves schema criteria property key) :
    ((criteria.sourced schema conditions).filter fun other =>
      key.source == other.source && property == other.condition.property) = [key] := by
  rw [sourced, List.filter_append, filter_map_source, filter_map_source]
  cases h with
  | bound value hbound =>
    rw [if_pos rfl, if_neg (by simp), List.append_nil, filter_boundConditions, hbound]
    rfl
  | residual only _ honly =>
    rw [if_pos rfl, if_neg (by simp), List.nil_append, ← residualFor_of_groupsOf hgrouped, honly]
    rfl

/-- Two tests of which no element passes both split what passes one of them. -/
theorem filter_or_perm {α : Type} {p q : α → Bool} {elements : List α}
    (h : ∀ element ∈ elements, p element = true → q element = false) :
    (elements.filter fun element => p element || q element).Perm
      (elements.filter p ++ elements.filter q) := by
  -- split what passes either test by the first one
  have hsplit := List.filter_append_perm p (elements.filter fun element => p element || q element)
  have hp : ((elements.filter fun element => p element || q element).filter p) =
      elements.filter p := by
    rw [List.filter_filter]
    refine List.filter_congr fun element _ => ?_
    cases p element <;> simp
  have hq : ((elements.filter fun element => p element || q element).filter fun element =>
      !p element) = elements.filter q := by
    rw [List.filter_filter]
    refine List.filter_congr fun element hmem => ?_
    cases hpe : p element with
    | true => simp [h element hmem hpe]
    | false => simp
  rw [hp, hq] at hsplit
  exact hsplit.symm

/-- **What a key serves,** property by property, is what its sources and properties pick out. -/
theorem filter_sourced_perm {conditions : List Condition}
    (hgrouped : criteria.residual = groupsOf conditions) {keys : List KeyCondition}
    (hserved : ∀ key ∈ keys, Serves schema criteria key.condition.property key)
    (hdistinct : (keys.map (·.condition.property)).Nodup) :
    ((criteria.sourced schema conditions).filter fun other =>
      keys.any fun key =>
        key.source == other.source && key.condition.property == other.condition.property).Perm
      keys := by
  induction keys with
  | nil => simp
  | cons key rest ih =>
    rw [List.map_cons, List.nodup_cons] at hdistinct
    have hrest := ih (fun other hother => hserved other (List.mem_cons_of_mem _ hother)) hdistinct.2
    have hfirst := (hserved key (List.mem_cons_self ..)).filter_sourced hgrouped
    simp only [List.any_cons]
    refine (filter_or_perm fun other _ hother => ?_).trans ?_
    · -- two keys on one property would not be distinct
      rw [Bool.and_eq_true, beq_iff_eq, beq_iff_eq] at hother
      rw [List.any_eq_false]
      intro second hsecond hboth
      rw [Bool.and_eq_true, beq_iff_eq, beq_iff_eq] at hboth
      refine hdistinct.1 (List.mem_map.mpr ⟨second, hsecond, ?_⟩)
      rw [hboth.2, hother.2]
    · rw [hfirst]
      exact hrest.cons key

/-! ### Conservation -/

theorem Fits.nodup_properties {found : IndexMatch} (hsound : Sound schema criteria)
    (h : Fits schema criteria found) :
    (found.keyConditions.map (·.condition.property)).Nodup := by
  unfold IndexMatch.keyConditions
  cases hrange : found.range with
  | none => simp
  | some key =>
    obtain ⟨property, hproperty, hserves⟩ := h.range key hrange
    -- the schema keeps the two properties of an index apart
    have hne : found.hash.condition.property ≠ key.condition.property := by
      rw [h.hash.property_eq hsound, hserves.property_eq hsound]
      intro heq
      exact KeySchema.index_rangeKey_ne_hashKey h.mem (hproperty.trans (congrArg some heq.symm))
    simpa using hne

theorem Fits.serves {found : IndexMatch} (hsound : Sound schema criteria)
    (h : Fits schema criteria found) :
    ∀ key ∈ found.keyConditions, Serves schema criteria key.condition.property key := by
  intro key hmem
  rcases List.mem_cons.mp hmem with rfl | hmem
  · rw [h.hash.property_eq hsound]
    exact h.hash
  · obtain ⟨property, -, hserves⟩ := h.range key (Option.mem_toList.mp hmem)
    rw [hserves.property_eq hsound]
    exact hserves

/-- The filters after a match are the conditions that its key does not serve. -/
theorem filtersAfter_perm {conditions : List Condition}
    (h : criteria.residual = groupsOf conditions) (found : IndexMatch) :
    (criteria.filtersAfter schema found).Perm
      (((criteria.sourced schema conditions).filter fun other =>
        !found.consumes other.source other.condition.property).map (·.condition)) := by
  have hmap : ((criteria.sourced schema conditions).filter fun other =>
        !found.consumes other.source other.condition.property).map (·.condition) =
      (criteria.boundConditions schema).filter
          (fun condition => !found.consumes .bound condition.property) ++
        conditions.filter fun condition => !found.consumes .residual condition.property := by
    simp [sourced, List.filter_append, List.filter_map, Function.comp_def]
  have hgroups := filter_groupsOf (fun property => !found.consumes .residual property) conditions
  rw [hmap, filtersAfter, h, hgroups]
  exact (flatMap_groupsOf_perm _).append_left _

/-- **A query of an index loses no condition and repeats none:** the conditions on its key and the
filters that are left over are all conditions. -/
theorem Fits.keyConditions_append_filtersAfter_perm {found : IndexMatch}
    (hsound : Sound schema criteria) (h : Fits schema criteria found) :
    (found.keyConditions.map (·.condition) ++ criteria.filtersAfter schema found).Perm
      (criteria.conditions schema) := by
  obtain ⟨conditions, hgrouped⟩ := hsound.grouped
  have hkeys := filter_sourced_perm hgrouped (h.serves hsound) (h.nodup_properties hsound)
  have hsplit := List.filter_append_perm
    (fun other => found.consumes other.source other.condition.property)
    (criteria.sourced schema conditions)
  -- served conditions are the key conditions, and the others are the filters
  refine List.Perm.trans ?_ ((hsplit.map (·.condition)).trans (map_sourced_perm hgrouped))
  rw [List.map_append]
  exact (hkeys.symm.map (·.condition)).append (filtersAfter_perm hgrouped found)

end Criteria

end AccessPlanner
