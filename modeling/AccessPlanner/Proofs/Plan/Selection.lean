import AccessPlanner.Proofs.Criteria.Places
import AccessPlanner.Proofs.Plan.Forecast

/-!
# Which index is selected

The index to query is the first of the least candidates, in the given order of the indexes
(`Sound.selectIndex?_eq_some_iff`), where the place of a candidate depends on the properties of its
key and on those that the criteria ask about (`Criteria.place`).

It follows that an order of the indexes decides only between candidates of one place, and that a
requested order is refused only where no candidate delivers it (`selectIndex?_first_least`).
-/

namespace AccessPlanner

/-! ### The selected index -/

namespace Criteria

variable {schema : KeySchema} {criteria : Criteria} {order : IndexOrder} {sort : Option SortOrder}

/-- **The properties that criteria ask about,** in any of their conditions. -/
def asked (schema : KeySchema) (criteria : Criteria) : Finset String :=
  ((criteria.conditions schema).map (·.property)).toFinset

/-- **The place of a candidate** is that of its key. -/
def place (schema : KeySchema) (criteria : Criteria) (sort : Option SortOrder)
    (found : IndexMatch) : Bool ×ₗ ℕ ×ₗ ℕᵒᵈ :=
  found.index.toKeyPair.place (criteria.asked schema) sort

theorem Sound.mem_properties_iff (h : Sound schema criteria) (property : String) :
    property ∈ criteria.properties schema ↔ property ∈ criteria.asked schema := by
  obtain ⟨conditions, hgrouped⟩ := h.grouped
  have hresidual : property ∈ criteria.residual.map (·.1) ↔
      property ∈ criteria.residualConditions.map (·.property) := by
    rw [residualConditions, hgrouped, ((flatMap_groupsOf_perm conditions).map _).mem_iff,
      map_fst_groupsOf, List.mem_eraseDups]
  rw [asked, List.mem_toFinset, properties, Criteria.conditions, List.map_append, List.mem_append,
    List.mem_append, hresidual, map_fst_bound, or_comm]

/-- The ranks by which an index is selected are the places of the candidates. -/
theorem Sound.place_rank (h : Sound schema criteria) {found : IndexMatch}
    (hmem : found ∈ criteria.candidates schema order) :
    (IndexRank.ofKey (criteria.properties schema) sort found.index.toKeyPair).place =
      criteria.place schema sort found :=
  KeyPair.place_ofKey h.mem_properties_iff sort
    (KeySchema.index_rangeKey_ne_hashKey (fits_of_mem_candidates hmem).mem)

theorem Sound.selectIndex?_eq_some_iff (h : Sound schema criteria) {found : IndexMatch} :
    criteria.selectIndex? schema order sort = some found ↔
      IsFirstLeast (criteria.place schema sort) (criteria.candidates schema order) found := by
  rw [selectIndex?, firstBest?_eq_some_iff]
  exact ⟨.congr fun _ hmem => h.place_rank hmem, .congr fun _ hmem => (h.place_rank hmem).symm⟩

theorem selectIndex?_eq_none_iff :
    criteria.selectIndex? schema order sort = none ↔
      ∀ index ∈ schema.indexes, criteria.matchIndex? schema index = none := by
  rw [← Option.not_isSome_iff_eq_none, isSome_selectIndex?_iff]
  simp

/-- **The place of the selected index** does not depend on the order of the indexes. -/
theorem Sound.map_place_selectIndex? (h : Sound schema criteria) (order other : IndexOrder) :
    (criteria.selectIndex? schema order sort).map (criteria.place schema sort) =
      (criteria.selectIndex? schema other sort).map (criteria.place schema sort) := by
  have hplace (order : IndexOrder) :
      (criteria.selectIndex? schema order sort).map (criteria.place schema sort) =
        (criteria.selectIndex? schema order sort).map fun found =>
          (IndexRank.ofKey (criteria.properties schema) sort found.index.toKeyPair).place :=
    Option.map_congr fun found hfound =>
      (h.place_rank (mem_candidates_of_selectIndex? hfound)).symm
  have hrank := criteria.selectIndex?_rank schema sort order other
  rw [hplace, hplace]
  generalize criteria.selectIndex? schema order sort = chosen at hrank ⊢
  generalize criteria.selectIndex? schema other sort = twin at hrank ⊢
  cases hrank with
  | none => rfl
  | some hrank => exact congrArg (fun rank => some rank.place) hrank

/-- **The selected index delivers a requested order** if any candidate does. -/
theorem Sound.rangeKey_selectIndex? (h : Sound schema criteria) {target : SortOrder}
    {found candidate : IndexMatch}
    (hfound : criteria.selectIndex? schema order (some target) = some found)
    (hmem : candidate ∈ criteria.candidates schema order)
    (hcandidate : candidate.index.rangeKey = some target.property) :
    found.index.rangeKey = some target.property :=
  KeyPair.rangeKey_of_place_le ((h.selectIndex?_eq_some_iff.mp hfound).least candidate hmem)
    hcandidate

theorem indexRule?_eq_some_error_iff {cause : PlanError} :
    criteria.indexRule? schema order sort = some (.error cause) ↔
      ∃ found, criteria.selectIndex? schema order sort = some found ∧
        checkSort sort found.index.rangeKey = .error cause := by
  unfold indexRule?
  rw [Option.map_eq_some_iff]
  refine exists_congr fun found => and_congr_right fun _ => ?_
  cases checkSort sort found.index.rangeKey with
  | ok done => exact iff_of_false nofun nofun
  | error other =>
    show (Except.error other : Except PlanError AccessPlan) = .error cause ↔ _
    rw [Except.error.injEq, Except.error.injEq]

/-- The candidates are the indexes that serve, in the given order. -/
theorem candidates_listed (schema : KeySchema) (criteria : Criteria) (order : IndexOrder) :
    ∃ listed, order.Lists schema.indexes listed ∧
      criteria.candidates schema order = listed.filterMap (criteria.matchIndex? schema) :=
  ⟨_, order.lists_arrange schema.indexes, rfl⟩

/-- **The selected index is the first of the least candidates,** where the candidates are the
indexes that serve, as declared or by ascending names, and there is one unless no index serves.  Its
place is the same in all orders of the indexes.  It delivers a requested order if any candidate
does; hence the rule for indexes refuses an order only where none does. -/
theorem selectIndex?_first_least {keys : EntityKeys} {criteria : Criteria}
    (h : Reachable keys criteria) (order : IndexOrder) (sort : Option SortOrder) :
    (∃ listed, order.Lists keys.schema.indexes listed ∧
      criteria.candidates keys.schema order =
        listed.filterMap (criteria.matchIndex? keys.schema)) ∧
    (criteria.selectIndex? keys.schema order sort = none ↔
      ∀ index ∈ keys.schema.indexes, criteria.matchIndex? keys.schema index = none) ∧
    (∀ found, criteria.selectIndex? keys.schema order sort = some found ↔
      IsFirstLeast (criteria.place keys.schema sort) (criteria.candidates keys.schema order)
        found) ∧
    (∀ other,
      (criteria.selectIndex? keys.schema order sort).map (criteria.place keys.schema sort) =
        (criteria.selectIndex? keys.schema other sort).map (criteria.place keys.schema sort)) ∧
    (∀ target found candidate, sort = some target →
      criteria.selectIndex? keys.schema order sort = some found →
      candidate ∈ criteria.candidates keys.schema order →
      candidate.index.rangeKey = some target.property →
      found.index.rangeKey = some target.property) ∧
    ∀ cause, criteria.indexRule? keys.schema order sort = some (.error cause) ↔
      ∃ target found, sort = some target ∧
        criteria.selectIndex? keys.schema order sort = some found ∧
        (∀ candidate ∈ criteria.candidates keys.schema order,
          candidate.index.rangeKey ≠ some target.property) ∧
        cause = .illegalSortTarget target.property found.index.rangeKey := by
  refine ⟨candidates_listed keys.schema criteria order, selectIndex?_eq_none_iff,
    fun found => h.sound.selectIndex?_eq_some_iff,
    fun other => h.sound.map_place_selectIndex? order other, ?_, fun cause => ?_⟩
  · rintro target found candidate rfl hfound hmem hcandidate
    exact h.sound.rangeKey_selectIndex? hfound hmem hcandidate
  · simp only [indexRule?_eq_some_error_iff, checkSort_eq_error_iff]
    constructor
    · rintro ⟨found, hfound, target, rfl, hkey, rfl⟩
      exact ⟨target, found, rfl, hfound, fun candidate hmem hcandidate =>
        hkey (h.sound.rangeKey_selectIndex? hfound hmem hcandidate), rfl⟩
    · rintro ⟨target, found, rfl, hfound, hnone, rfl⟩
      exact ⟨found, hfound, target, rfl, hnone found (mem_candidates_of_selectIndex? hfound), rfl⟩

/-- Invoices of a customer and a total: both indexes have just these properties, and the first one
of the two is selected, which is another one as declared than by name.  If the invoices are to be
sorted by the total, the index with the total for its range property is selected, although it is
the last one declared. -/
theorem selectIndex?_first_least_invoices_of_total :
    let keys := KeySchema.invoices.entity
    let opened := (empty.add keys (.equals "customer" (.string "ada"))).criteria
    let criteria := (opened.add keys (.equals "total" (.string "7"))).criteria
    let byTotal : SortOrder := { property := "total" }
    Reachable keys criteria ∧
      criteria.indexName? keys.schema .declared none = some "byTotal" ∧
      criteria.indexName? keys.schema .lexicographic none = some "byCustomer" ∧
      ∃ found, criteria.selectIndex? keys.schema .declared (some byTotal) = some found ∧
        found.index.name = "byCustomer" ∧
        IsFirstLeast (criteria.place keys.schema (some byTotal))
          (criteria.candidates keys.schema .declared) found := by
  intro keys opened criteria byTotal
  have hreachable : Reachable keys criteria := .add (.add .empty _) _
  have hlists : IndexOrder.lexicographic.Lists keys.schema.indexes keys.schema.indexes.reverse :=
    ⟨List.reverse_perm _, by decide⟩
  have hnamed : criteria.indexName? keys.schema .lexicographic none = some "byCustomer" := by
    rw [indexName?, selectIndex?, candidates, ← KeySchema.lists_iff.mp hlists]
    rfl
  exact ⟨hreachable, rfl, hnamed, _, rfl, rfl,
    ((selectIndex?_first_least hreachable .declared (some byTotal)).2.2.1 _).mp rfl⟩

end Criteria

end AccessPlanner
