import AccessPlanner.Proofs.Store.Delivery

/-!
# Counting and finding

Counts come about in code of their own: a load counts whether there is an item, and queries and
scans count what they find up to the limit, without making a page.  Nevertheless the number is that
of the items which would be found (`tally_request`).  The only difference is the permission to scan,
which is given for items and for counts separately; where it is the same for both, counting and
finding fail together, for the same reason (`count_agrees_with_find`).

Nothing is asked of the store, which may hold any documents under any keys.
-/

namespace AccessPlanner

theorem MemoryStore.countUpTo_eq (key : KeyPair) (limit : Option Nat) (found : List Json) :
    countUpTo limit found = (page key limit found).items.length := by
  cases limit with
  | none => rfl
  | some count =>
    show min found.length count = (found.take count).length
    rw [List.length_take, Nat.min_comm]

namespace Repository

/-- What the store of a repository counts for a request. -/
def tally (repository : Repository) : StoreRequest → Except QueryError Nat
  | .load request => .ok (repository.store.load request).toList.length
  | .query request => (repository.store.countQuery request).mapError .store
  | .scan request => .ok (repository.store.countScan request)

/-- **Counting items** is planning, assembling and tallying. -/
theorem count_eq (repository : Repository) (set : ConditionSet) :
    repository.count set =
      match set.plan repository.keys repository.config .count with
      | .error cause => .error (.plan cause)
      | .ok plan => repository.tally (plan.request repository.keys.schema set .count) := by
  unfold count prepare EntityKeys.prepare
  cases set.plan repository.keys repository.config .count with
  | error cause => rfl
  | ok plan => cases plan <;> rfl

/-- **The store counts what it would find.** The two requests differ in what they select, which the
store does not look at. -/
theorem tally_request (repository : Repository) (schema : KeySchema) (set : ConditionSet)
    (plan : AccessPlan) :
    repository.tally (plan.request schema set .count) =
      (repository.answer (plan.request schema set .items)).map fun page => page.items.length := by
  cases plan with
  | load hashValue rangeValue => rfl
  | query plan =>
    show Except.mapError QueryError.store (repository.store.keyOf plan.indexName >>= _) =
      Except.map _ (Except.mapError QueryError.store (repository.store.keyOf plan.indexName >>= _))
    cases repository.store.keyOf plan.indexName with
    | error cause => rfl
    | ok key => exact congrArg Except.ok (MemoryStore.countUpTo_eq key set.limit _)
  | scan plan =>
    exact congrArg Except.ok (MemoryStore.countUpTo_eq repository.store.primary set.limit _)

theorem hasItems_eq (repository : Repository) (set : ConditionSet) :
    repository.hasItems set = (repository.count set).map fun number => decide (0 < number) := by
  unfold hasItems
  cases repository.count set <;> rfl

/-- What is counted and what is found come from one plan, which does not depend on what is asked of
its items. -/
theorem number_eq_length {repository : Repository} {set : ConditionSet} {page : Page}
    {number : Nat} (hfind : repository.find set = .ok page)
    (hcount : repository.count set = .ok number) : number = page.items.length := by
  rw [find_eq] at hfind
  rw [count_eq] at hcount
  cases hplan : set.plan repository.keys repository.config .items with
  | error cause =>
    rw [hplan] at hfind
    cases hfind
  | ok plan =>
    cases hcounted : set.plan repository.keys repository.config .count with
    | error cause =>
      rw [hcounted] at hcount
      cases hcount
    | ok other =>
      obtain rfl := ConditionSet.plan_unique rfl hplan hcounted
      rw [hplan] at hfind
      rw [hcounted] at hcount
      dsimp only at hfind hcount
      rw [tally_request, hfind] at hcount
      exact (Except.ok.inj hcount).symm

/-- **Counting agrees with finding.** If a condition set is both found and counted, the number is
that of the items, and there are items iff the number is not zero.  If scans are allowed for items
iff they are allowed for counts, finding and counting fail for the same condition sets and the same
reasons. -/
theorem count_agrees_with_find (repository : Repository) (set : ConditionSet) :
    (∀ page number, repository.find set = .ok page → repository.count set = .ok number →
      number = page.items.length ∧
        repository.hasItems set = .ok (decide (page.items ≠ []))) ∧
      (repository.config.allowsScan .items = repository.config.allowsScan .count →
        ∀ cause, repository.find set = .error cause ↔ repository.count set = .error cause) := by
  constructor
  · intro page number hfind hcount
    have hnumber := number_eq_length hfind hcount
    refine ⟨hnumber, ?_⟩
    rw [hasItems_eq, hcount, hnumber]
    show Except.ok _ = Except.ok _
    simp only [List.length_pos_iff]
  · intro hscan cause
    rw [find_eq, count_eq, ConditionSet.plan_congr_allowsScan hscan]
    cases set.plan repository.keys repository.config .count with
    | error refusal => simp
    | ok plan =>
      dsimp only
      rw [tally_request]
      cases repository.answer (plan.request repository.keys.schema set .items) <;>
        simp [Except.map]

end Repository

end AccessPlanner
