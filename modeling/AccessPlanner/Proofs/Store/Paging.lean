import AccessPlanner.Proofs.Json.Objects
import AccessPlanner.Proofs.Store.Delivery

/-!
# What a limit does

A limit cuts what a query or a scan finds, and the key of the last item on the page says where to go
on.  `Page.IsPageOf` is the contract: the page and what is left out of it are the documents that
match, nothing is left out before the limit is reached, and there is a key to go on from iff
something is left out.

Two limits are out of the ordinary.  A page up to zero has no last item, and so no key to go on from
whatever is left out.  And a load has no limit at all: its request has no place for one, so that it
gives its one item even up to zero (`Repository.find_up_to_zero`).
-/

namespace AccessPlanner

/-! ### The key of an item -/

/-- **The key of an item** has the attributes of the key with the values that the item has there. -/
theorem MemoryStore.field?_keyOfItem (key : KeyPair) (item : Json) (name : String) :
    (keyOfItem key item).field? name =
      if name ∈ key.properties then some (item.resolve name) else none :=
  Json.field?_ofFields_map item.resolve name key.properties

/-! ### Pages -/

/-- **A page of the documents that match, up to a limit.** -/
structure Page.IsPageOf (key : KeyPair) (limit : Nat) (matching : List Json) (page : Page) :
    Prop where
  within : page.items.length ≤ limit
  rest : ∃ left, (page.items ++ left).Perm matching ∧
    (left ≠ [] → page.items.length = limit) ∧
    (page.lastEvaluatedKey.isSome = true ↔ left ≠ [] ∧ 0 < limit)
  continuation : ∀ value, page.lastEvaluatedKey = some value →
    ∃ last, page.items.getLast? = some last ∧
      ∀ name, value.field? name =
        if name ∈ key.properties then some (last.resolve name) else none

theorem MemoryStore.isSome_lastEvaluatedKey_iff (key : KeyPair) (limit : Nat)
    (found : List Json) :
    (page key (some limit) found).lastEvaluatedKey.isSome = true ↔
      limit < found.length ∧ 0 < limit := by
  show (if limit < found.length then (found.take limit).getLast?.map (keyOfItem key)
    else none).isSome = true ↔ _
  by_cases hleft : limit < found.length
  · rw [if_pos hleft, Option.isSome_map, List.getLast?_isSome, ← List.length_pos_iff,
      List.length_take, Nat.min_eq_left (Nat.le_of_lt hleft)]
    exact (and_iff_right hleft).symm
  · rw [if_neg hleft]
    exact iff_of_false Bool.false_ne_true fun h => hleft h.1

/-- **The first page** of documents in any order is a page of them. -/
theorem MemoryStore.isPageOf_page (key : KeyPair) (limit : Nat) {found matching : List Json}
    (h : found.Perm matching) : (page key (some limit) found).IsPageOf key limit matching where
  within := List.length_take_le ..
  rest := by
    have hleft : found.drop limit ≠ [] ↔ limit < found.length := by
      rw [ne_eq, List.drop_eq_nil_iff, Nat.not_le]
    refine ⟨found.drop limit, ?_, fun hne => ?_, ?_⟩
    · show (found.take limit ++ found.drop limit).Perm matching
      rwa [List.take_append_drop]
    · exact List.length_take_of_le (Nat.le_of_lt (hleft.mp hne))
    · rw [isSome_lastEvaluatedKey_iff, hleft]
  continuation := by
    intro value hvalue
    have hkey : (found.take limit).getLast?.map (keyOfItem key) = some value := by
      change (if limit < found.length then _ else none) = some value at hvalue
      split at hvalue
      next => exact hvalue
      next => cases hvalue
    obtain ⟨last, hlast, rfl⟩ := Option.map_eq_some_iff.mp hkey
    exact ⟨last, hlast, field?_keyOfItem key last⟩

/-- **What a plan gives up to a limit.** A load gives the first document whatever the limit, and
queries and scans give a page by the key that they address. -/
def AccessPlan.IsPagedBy (schema : KeySchema) (limit : Nat) (matching : List Json) (page : Page) :
    AccessPlan → Prop
  | load _ _ => page = ⟨matching.head?.toList, none⟩
  | plan =>
    ∃ key, plan.key? schema = some key ∧
      page.IsPageOf (key.rename schema.attributeName) limit matching

theorem AccessPlan.IsAnsweredBy.isPagedBy {plan : AccessPlan} {schema : KeySchema} {limit : Nat}
    {matching : List Json} {page : Page}
    (h : plan.IsAnsweredBy schema (some limit) matching page) :
    plan.IsPagedBy schema limit matching page := by
  cases plan with
  | load => exact h
  | query plan =>
    obtain ⟨key, hkey, rfl⟩ := h
    exact ⟨key, hkey, MemoryStore.isPageOf_page _ limit (schema.arrange_perm ..)⟩
  | scan plan =>
    obtain ⟨key, hkey, rfl⟩ := h
    exact ⟨key, hkey, MemoryStore.isPageOf_page _ limit (schema.arrange_perm ..)⟩

namespace Repository

/-- **A limit is kept.** A condition set with a limit is refused only by the planner.  If it is
planned, a query or a scan gives a page of the documents that satisfy its conditions, and a load
gives the first of them. -/
theorem find_limited (keys : EntityKeys) (config : PlannerConfig) (docs : List Json)
    {set : ConditionSet} {limit : Nat} (hlimit : set.limit = some limit) :
    let repository : Repository :=
      ⟨keys, config, (MemoryStore.ofSchema keys.schema).withItems docs⟩
    match set.plan keys config .items with
    | .error cause => repository.find set = .error (.plan cause)
    | .ok plan =>
      ∃ page, repository.find set = .ok page ∧
        plan.IsPagedBy keys.schema limit
          (keys.schema.matching (set.conditions.flatMap keys.expand) docs) page := by
  intro repository
  cases hplan : set.plan keys config .items with
  | error cause =>
    have hfind := repository.find_eq set
    rwa [show set.plan repository.keys repository.config .items = .error cause from hplan] at hfind
  | ok plan =>
    obtain ⟨page, hfind, hpage⟩ := find_page docs hplan
    rw [hlimit] at hpage
    exact ⟨page, hfind, hpage.isPagedBy⟩

/-- A page of two of three orders. -/
theorem find_limited_two_orders :
    let order (day : String) : Json :=
      .object [("customer", .string "ada"), ("placed", .string day)]
    let docs := [order "03", order "01", order "02"]
    let set : ConditionSet :=
      { conditions := [.equals "customer" (.string "ada")], limit := some 2 }
    ∃ page,
      find ⟨KeySchema.orders.entity, {}, (MemoryStore.ofSchema KeySchema.orders).withItems docs⟩
          set = .ok page ∧
        page.IsPageOf ⟨"customer", some "placed"⟩ 2 docs := by
  intro order docs set
  have hplan : set.plan KeySchema.orders.entity {} .items =
      .ok (.query ⟨none, .equals "customer" (.string "ada"), none, [], none⟩) := rfl
  have hlimit : set.limit = some 2 := rfl
  have hlimited := find_limited KeySchema.orders.entity {} docs hlimit
  rw [hplan] at hlimited
  obtain ⟨page, hfind, key, hkey, hpage⟩ := hlimited
  obtain rfl := Option.some.inj hkey
  exact ⟨page, hfind, hpage⟩

/-- Up to zero, a load gives its item nevertheless, and a scan leaves out what it finds without a
key to go on from. -/
theorem find_up_to_zero :
    let doc : Json := .object [("customer", .string "ada"), ("placed", .string "01")]
    let repository : Repository :=
      ⟨KeySchema.orders.entity, .withScans,
        (MemoryStore.ofSchema KeySchema.orders).withItems [doc]⟩
    let loaded : ConditionSet :=
      { conditions := [.equals "customer" (.string "ada"), .equals "day" (.string "01")]
        limit := some 0 }
    let scanned : ConditionSet := { conditions := [⟨"total", .null, [], rfl⟩], limit := some 0 }
    repository.find loaded = .ok ⟨[doc], none⟩ ∧ repository.find scanned = .ok ⟨[], none⟩ ∧
      repository.find { scanned with limit := none } = .ok ⟨[doc], none⟩ :=
  ⟨rfl, rfl, rfl⟩

end Repository

end AccessPlanner
