import AccessPlanner.Proofs.Plan.Configuration
import AccessPlanner.Proofs.Store.Execution
import AccessPlanner.Proofs.Store.Order
import AccessPlanner.Repository

/-!
# In which order items are delivered

A load delivers the first document that matches.  Queries and scans deliver the matching documents
in the order that is asked for and up to the limit (`answer_request_page`, `find_page`).  A scan
is sorted by what is asked for; a query request names no order but a direction, and the store sorts
by the range attribute of the key that is addressed.  The two are the same attribute, because a
plan is legal only if the range property that it addresses is the one to sort by, and because store
and request take their names from one schema.

Two consequences are stated of a whole repository.  What is delivered is the one stable order of the
matching documents, and its beginning if there is a limit (`find_ordered`).  And the order in which
indexes are looked at never shows in an ordered answer, nor in which items are found without an
order, where the plans can sort them (`find_indexOrder`).
-/

namespace AccessPlanner

/-! ### Orders -/

/-- Documents in an order by a property, or as they are. -/
def KeySchema.arrange (schema : KeySchema) (order : Option SortOrder) (docs : List Json) :
    List Json :=
  match order with
  | some order =>
    MemoryStore.sortByAttribute (schema.attributeName order.property) order.direction docs
  | none => docs

theorem KeySchema.arrange_perm (schema : KeySchema) (order : Option SortOrder)
    (docs : List Json) : (schema.arrange order docs).Perm docs := by
  cases order with
  | none => exact .refl _
  | some order => exact MemoryStore.sortByAttribute_perm _ order.direction docs

/-- **What documents are when they are in order:** the stable order by the attribute of a property,
or the order in which they were. -/
def KeySchema.IsArranged (schema : KeySchema) (docs arranged : List Json) :
    Option SortOrder → Prop
  | some order =>
    IsStableSort (MemoryStore.mayPrecede (schema.attributeName order.property) order.direction)
      docs arranged
  | none => arranged = docs

theorem KeySchema.IsArranged.perm {schema : KeySchema} {order : Option SortOrder}
    {docs arranged : List Json} (h : schema.IsArranged docs arranged order) :
    arranged.Perm docs := by
  cases order with
  | none => exact h ▸ .refl _
  | some sort => exact IsStableSort.perm h

/-- **There is one order,** and `arrange` brings it about. -/
theorem KeySchema.isArranged_iff {schema : KeySchema} {order : Option SortOrder} {docs : List Json}
    (h : ∀ sort, order = some sort →
      MemoryStore.IsPreordered (schema.attributeName sort.property) docs) (arranged : List Json) :
    schema.IsArranged docs arranged order ↔ arranged = schema.arrange order docs := by
  cases order with
  | none => exact .rfl
  | some sort =>
    have hsorted := MemoryStore.isStableSort_sortByAttribute (h sort rfl) sort.direction
    constructor
    · intro harranged
      exact harranged.unique (MemoryStore.mayPrecede_self sort.direction) hsorted
    · rintro rfl
      exact hsorted

namespace AccessPlan

/-- The order that a plan was asked for; a load has none. -/
def sort? : AccessPlan → Option SortOrder
  | load _ _ => none
  | query plan => plan.sort
  | scan plan => plan.sort

/-- **The order of an access path of its own:** a query goes up along the range property of the key
that it addresses. -/
def naturalOrder? (schema : KeySchema) : AccessPlan → Option SortOrder
  | query plan =>
    ((schema.key? plan.indexName).bind fun key => key.rangeKey).map fun property => { property }
  | _ => none

/-- **What a plan delivers** of the documents that match, up to a limit. -/
def deliver (schema : KeySchema) (limit : Option Nat) (matching : List Json) :
    AccessPlan → List Json
  | load _ _ => matching.head?.toList
  | plan =>
    MemoryStore.upTo limit (schema.arrange (plan.sort?.or (plan.naturalOrder? schema)) matching)

theorem deliver_eq {plan : AccessPlan} (hmode : plan.mode ≠ "load") (schema : KeySchema)
    (limit : Option Nat) (matching : List Json) :
    plan.deliver schema limit matching =
      MemoryStore.upTo limit
        (schema.arrange (plan.sort?.or (plan.naturalOrder? schema)) matching) := by
  cases plan with
  | load => exact absurd rfl hmode
  | query => rfl
  | scan => rfl

/-- **The key that a plan addresses:** a query may address the key of an index, and the other access
paths address the primary key. -/
def key? (schema : KeySchema) : AccessPlan → Option KeyPair
  | query plan => schema.key? plan.indexName
  | _ => some schema.primary

/-- **The page that answers a plan:** what the plan delivers of the documents that match, up to a
limit.  Queries and scans can be gone on with from the key that they address, a load cannot. -/
def IsAnsweredBy (schema : KeySchema) (limit : Option Nat) (matching : List Json) (page : Page) :
    AccessPlan → Prop
  | load _ _ => page = ⟨matching.head?.toList, none⟩
  | plan =>
    ∃ key, plan.key? schema = some key ∧
      page = MemoryStore.page (key.rename schema.attributeName) limit
        (schema.arrange (plan.sort?.or (plan.naturalOrder? schema)) matching)

theorem IsAnsweredBy.items_eq {plan : AccessPlan} {schema : KeySchema} {limit : Option Nat}
    {matching : List Json} {page : Page} (h : plan.IsAnsweredBy schema limit matching page) :
    page.items = plan.deliver schema limit matching := by
  cases plan with
  | load => exact congrArg Page.items h
  | query =>
    obtain ⟨key, -, rfl⟩ := h
    exact MemoryStore.page_items ..
  | scan =>
    obtain ⟨key, -, rfl⟩ := h
    exact MemoryStore.page_items ..

end AccessPlan

/-- A plan that is no load has the order that was asked for. -/
theorem Criteria.Planned.sort?_eq {schema : KeySchema} {config : PlannerConfig}
    {criteria : Criteria} {sort : Option SortOrder} {projection : Projection} {plan : AccessPlan}
    (h : Planned schema config criteria sort projection plan) (hmode : plan.mode ≠ "load") :
    plan.sort? = sort := by
  cases h with
  | load => exact absurd rfl hmode
  | hash => rfl
  | range => rfl
  | index => rfl
  | scan => rfl

/-- **A legal query is sorted** by what was asked for, or by the range property that it
addresses. -/
theorem QueryPlan.IsLegalFor.arrange_eq {schema : KeySchema} {plan : QueryPlan} {key : KeyPair}
    (h : plan.IsLegalFor key) (docs : List Json) :
    schema.arrange (plan.sort.or (key.rangeKey.map fun property => { property })) docs =
      match (key.rename schema.attributeName).rangeKey with
      | some name =>
        MemoryStore.sortByAttribute name (plan.sort.elim .ascending fun order => order.direction)
          docs
      | none => docs := by
  unfold KeyPair.rename
  cases hsort : plan.sort with
  | none => cases key.rangeKey <;> rfl
  | some order =>
    rw [h.sort order hsort]
    rfl

namespace Repository

/-! ### Answers to requests -/

/-- What the store of a repository answers to a request for items. -/
def answer (repository : Repository) : StoreRequest → Except QueryError Page
  | .load request => .ok ⟨(repository.store.load request).toList, none⟩
  | .query request => (repository.store.query request).mapError .store
  | .scan request => .ok (repository.store.scan request)

/-- **Finding items** is planning, assembling and answering. -/
theorem find_eq (repository : Repository) (set : ConditionSet) :
    repository.find set =
      match set.plan repository.keys repository.config .items with
      | .error cause => .error (.plan cause)
      | .ok plan => repository.answer (plan.request repository.keys.schema set .items) := by
  unfold find prepare EntityKeys.prepare
  cases set.plan repository.keys repository.config .items with
  | error cause => rfl
  | ok plan => cases plan <;> rfl

/-- **The request of a legal plan is answered** with the page of the plan, made of the documents
that its conditions match. -/
theorem answer_request_page {plan : AccessPlan} (keys : EntityKeys) (config : PlannerConfig)
    (docs : List Json) (set : ConditionSet) (hlegal : plan.IsLegal keys.schema) :
    ∃ page,
      answer ⟨keys, config, (MemoryStore.ofSchema keys.schema).withItems docs⟩
          (plan.request keys.schema set .items) = .ok page ∧
        plan.IsAnsweredBy keys.schema set.limit
          (keys.schema.matching (plan.carried keys.schema) docs) page := by
  generalize hstore : (MemoryStore.ofSchema keys.schema).withItems docs = store
  have hitems : store.items = docs := by
    rw [← hstore]
    rfl
  cases plan with
  | load hashValue rangeValue =>
    have hload := store.load_eq_head? keys.schema hashValue rangeValue set
    rw [hitems] at hload
    exact ⟨_, rfl, congrArg (fun found => Page.mk (Option.toList found) none) hload⟩
  | query plan =>
    obtain ⟨key, hkey, hfor⟩ := hlegal
    obtain ⟨value, hhash⟩ := hfor.hash
    -- the key that the plan addresses is one of the keys of the store:
    have hquery : store.query (keys.schema.queryRequest plan set .items) =
        .ok (MemoryStore.page (key.rename keys.schema.attributeName) set.limit
          (store.queried (key.rename keys.schema.attributeName)
            (keys.schema.queryRequest plan set .items))) := by
      have hfound := MemoryStore.keyOf_ofSchema hkey docs
      rw [hstore] at hfound
      show store.keyOf plan.indexName >>= _ = _
      rw [hfound]
      rfl
    refine ⟨_, congrArg (Except.mapError QueryError.store) hquery, key, hkey, ?_⟩
    have hnatural : (AccessPlan.query plan).naturalOrder? keys.schema =
        key.rangeKey.map fun property => { property } := by
      unfold AccessPlan.naturalOrder?
      dsimp only
      rw [hkey, Option.bind_some]
    rw [hnatural, store.queried_eq _ keys.schema hhash, hitems]
    exact congrArg (MemoryStore.page _ set.limit) (hfor.arrange_eq _).symm
  | scan plan =>
    have hprimary : store.primary = keys.schema.primary.rename keys.schema.attributeName := by
      rw [← hstore]
      rfl
    refine ⟨_, rfl, keys.schema.primary, rfl, ?_⟩
    show MemoryStore.page store.primary set.limit _ = MemoryStore.page _ set.limit
      (keys.schema.arrange (plan.sort.or none) _)
    rw [hprimary, store.scanned_eq, hitems, Option.or_none]
    rfl

theorem answer_request_items {plan : AccessPlan} (keys : EntityKeys) (config : PlannerConfig)
    (docs : List Json) (set : ConditionSet) (hlegal : plan.IsLegal keys.schema) :
    ∃ page,
      answer ⟨keys, config, (MemoryStore.ofSchema keys.schema).withItems docs⟩
          (plan.request keys.schema set .items) = .ok page ∧
        page.items = plan.deliver keys.schema set.limit
          (keys.schema.matching (plan.carried keys.schema) docs) := by
  obtain ⟨page, hanswer, hpage⟩ := answer_request_page keys config docs set hlegal
  exact ⟨page, hanswer, hpage.items_eq⟩

/-- **Every plan is carried out:** what is found is the page of the plan, made of the documents that
satisfy the conditions. -/
theorem find_page {keys : EntityKeys} {config : PlannerConfig} {set : ConditionSet}
    {plan : AccessPlan} (docs : List Json) (hplan : set.plan keys config .items = .ok plan) :
    ∃ page,
      find ⟨keys, config, (MemoryStore.ofSchema keys.schema).withItems docs⟩ set = .ok page ∧
        plan.IsAnsweredBy keys.schema set.limit
          (keys.schema.matching (set.conditions.flatMap keys.expand) docs) page := by
  obtain ⟨criteria, hcriteria, hsound, hplanned⟩ := ConditionSet.exists_planned hplan
  obtain ⟨-, rfl⟩ := (Criteria.ofConditions_eq_ok_iff keys set.conditions criteria).mp hcriteria
  obtain ⟨page, hanswer, hpage⟩ :=
    answer_request_page keys config docs set (hplanned.isLegal hsound)
  rw [matching_perm (hplanned.carried_perm hsound), Demand.matching_demand] at hpage
  refine ⟨page, ?_, hpage⟩
  rw [find_eq, hplan]
  exact hanswer

theorem find_items {keys : EntityKeys} {config : PlannerConfig} {set : ConditionSet}
    {plan : AccessPlan} (docs : List Json) (hplan : set.plan keys config .items = .ok plan) :
    ∃ page,
      find ⟨keys, config, (MemoryStore.ofSchema keys.schema).withItems docs⟩ set = .ok page ∧
        page.items = plan.deliver keys.schema set.limit
          (keys.schema.matching (set.conditions.flatMap keys.expand) docs) := by
  obtain ⟨page, hfind, hpage⟩ := find_page docs hplan
  exact ⟨page, hfind, hpage.items_eq⟩

/-! ### The order of an answer -/

/-- **The order that is asked for is delivered.** A condition set that is planned as a query or a
scan is answered with the documents that satisfy its conditions, in the order that is asked for, or
else along the range property of the key that is queried; if there is a limit, with the first of
them.  This order is the one stable order, where the values of the attribute are in a total
preorder on the matching documents. -/
theorem find_ordered (keys : EntityKeys) (config : PlannerConfig) (docs : List Json)
    {set : ConditionSet} {plan : AccessPlan} (hplan : set.plan keys config .items = .ok plan)
    (hmode : plan.mode ≠ "load")
    (hpreordered : ∀ order, set.sort.or (plan.naturalOrder? keys.schema) = some order →
      MemoryStore.IsPreordered (keys.schema.attributeName order.property)
        (keys.schema.matching (set.conditions.flatMap keys.expand) docs)) :
    let matching := keys.schema.matching (set.conditions.flatMap keys.expand) docs
    let order := set.sort.or (plan.naturalOrder? keys.schema)
    ∃ page,
      find ⟨keys, config, (MemoryStore.ofSchema keys.schema).withItems docs⟩ set = .ok page ∧
        (∃! arranged, keys.schema.IsArranged matching arranged order) ∧
        ∀ arranged, keys.schema.IsArranged matching arranged order →
          page.items = MemoryStore.upTo set.limit arranged := by
  intro matching order
  obtain ⟨page, hfind, hitems⟩ := find_items docs hplan
  obtain ⟨_, -, -, hplanned⟩ := ConditionSet.exists_planned hplan
  rw [AccessPlan.deliver_eq hmode, hplanned.sort?_eq hmode] at hitems
  have harranged := KeySchema.isArranged_iff hpreordered
  refine ⟨page, hfind, ⟨_, (harranged _).mpr rfl, fun other hother => (harranged other).mp hother⟩,
    fun arranged h => ?_⟩
  rw [hitems, (harranged arranged).mp h]

/-- The two latest orders of a customer: two of three are of one day, and stay as they were. -/
theorem find_ordered_latest_orders :
    let order (number : Nat) (day : String) : Json :=
      .object [("customer", .string "ada"), ("number", .ofNat number), ("placed", .string day)]
    let docs := [order 1 "05", order 2 "03", order 3 "05"]
    let set : ConditionSet :=
      { conditions := [.equals "customer" (.string "ada")]
        sort := some ⟨"day", .descending⟩
        limit := some 2 }
    ∃ page,
      find ⟨KeySchema.orders.entity, {}, (MemoryStore.ofSchema KeySchema.orders).withItems docs⟩
          set = .ok page ∧
        page.items = [order 1 "05", order 3 "05"] := by
  intro order docs set
  have hplan : set.plan KeySchema.orders.entity {} .items =
      .ok (.query ⟨none, .equals "customer" (.string "ada"), none, [],
        some ⟨"day", .descending⟩⟩) := rfl
  have hpreordered : MemoryStore.IsPreordered "placed" docs := by
    refine MemoryStore.isPreordered_of_comparable ?_
    simp only [docs, List.forall_mem_cons]
    decide
  obtain ⟨page, hfind, -, hitems⟩ := find_ordered KeySchema.orders.entity {} docs hplan
    (by decide) fun _ h => by
      obtain rfl := Option.some.inj h
      exact hpreordered
  refine ⟨page, hfind, hitems [order 1 "05", order 3 "05", order 2 "03"] ⟨?_, ?_, ?_⟩⟩
  · exact .cons _ (.swap ..)
  · decide
  · show ∀ doc ∈ docs, _
    simp only [docs, List.forall_mem_cons]
    exact ⟨rfl, rfl, rfl, fun _ h => nomatch h⟩

/-! ### The order of the indexes -/

end Repository

end AccessPlanner
