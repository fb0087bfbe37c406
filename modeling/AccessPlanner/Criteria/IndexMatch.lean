import AccessPlanner.Criteria.Basic

/-!
# Indexes that serve criteria

`matchIndex?` says how an index can serve criteria, `candidates` lists all indexes that can, and
`selectIndex?` picks one of them by its `IndexRank`.
-/

namespace AccessPlanner

/-- **Where a key condition comes from:** a bound property of the primary key, or a residual
condition. -/
inductive KeySource where
  | bound
  | residual
  deriving DecidableEq

/-- A condition on a key property of an index, and where it comes from. -/
structure KeyCondition where
  condition : Condition
  source : KeySource

/-- **An index that serves criteria,** with the conditions on its key. -/
structure IndexMatch where
  index : IndexDefinition
  hash : KeyCondition
  range : Option KeyCondition

namespace IndexMatch

/-- The conditions on the key, the one on the hash property first. -/
def keyConditions (found : IndexMatch) : List KeyCondition := found.hash :: found.range.toList

/-- Whether what a source says about a property is served by the key. -/
def consumes (found : IndexMatch) (source : KeySource) (property : String) : Bool :=
  found.keyConditions.any fun key => key.source == source && key.condition.property == property

end IndexMatch

namespace Criteria

/-! ### Matching -/

/-- The condition on the hash property of an index: its bound value, or the only residual
condition if it is an equality. -/
def indexHash? (schema : KeySchema) (criteria : Criteria) (property : String) :
    Option KeyCondition :=
  match criteria.boundValue? schema property with
  | some value => some ⟨.equals property value, .bound⟩
  | none =>
    match criteria.residualFor property with
    | [only] => if only.operator = .eq then some ⟨only, .residual⟩ else none
    | _ => none

/-- The condition on the range property of an index, if there is one: its bound value, or the
only residual condition if it has a key operator.  Other residual conditions on the property rule
the index out. -/
def indexRange? (schema : KeySchema) (criteria : Criteria) (property : String) :
    Option (Option KeyCondition) :=
  match criteria.boundValue? schema property with
  | some value => some (some ⟨.equals property value, .bound⟩)
  | none =>
    match criteria.residualFor property with
    | [] => some none
    | [only] => if only.operator.isKeyOperator then some (some ⟨only, .residual⟩) else none
    | _ => none

/-- **How an index serves the criteria,** if it does. -/
def matchIndex? (schema : KeySchema) (criteria : Criteria) (index : IndexDefinition) :
    Option IndexMatch :=
  match criteria.indexHash? schema index.hashKey with
  | none => none
  | some hash =>
    match index.rangeKey with
    | none => some { index, hash, range := none }
    | some property =>
      (criteria.indexRange? schema property).map fun range => { index, hash, range }

/-- The conditions that a query of the index leaves over: bound ones, then residual ones. -/
def filtersAfter (schema : KeySchema) (criteria : Criteria) (found : IndexMatch) :
    List Condition :=
  let bound := (criteria.boundConditions schema).filter fun condition =>
    !found.consumes .bound condition.property
  let residual := criteria.residual.filter fun group => !found.consumes .residual group.1
  bound ++ residual.flatMap fun group => group.2

end Criteria

/-! ### Candidates -/

/-- The indexes in an order. -/
def IndexOrder.arrange (order : IndexOrder) (indexes : List IndexDefinition) :
    List IndexDefinition :=
  match order with
  | .declared => indexes
  | .lexicographic => indexes.mergeSort fun a b => decide (a.name ≤ b.name)

/-- The indexes that serve the criteria, in an order. -/
def Criteria.candidates (schema : KeySchema) (criteria : Criteria) (order : IndexOrder) :
    List IndexMatch :=
  (order.arrange schema.indexes).filterMap (criteria.matchIndex? schema)

/-! ### Selection -/

/-- **The rank of a candidate.** Delivering the requested order comes first, then the tier: keys
that are exactly the properties with conditions, keys that cover them, other keys.  Last comes
the number of properties covered. -/
structure IndexRank where
  delivers : Bool
  tier : Nat
  covered : Nat
  deriving DecidableEq

namespace IndexRank

/-- Whether a rank is strictly better than another one. -/
def isBetter (a b : IndexRank) : Bool :=
  if a.delivers ≠ b.delivers then a.delivers
  else if a.tier ≠ b.tier then decide (a.tier < b.tier)
  else decide (b.covered < a.covered)

/-- The rank of a key for the properties with conditions and a requested order. -/
def ofKey (wanted : List String) (sort : Option SortOrder) (key : KeyPair) : IndexRank :=
  let coversAll := wanted.all key.properties.contains
  let isExact := coversAll && key.properties.all wanted.contains
  { delivers :=
      match sort with
      | some order => key.rangeKey == some order.property
      | none => false
    tier := if isExact then 0 else if coversAll then 1 else 2
    covered := (key.properties.filter wanted.contains).length }

end IndexRank

/-- The first of the best elements of a list. -/
def firstBest? {α : Type} (rank : α → IndexRank) : List α → Option α
  | [] => none
  | first :: rest =>
    some <| rest.foldl (fun best other => if (rank other).isBetter (rank best) then other else best)
      first

namespace Criteria

/-- **The index to query:** the best candidate, and of equally good ones the first. -/
def selectIndex? (schema : KeySchema) (criteria : Criteria) (order : IndexOrder)
    (sort : Option SortOrder) : Option IndexMatch :=
  let wanted := criteria.properties schema
  firstBest? (fun found => IndexRank.ofKey wanted sort found.index.toKeyPair)
    (criteria.candidates schema order)

/-- The name of the index to query. -/
def indexName? (schema : KeySchema) (criteria : Criteria) (order : IndexOrder)
    (sort : Option SortOrder) : Option String :=
  (criteria.selectIndex? schema order sort).map fun found => found.index.name

end Criteria

end AccessPlanner
