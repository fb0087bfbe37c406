import AccessPlanner.Request

/-!
# A store in memory

`MemoryStore` keeps documents in the order in which they were put in, and executes requests on
them.  Queries are ordered by the range attribute of the key they address, scans by the order
they ask for; sorting is stable in both directions.
-/

namespace AccessPlanner

/-- **One page of items,** and the key to go on from if items were left out. -/
structure Page where
  items : List Json
  lastEvaluatedKey : Option Json

/-- Whether a key attribute has its value in a document. -/
def KeyAttribute.isIn (key : KeyAttribute) (doc : Json) : Bool :=
  (doc.resolve key.name).equalTo key.value

/-- **A store in memory:** the attributes of the primary key and of the indexes, and the
documents. -/
structure MemoryStore where
  primary : KeyPair
  indexes : List (String × KeyPair)
  items : List Json := []

namespace MemoryStore

/-- The empty store with the keys of a schema. -/
def ofSchema (schema : KeySchema) : MemoryStore :=
  { primary := schema.primary.rename schema.attributeName
    indexes := schema.indexes.map fun index =>
      (index.name, index.toKeyPair.rename schema.attributeName) }

/-- The store with more documents at the end. -/
def withItems (store : MemoryStore) (items : List Json) : MemoryStore :=
  { store with items := store.items ++ items }

/-- The store with one more document at the end. -/
def put (store : MemoryStore) (item : Json) : MemoryStore := store.withItems [item]

/-- The key that a request addresses. -/
def keyOf (store : MemoryStore) : Option String → Except StoreError KeyPair
  | none => .ok store.primary
  | some name =>
    match lookup? name store.indexes with
    | some key => .ok key
    | none => .error (.unknownIndex name)

/-! ### Order -/

/-- Whether a document may stand before another one in the order of an attribute.  Values that do
not compare count as equal. -/
def mayPrecede (name : String) (direction : Direction) (a b : Json) : Bool :=
  let order := ((a.resolve name).order? (b.resolve name)).getD .eq
  match direction with
  | .ascending => order != .gt
  | .descending => order != .lt

/-- Documents in the order of an attribute; equal ones keep their places.  The order is specified
where the values of the attribute are in a total preorder on the documents; texts and numbers side
by side need not be, and then nothing is to be relied on but that both runs on one list are
alike. -/
def sortByAttribute (name : String) (direction : Direction) (items : List Json) : List Json :=
  items.mergeSort (mayPrecede name direction)

/-! ### Execution -/

/-- The documents that a query finds under a key, all of them. -/
def queried (store : MemoryStore) (key : KeyPair) (request : QueryRequest) : List Json :=
  let found := store.items.filter fun doc =>
    request.hashKey.isIn doc && request.rangeKey.all (fun range => range.holds doc)
      && AttributeCondition.allHold request.filters doc
  match key.rangeKey with
  | some name =>
    sortByAttribute name (if request.scanIndexForward then .ascending else .descending) found
  | none => found

/-- The documents that a scan finds, all of them. -/
def scanned (store : MemoryStore) (request : ScanRequest) : List Json :=
  let found := store.items.filter (AttributeCondition.allHold request.filters)
  match request.sort with
  | some order => sortByAttribute order.property order.direction found
  | none => found

/-- The attributes of a key with their values in a document. -/
def keyOfItem (key : KeyPair) (item : Json) : Json :=
  .ofFields (key.properties.map fun name => (name, item.resolve name))

/-- **The first page of documents.** If some are left out, the key of the last one on the page
says where to go on. -/
def page (key : KeyPair) (limit : Option Nat) (found : List Json) : Page :=
  match limit with
  | none => ⟨found, none⟩
  | some count =>
    let items := found.take count
    ⟨items, if count < found.length then items.getLast?.map (keyOfItem key) else none⟩

/-- A number of documents up to a limit. -/
def countUpTo (limit : Option Nat) (found : List Json) : Nat :=
  match limit with
  | none => found.length
  | some count => min found.length count

/-- **Loading:** the first document with the key. -/
def load (store : MemoryStore) (request : LoadRequest) : Option Json :=
  store.items.find? fun doc =>
    request.hashKey.isIn doc && request.rangeKey.all (fun range => range.isIn doc)

/-- **Querying.** -/
def query (store : MemoryStore) (request : QueryRequest) : Except StoreError Page := do
  let key ← store.keyOf request.indexName
  return page key request.limit (store.queried key request)

/-- **Scanning.** -/
def scan (store : MemoryStore) (request : ScanRequest) : Page :=
  page store.primary request.limit (store.scanned request)

/-- The number of documents on the page of a query. -/
def countQuery (store : MemoryStore) (request : QueryRequest) : Except StoreError Nat := do
  let key ← store.keyOf request.indexName
  return countUpTo request.limit (store.queried key request)

/-- The number of documents on the page of a scan. -/
def countScan (store : MemoryStore) (request : ScanRequest) : Nat :=
  countUpTo request.limit (store.scanned request)

end MemoryStore

end AccessPlanner
