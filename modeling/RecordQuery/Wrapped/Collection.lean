import RecordQuery.Record.Equality
import RecordQuery.Record.Outline
import RecordQuery.Wrapped.Node
import RecordQuery.Wrapped.Sequence

/-! # Collections

A collection is a sequence of wrapped records. It can be searched again, cut into slices, and read
or written as a whole; what is found in it is wrapped in a new collection with the same adapter.

* `Collection.ofItems`, `Collection.ofSource`: a collection of records or nodes.
* `Collection.find`: what a selector finds in a collection.
* `Collection.prop`, `Collection.setAll`: a field of the first record, and of all records.
* `Query`: a context that is searched again and again. -/

namespace RecordQuery

/-- What a collection holds: its nodes and the number of its adapter. A list of nodes counts as a
collection, too. -/
def Store.collectionData (σ : Store) (c : Ref) : List Ref × Nat :=
  match σ.look c with
  | .collection nodes adapter => (nodes, adapter)
  | .list items => (items, 0)
  | _ => ([], 0)

/-- The nodes of a collection. -/
def Store.nodesOf (σ : Store) (c : Ref) : List Ref := (σ.collectionData c).1

/-- The records of a collection, without their wrapping. -/
def Store.recordsOf (σ : Store) (c : Ref) : List Ref := (σ.nodesOf c).map σ.unwrapped

/-- Whether a value is a node. -/
def Store.isNode (σ : Store) (r : Ref) : Bool :=
  match σ.look r with
  | .node _ => true
  | _ => false

/-- The number of the adapter that a value holds, if it holds one. -/
def Store.adapterOf? (σ : Store) (r : Ref) : Option Nat :=
  match σ.look r with
  | .node data => some data.adapter
  | .collection _ adapter => some adapter
  | .locator _ adapter => some adapter
  | _ => none

namespace Collection

open Session

/-- A node around an item, unless it is a node itself. -/
def nodeFor (adapter : Nat) (item : Ref) : Session Ref := do
  if (← store).isNode item then return item
  else Node.wrap item .null adapter

/-- Nodes around several items. -/
def nodesFor (adapter : Nat) : List Ref → Session (List Ref)
  | [] => return []
  | item :: rest => do
    let node ← nodeFor adapter item
    let nodes ← nodesFor adapter rest
    return node :: nodes

/-- The **collection of some items**: records, which are wrapped, or nodes, which are kept. -/
def ofItems (adapter : Nat) (items : List Ref) : Session Ref := do
  let nodes ← nodesFor adapter items
  alloc (.collection nodes adapter)

/-- The **collection of the items of a value**; an empty or absent value gives an empty one. -/
def ofSource (adapter : Nat) (source : Ref) : Session Ref := do
  let σ ← store
  if !σ.isTruthy source then ofItems adapter []
  else match σ.items? source with
    | none => throw (.notIterable (σ.look source).qualifiedTypeName)
    | some items =>
      -- a stream has given its items away by now
      modifyStore (·.drained source)
      ofItems adapter (← settleAll items)

/-- The node at a place. -/
def itemAt (index : Int) (c : Ref) : Session Ref := do
  if index < -Nat.pow 2 63 || Nat.pow 2 63 ≤ index then throw .indexTooLarge
  else match itemAt? ((← store).nodesOf c) index with
  | some node => return node
  | none => throw .indexOutOfRange

/-- The collection of the nodes that a slice takes; a slice of a list is a list. -/
def slice (s : Slice) (c : Ref) : Session Ref := do
  let σ ← store
  let (nodes, adapter) := σ.collectionData c
  match s.items nodes, σ.look c with
  | some taken, .list _ => alloc (.list taken)
  | some taken, _ => ofItems adapter taken
  | none, _ => throw .zeroStep

/-- The first node, or the absent value. -/
def first (c : Ref) : Session Ref := do
  return ((← store).nodesOf c).head?.getD .null

/-- A **field of the first record**, absent if there is no record. -/
def prop (name : String) (c : Ref) : Session Ref := do
  match (← store).nodesOf c with
  | [] => return .null
  | node :: _ => Node.get name node

/-- Sets a field through one node after the other. -/
def setThrough (name : String) (key value : Ref) : List Ref → Session Unit
  | [] => return
  | node :: rest => do
    Node.set name key value node
    setThrough name key value rest

/-- **Sets a field of all records**, in order, its name also given as a value. A record that refuses
it ends the setting; the records before it keep the new field. -/
def setAll (name : String) (key value : Ref) (c : Ref) : Session Unit := do
  setThrough name key value ((← store).nodesOf c)

/-- What a locator **finds** in the records of a collection. -/
def findWith (l : Locator) (c : Ref) : Session Ref := do
  let σ ← store
  let (_, adapter) := σ.collectionData c
  let found ← findFrom adapter l ((σ.recordsOf c).map σ.unwrapped)
  ofItems adapter found

/-- What a selector **finds** in the records of a collection. -/
def find (selector : String) (c : Ref) : Session Ref := do
  findWith (← parseLocator selector) c

/-- The records **written out** as indented JSON. -/
def inspect (c : Ref) : Session String := do
  let σ ← store
  attempt (σ.jsonList (.indented 2) (σ.recordsOf c))

/-- Whether an item is in a collection: as one of its nodes, or equal to one. -/
def contains (item : Ref) (c : Ref) : Session Bool := do
  let σ ← store
  return (σ.nodesOf c).any fun node => σ.sameOrEqual node item

/-- How many nodes are an item or equal to it. -/
def count (item : Ref) (c : Ref) : Session Nat := do
  let σ ← store
  return (σ.nodesOf c).countP fun node => σ.sameOrEqual node item

/-- The first place of an item in a range of a collection. -/
def index (item : Ref) (start : Int) (stop : Option Int) (c : Ref) : Session Nat := do
  let σ ← store
  match firstIndexFrom? (fun node => σ.sameOrEqual node item) (σ.nodesOf c) start stop with
  | some place => return place
  | none => match σ.look c with
    | .list _ => throw (.notInList item)
    | _ => throw .notFound

end Collection

/-! ### Queries -/

/-- A **query**: a context that is searched again and again with one adapter. -/
structure Query where
  /-- What is searched. -/
  context : Ref
  /-- The number of the adapter. -/
  adapter : Nat
deriving DecidableEq, Repr

namespace Query

open Session

/-- A query over a context; an absent context has no records. -/
def start (context : Ref) (options : Options) : Session Query := do
  let A ← attempt (Adapter.ofOptions options)
  let adapter ← addAdapter A
  if (← store).isNull context then
    let empty ← alloc (.list [])
    return { context := empty, adapter }
  else return { context, adapter }

/-- The collection of what a locator **finds** in the context. -/
def askWith (q : Query) (l : Locator) : Session Ref := do
  let found ← find q.adapter l q.context
  Collection.ofItems q.adapter found

/-- The collection of what a selector **finds** in the context. -/
def ask (q : Query) (selector : String) : Session Ref := do
  q.askWith (← parseLocator selector)

end Query

end RecordQuery
