import RecordQuery.World

/-! # Wrapped records

A wrapped record, or node, knows the node above it and the adapter by which it is read. The nodes
of its children are made when they are first asked for, and kept until a field is set through the
same node.

* `Node.wrap`: a new node around a record.
* `Node.children`: the list of the nodes of the children.
* `Node.get`, `Node.set`: a field of the wrapped record. -/

namespace RecordQuery

/-- What a node holds; a value that is no node holds nothing. -/
def Store.nodeData (σ : Store) (node : Ref) : NodeData :=
  match σ.look node with
  | .node data => data
  | _ => ⟨.null, .null, 0, none⟩

/-- A reading as a value of the store. -/
def Session.ofReading : Reading → Session Ref
  | .value r => settle r
  | .list items => do alloc (.list (← settleAll items))
  | .stream items => do alloc (.stream (← settleAll items))

namespace Node

open Session

/-- A **new node** around a record. -/
def wrap (record parent : Ref) (adapter : Nat) : Session Ref :=
  alloc (.node ⟨record, parent, adapter, none⟩)

/-- Nodes around several records. -/
def wrapAll (parent : Ref) (adapter : Nat) : List Ref → Session (List Ref)
  | [] => return []
  | record :: rest => do
    let node ← wrap record parent adapter
    let nodes ← wrapAll parent adapter rest
    return node :: nodes

/-- What a node holds. -/
def data (node : Ref) : Session NodeData := do return (← store).nodeData node

/-- The **list of the nodes of the children**, made when it is first asked for. -/
def children (node : Ref) : Session Ref := do
  let held ← data node
  match held.children with
  | some list => return list
  | none =>
    let A ← adapterAt held.adapter
    let records ← settleAll (← attempt (A.childrenOf (← store) held.record))
    let nodes ← wrapAll node held.adapter records
    let list ← alloc (.list nodes)
    modifyStore (·.put node (.node { held with children := some list }))
    return list

/-- A label of the wrapped record. -/
def label (kind : Kind) (node : Ref) : Session Ref := do
  let held ← data node
  let A ← adapterAt held.adapter
  ofReading (← attempt ((A.accessor kind).read (← store) held.record))

/-- A **field** of the wrapped record. -/
def get (name : String) (node : Ref) : Session Ref := do
  let σ ← store
  settle (σ.readField (σ.nodeData node).record name)

/-- **Sets a field** of the wrapped record in place, its name also given as a value. The nodes of
the children are forgotten, since the children may have changed with the field. -/
def set (name : String) (key value : Ref) (node : Ref) : Session Unit := do
  let σ ← store
  let record := (σ.nodeData node).record
  match σ.writeField record name key value with
  | .error refusal => throw (.unsettable record refusal)
  | .ok σ' =>
    -- only this node forgets: other nodes of the same record keep their children
    let held := σ'.nodeData node
    modifyStore fun _ => σ'.put node (.node { held with children := none })

end Node

end RecordQuery
