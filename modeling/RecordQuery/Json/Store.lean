import RecordQuery.Json.Reader
import RecordQuery.World

/-! # JSON values in a store

A JSON value becomes a value of a store: a list a list, an object a mapping. Of entries with the
same key, the first one gives the place and the last one the value.

* `Json.toStore`: a JSON value as a value of the store. -/

namespace RecordQuery.Json

open Session

mutual

/-- A JSON value as a **value of the store**. -/
def toStore : Json → Session Ref
  | .null => return .null
  | .bool b => return .plain (.bool b)
  | .int n => allocScalar (.int n)
  | .double x => allocScalar (.double x)
  | .text s => allocScalar (.text s)
  | .list items => do alloc (.list (← itemsToStore items))
  | .object entries => do alloc (.mapping (← entriesToStore [] entries))

/-- Several JSON values as values of the store. -/
def itemsToStore : List Json → Session (List Ref)
  | [] => return []
  | item :: rest => do
    let r ← toStore item
    let others ← itemsToStore rest
    return r :: others

/-- The entries of a mapping, added to those that are there. -/
def entriesToStore (entries : List (Ref × Ref)) : List (String × Json) → Session (List (Ref × Ref))
  | [] => return entries
  | (key, value) :: rest => do
    let name ← allocScalar (.text key)
    let r ← toStore value
    let σ ← store
    entriesToStore (Store.setEntry (fun k => σ.text? k == some key) name r entries) rest

end

end RecordQuery.Json
