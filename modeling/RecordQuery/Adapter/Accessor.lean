import RecordQuery.Failure
import RecordQuery.Search.Graph

/-! # Accessors

An accessor reads one thing of a record: a field by its name, or whatever a function of the record
gives. What it gives is a value that is there already, a new list, or items that come one by one.

* `Reading`: what an accessor gives.
* `RecordFunction`: a function of a record.
* `Accessor`: a field name or a function. -/

namespace RecordQuery

/-- What an accessor **gives**: a value that is there already, a scalar made on the spot, or values of
these two sorts as a new list or one by one. A new record, a new tuple and a new list inside another
one are left out: a function that makes one at each call gives values that no store holds yet. -/
inductive Reading
  /-- A value. -/
  | value (r : Ref)
  /-- A new list of values. -/
  | list (items : List Ref)
  /-- Values that come one by one. -/
  | stream (items : List Ref)
deriving DecidableEq, Repr

namespace Reading

/-- The records that a reading stands for when it is read as **children**. -/
def children (σ : Store) : Reading → List Ref
  | .value r => σ.childrenOf r
  | .list items | .stream items => items

/-- The text that a reading is **compared** by; the absent value has none. -/
def comparisonText (σ : Store) : Reading → Option String
  | .value r => σ.comparisonText r
  | .list items => some (σ.printedList items)
  | .stream items => some ((Object.stream items).printedWith σ.printed σ.unwrapped)

end Reading

/-- The children that a function of a record leads to, in a store. -/
def childrenThrough (call : Store → Ref → Except Failure Reading) (σ : Store) (r : Ref) :
    Except Failure (List Ref) :=
  match call σ r with
  | .ok reading => .ok (reading.children σ)
  | .error e => .error e

/-- A **function of a record**. It only reads: one that writes to the store, takes items that can be
taken only once, or asks a wrapped record for its children, is left out. Read as a children function,
it may lead from one record to another without end. -/
structure RecordFunction where
  /-- What the function gives. -/
  call : Store → Ref → Except Failure Reading

/-- An **accessor**. -/
inductive Accessor
  /-- Reads a field. -/
  | field (name : String)
  /-- Calls a function. -/
  | function (f : RecordFunction)

namespace Accessor

/-- What an accessor gives for a record. -/
def read (a : Accessor) (σ : Store) (r : Ref) : Except Failure Reading :=
  match a with
  | .field name => .ok (.value (σ.readField r name))
  | .function f => f.call σ r

/-- The children that an accessor gives for a record. -/
def children (a : Accessor) (σ : Store) (r : Ref) : Except Failure (List Ref) :=
  childrenThrough a.read σ r

end Accessor

end RecordQuery
