import RecordQuery.Record.Basic

/-! # Fields of a record

How a record is read and written without regard to its form: a mapping by its keys, a record with
attributes by their names, a number by its parts. A field that is not there is the absent value. What
a type brings with it besides, such as the methods of a list or the record in a wrapped one, is no
field here.

* `Store.readField`: the field of a record.
* `Store.isTruthy`: whether a value counts as present and not empty.
* `Store.items?`: the items of a value that can be gone through.
* `Store.childrenOf`: the records that a value stands for when it is read as children.
* `Store.writeField`: a record with one field set. -/

namespace RecordQuery

/-- The word for the type of a scalar. -/
def Scalar.typeName : Scalar → String
  | .null => "NoneType"
  | .bool _ => "bool"
  | .int _ => "int"
  | .double _ => "float"
  | .text _ => "str"
  | .bytes _ => "bytes"

/-- The word for the type of an object. -/
def Object.typeName : Object → String
  | .scalar s => s.typeName
  | .list _ => "list"
  | .tuple _ => "tuple"
  | .set _ => "set"
  | .frozenSet _ => "frozenset"
  | .mapping _ => "dict"
  | .readOnlyMapping _ => "mappingproxy"
  | .attributes _ => "SimpleNamespace"
  | .sealed _ => "Sealed"
  | .stream _ => "generator"
  | .function _ => "function"
  | .node _ => "Node"
  | .collection _ _ => "Collection"
  | .locator _ _ => "Locator"

/-- The word for the type of an object together with its module, where it has one. -/
def Object.qualifiedTypeName (o : Object) : String :=
  match o with
  | .attributes _ => "types.SimpleNamespace"
  | _ => o.typeName

/-- The **members** of an object that counts as a sequence of records: a text, a byte sequence or a
mapping is none, nor is anything without items. -/
def Object.members : Object → List Ref
  | .list items | .tuple items | .set items | .frozenSet items | .stream items => items
  | .collection nodes _ => nodes
  | _ => []

/-- The entries of a mapping, whether it can be written to or not. -/
def Object.entries? : Object → Option (List (Ref × Ref))
  | .mapping entries | .readOnlyMapping entries => some entries
  | _ => none

namespace Store

/-- The word for the type of a value. -/
def typeName (σ : Store) (r : Ref) : String := (σ.look r).typeName

/-- Whether a value is the absent one. -/
def isNull (σ : Store) (r : Ref) : Bool := σ.look r == .scalar .null

/-- The text that a value is, if it is one. -/
def text? (σ : Store) (r : Ref) : Option String :=
  match σ.look r with
  | .scalar (.text s) => some s
  | _ => none

/-! ### Reading -/

/-- The value under a text key, if it is there. -/
def lookup? (σ : Store) (name : String) (entries : List (Ref × Ref)) : Option Ref :=
  (entries.find? fun entry => σ.text? entry.1 == some name).map (·.2)

/-- The parts of a number: an integer or truth value is its own numerator over one, and every number
has a real part and no imaginary one. -/
def numberPart (r : Ref) (name : String) : Scalar → Option Ref
  | .bool b =>
    if name = "real" || name = "numerator" then some (Scalar.int (if b then 1 else 0)).ref
    else if name = "imag" then some (Scalar.int 0).ref
    else if name = "denominator" then some (Scalar.int 1).ref
    else none
  | .int _ =>
    if name = "real" || name = "numerator" then some r
    else if name = "imag" then some (Scalar.int 0).ref
    else if name = "denominator" then some (Scalar.int 1).ref
    else none
  | .double _ =>
    if name = "real" then some r
    else if name = "imag" then some (Scalar.double .zero).ref
    else none
  | _ => none

/-- An attribute that was given to an object of a kind that has none by itself. -/
def given? (σ : Store) (r : Ref) (name : String) : Option Ref :=
  match r with
  | .held place => σ.given.lookup (place, name)
  | _ => none

/-- The **field** of a record, if it is there. A wrapped record, a collection, a locator, a container
without keys and a function have just the attributes that were given to them. So the labels, the
children, the record, the parent and the adapter of a wrapped record are left out, and reading a field
never makes it remember its children. -/
def field? (σ : Store) (r : Ref) (name : String) : Option Ref :=
  match σ.look r with
  | .mapping entries => σ.lookup? name entries
  | .readOnlyMapping entries => σ.lookup? name entries
  | .attributes fields => fields.lookup name
  | .sealed fields => fields.lookup name
  | .scalar s => numberPart r name s
  | _ => σ.given? r name

/-- The **field** of a record; one that is not there is the absent value. -/
def readField (σ : Store) (r : Ref) (name : String) : Ref := (σ.field? r name).getD .null

/-- Whether a value counts as **present and not empty**. -/
def isTruthy (σ : Store) (r : Ref) : Bool :=
  match σ.look r with
  | .scalar .null => false
  | .scalar (.bool b) => b
  | .scalar (.int n) => n != 0
  | .scalar (.double x) => !x.isZero
  | .scalar (.text s) => !s.isEmpty
  | .scalar (.bytes data) => !data.isEmpty
  | .list items | .tuple items | .set items | .frozenSet items => !items.isEmpty
  | .mapping entries | .readOnlyMapping entries => !entries.isEmpty
  | .collection nodes _ => !nodes.isEmpty
  | _ => true

/-- The **items** of a value that can be gone through: the elements of a container, the keys of a
mapping, the characters of a text, the bytes of a byte sequence. -/
def items? (σ : Store) (r : Ref) : Option (List Ref) :=
  match σ.look r with
  | .list items | .tuple items | .set items | .frozenSet items | .stream items => some items
  | .mapping entries | .readOnlyMapping entries => some (entries.map (·.1))
  | .scalar (.text s) => some (s.toList.map fun c => (Scalar.text c.toString).ref)
  | .scalar (.bytes data) => some (data.map fun b => (Scalar.int b.toNat).ref)
  | .collection nodes _ => some nodes
  | _ => none

/-- The records that a value stands for when it is read as **children**. Items that can be taken only
once are not taken here: they are the same at every reading, where they should be gone after the
first. -/
def childrenOf (σ : Store) (r : Ref) : List Ref := (σ.look r).members

/-- The record that a wrapped record holds; any other value is itself. -/
def unwrapped (σ : Store) (r : Ref) : Ref :=
  match σ.look r with
  | .node data => data.record
  | _ => r

/-! ### Writing -/

/-- A list of entries with the value under a name replaced, or a new entry at the end. -/
def setEntry {κ α : Type} (isName : κ → Bool) (key : κ) (value : α) :
    List (κ × α) → List (κ × α)
  | [] => [(key, value)]
  | entry :: rest =>
    if isName entry.1 then (entry.1, value) :: rest else entry :: setEntry isName key value rest

/-- Why a field cannot be set. -/
inductive Refusal
  /-- The value is of a kind that has no fields. -/
  | fieldless
  /-- The value has fields, but refuses this one, for a reason. -/
  | refused (reason : String)
deriving DecidableEq, Repr

/-- The store with an attribute given to an object. -/
def give (σ : Store) (r : Ref) (name : String) (value : Ref) : Store :=
  match r with
  | .held place =>
    { σ with given := setEntry (· == (place, name)) (place, name) value σ.given }
  | _ => σ

/-- The attributes of a wrapped record that can only be read. -/
def nodeLabels : List String := ["id", "name", "class_name", "children"]

/-- A record **with one field set**, in place: the whole store afterwards. The name of the field is
also given as a value, which becomes the key of a new entry in a mapping. What is set of a wrapped
record, a collection, a locator or a function is given to it as an attribute: under the name of its
record, parent or adapter, too, it stays beside what the object holds. -/
def writeField (σ : Store) (r : Ref) (name : String) (key value : Ref) : Except Refusal Store :=
  match σ.look r with
  | .scalar _ | .tuple _ | .frozenSet _ => .error .fieldless
  | .mapping entries =>
    .ok (σ.put r (.mapping (setEntry (fun k => σ.text? k == some name) key value entries)))
  | .attributes fields =>
    .ok (σ.put r (.attributes (setEntry (· == name) name value fields)))
  | .sealed _ => .error (.refused ("sealed " ++ name))
  | .node _ =>
    if nodeLabels.contains name then
      .error (.refused ("property '" ++ name ++ "' of 'Node' object has no setter"))
    else .ok (σ.give r name value)
  | .collection _ _ | .locator _ _ | .function _ => .ok (σ.give r name value)
  -- containers without keys have a type, which is named, but no attributes to set
  | o => .error (.refused ("'" ++ o.typeName ++ "' object has no attribute '" ++ name ++ "'"))

end Store

end RecordQuery
