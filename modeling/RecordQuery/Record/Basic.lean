import RecordQuery.Number.Double
import RecordQuery.Selector.Locator

/-! # Records and the store

Everything that a query reads or gives is a value in a store. A value is known by its identity: two
records are the same record when they stand at the same place of the store, whatever they hold, and
records may be shared and may lie inside one another.

* `Scalar`: the values without parts.
* `Ref`: a value by its identity, a scalar that stands for itself or a place of the store.
* `Object`: what a place holds.
* `Store`: the places, in the order in which they were filled. -/

namespace RecordQuery

/-- A **scalar**: a value without parts. -/
inductive Scalar
  /-- The absent value. -/
  | null
  /-- A truth value. -/
  | bool (b : Bool)
  /-- An integer of any size. -/
  | int (n : Int)
  /-- A double-precision number. -/
  | double (x : Double)
  /-- A text. -/
  | text (s : String)
  /-- A byte sequence. -/
  | bytes (data : List UInt8)
deriving DecidableEq, Repr, Hashable

/-- A scalar **stands for itself** when all its copies are one value: the absent value, the truth
values, the small integers, and texts and byte sequences of at most one element. -/
def Scalar.isOwn : Scalar → Bool
  | .null => true
  | .bool _ => true
  | .int n => -5 ≤ n && n ≤ 256
  | .double _ => false
  | .text s => match s.toList with
    | [] => true
    | [c] => c.toNat < 256
    | _ => false
  | .bytes data => data.length ≤ 1

/-- A **reference**: a value by its identity. -/
inductive Ref
  /-- A scalar that is known by its value. -/
  | plain (s : Scalar)
  /-- A scalar that was made just now and has no place yet. -/
  | fresh (s : Scalar)
  /-- The tuple without items, of which there is only one. -/
  | noItems
  /-- What stands at a place of the store. -/
  | held (place : Nat)
deriving DecidableEq, Repr, Hashable

instance : Inhabited Ref := ⟨.plain .null⟩

namespace Ref

/-- The absent value. -/
def null : Ref := .plain .null

/-- A text, by its value. -/
def text (s : String) : Ref := .plain (.text s)

end Ref

/-- A scalar as a value that is **made on the spot**: by itself if it stands for itself, else as a
fresh one. -/
def Scalar.ref (s : Scalar) : Ref := if s.isOwn then .plain s else .fresh s

/-- A **wrapped record**: a record with the place from which it was reached. -/
structure NodeData where
  /-- The wrapped record. -/
  record : Ref
  /-- The wrapped record above it, or the absent value. -/
  parent : Ref
  /-- The number of its adapter. -/
  adapter : Nat
  /-- The list of the wrapped children, once it has been asked for. -/
  children : Option Ref
deriving DecidableEq, Repr

/-- What a place of the store **holds**. -/
inductive Object
  /-- A scalar with an identity of its own. -/
  | scalar (s : Scalar)
  /-- A list. -/
  | list (items : List Ref)
  /-- A tuple, a fixed list. -/
  | tuple (items : List Ref)
  /-- A set. -/
  | set (items : List Ref)
  /-- A fixed set. -/
  | frozenSet (items : List Ref)
  /-- A mapping, its entries in the order of their insertion. -/
  | mapping (entries : List (Ref × Ref))
  /-- A mapping that cannot be written to. -/
  | readOnlyMapping (entries : List (Ref × Ref))
  /-- A record with attributes. -/
  | attributes (fields : List (String × Ref))
  /-- A record with attributes that cannot be set. -/
  | sealed (fields : List (String × Ref))
  /-- Items that can be taken once. -/
  | stream (items : List Ref)
  /-- A function, by its number. -/
  | function (number : Nat)
  /-- A wrapped record. -/
  | node (data : NodeData)
  /-- A sequence of wrapped records and the number of their adapter. -/
  | collection (nodes : List Ref) (adapter : Nat)
  /-- A selector that is ready to be applied, with the number of its adapter. -/
  | locator (locator : Locator) (adapter : Nat)
deriving DecidableEq, Repr

instance : Inhabited Object := ⟨.scalar .null⟩

/-- A **store**: the objects that have an identity, by their places. -/
structure Store where
  /-- The objects. -/
  objects : Array Object := #[]
  /-- The attributes that were given to objects of a kind that has none by itself. -/
  given : List ((Nat × String) × Ref) := []
deriving Repr, Inhabited

namespace Store

/-- The number of places. -/
def size (σ : Store) : Nat := σ.objects.size

/-- What a reference **refers to**; a place outside the store holds the absent value. -/
def look (σ : Store) : Ref → Object
  | .plain s | .fresh s => .scalar s
  | .noItems => .tuple []
  | .held place => (σ.objects[place]?).getD (.scalar .null)

/-- A new place with an object. -/
def alloc (σ : Store) (o : Object) : Ref × Store :=
  (.held σ.objects.size, { σ with objects := σ.objects.push o })

/-- The store with another object at a place; nothing changes if there is no such place. -/
def put (σ : Store) (r : Ref) (o : Object) : Store :=
  match r with
  | .held place => { σ with objects := σ.objects.setIfInBounds place o }
  | _ => σ

/-- A value with a place, if it needs one: a fresh scalar gets a new place. -/
def settle (σ : Store) (r : Ref) : Ref × Store :=
  match r with
  | .fresh s => σ.alloc (.scalar s)
  | r => (r, σ)

/-- A scalar as a value: by itself if it stands for itself, else at a new place. -/
def allocScalar (σ : Store) (s : Scalar) : Ref × Store := σ.settle s.ref

@[simp] theorem look_plain (σ : Store) (s : Scalar) : σ.look (.plain s) = .scalar s := rfl

@[simp] theorem look_fresh (σ : Store) (s : Scalar) : σ.look (.fresh s) = .scalar s := rfl

@[simp] theorem look_noItems (σ : Store) : σ.look .noItems = .tuple [] := rfl

@[simp] theorem look_ref (σ : Store) (s : Scalar) : σ.look s.ref = .scalar s := by
  unfold Scalar.ref
  split <;> rfl

@[simp] theorem look_alloc_self (σ : Store) (o : Object) :
    (σ.alloc o).2.look (σ.alloc o).1 = o := by
  simp [alloc, look]

/-- A new place changes no place that is there. -/
theorem look_alloc_of_lt (σ : Store) (o : Object) {place : Nat} (h : place < σ.size) :
    (σ.alloc o).2.look (.held place) = σ.look (.held place) := by
  simp only [alloc, look, Array.getElem?_push]
  rw [if_neg (Nat.ne_of_lt (show place < σ.objects.size from h))]

/-- Writing to a place changes no other place. -/
theorem look_put_of_ne (σ : Store) (o : Object) {r s : Ref} (h : s ≠ r) :
    (σ.put r o).look s = σ.look s := by
  cases r with
  | held place =>
    cases s with
    | held other =>
      have hne : place ≠ other := fun e => h (by rw [e])
      simp [put, look, Array.getElem?_setIfInBounds_ne hne]
    | _ => rfl
  | _ => rfl

/-- A value is the same once it has a place. -/
theorem look_settle (σ : Store) (r : Ref) : (σ.settle r).2.look (σ.settle r).1 = σ.look r := by
  cases r <;> simp [settle]

@[simp] theorem size_put (σ : Store) (r : Ref) (o : Object) : (σ.put r o).size = σ.size := by
  cases r <;> simp [put, size]

end Store

end RecordQuery
