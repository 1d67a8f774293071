import RecordQuery.Record.Fields

/-! # Equal values

Two values may be equal without being the same: numbers by what they denote, texts and byte
sequences by their elements, containers of one kind by their parts. Inside a container the same
value is always taken as equal to itself, even a non-number.

* `Scalar.equals`: equal scalars.
* `Store.equal`: equal values.
* `Store.insertEntry`: an entry added to a mapping, whose keys are pairwise unequal. -/

namespace RecordQuery

/-- The integer that an integer or truth value is. -/
def Scalar.integer? : Scalar → Option Int
  | .bool b => some (if b then 1 else 0)
  | .int n => some n
  | _ => none

/-- **Equal scalars**: numbers of all three kinds are compared by what they denote. -/
def Scalar.equals (a b : Scalar) : Bool :=
  match a, b with
  | .double x, .double y => x.equals y
  | .double x, b => b.integer?.any (x.toInt? == some ·)
  | a, .double y => a.integer?.any (y.toInt? == some ·)
  | a, b => match a.integer?, b.integer? with
    | some m, some n => m == n
    | none, none => a == b
    | _, _ => false

namespace Store

/-- Whether two lists have the same length and related items. -/
def pairwise {α β : Type} (related : α → β → Bool) : List α → List β → Bool
  | [], [] => true
  | a :: as, b :: bs => related a b && pairwise related as bs
  | _, _ => false

/-- Whether two lists of entries hold the same keys with related values, in any order. -/
def sameEntries {κ : Type} (sameKey : κ → κ → Bool) (related : Ref → Ref → Bool)
    (xs ys : List (κ × Ref)) : Bool :=
  xs.length == ys.length &&
    xs.all fun x => match ys.find? fun y => sameKey x.1 y.1 with
      | some y => related x.2 y.2
      | none => false

/-- **Equal values**, looked at to a depth; deeper values are equal only if they are the same. -/
def equalTo (σ : Store) : Nat → Ref → Ref → Bool
  | 0, a, b => a == b
  | depth + 1, a, b =>
    let same x y := x == y || σ.equalTo depth x y
    match σ.look a, σ.look b with
    | .scalar s, .scalar t => s.equals t
    | .list xs, .list ys => pairwise same xs ys
    | .tuple xs, .tuple ys => pairwise same xs ys
    | .set xs, .set ys | .set xs, .frozenSet ys | .frozenSet xs, .set ys
    | .frozenSet xs, .frozenSet ys => xs.length == ys.length && xs.all fun x => ys.any (same x)
    | .mapping xs, .mapping ys | .mapping xs, .readOnlyMapping ys
    | .readOnlyMapping xs, .mapping ys
    | .readOnlyMapping xs, .readOnlyMapping ys => sameEntries same same xs ys
    | .attributes xs, .attributes ys => sameEntries (· == ·) same xs ys
    | .node m, .node n => m.record == n.record
    -- collections are compared by the records that they wrap
    | .collection xs _, .collection ys _ =>
      pairwise same (xs.map σ.unwrapped) (ys.map σ.unwrapped)
    | .collection xs _, .list ys => pairwise same (xs.map σ.unwrapped) ys
    | .list xs, .collection ys _ => pairwise same (ys.map σ.unwrapped) xs
    | _, _ => a == b

/-- **Equal values**. -/
def equal (σ : Store) (a b : Ref) : Bool := σ.equalTo (σ.size + 1) a b

/-- Whether two values are the same or equal. -/
def sameOrEqual (σ : Store) (a b : Ref) : Bool := a == b || σ.equal a b

/-- A list of entries with one **added**: an equal key keeps its place and takes the new value. -/
def insertEntry {α : Type} (σ : Store) (entries : List (Ref × α)) (key : Ref) (value : α) :
    List (Ref × α) :=
  setEntry (σ.sameOrEqual · key) key value entries

end Store

end RecordQuery
