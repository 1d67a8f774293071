import RecordQuery.Adapter.Options

/-! # Adapters

An adapter says how records are read: by four accessors, for the id, the name, the class and the
children. Nothing is kept between two readings.

* `Adapter`: options whose settings are all suitable, with the accessors they ask for.
* `Adapter.ofOptions`: an adapter from options.
* `Adapter.view`: the records of a store as an adapter shows them to a search. -/

namespace RecordQuery

/-- An **adapter**. -/
structure Adapter where
  /-- The options that the adapter was made from. -/
  options : Options
  /-- The accessor for the id. -/
  id : Accessor
  /-- The accessor for the name. -/
  name : Accessor
  /-- The accessor for the class. -/
  className : Accessor
  /-- The accessor for the children. -/
  children : Accessor

namespace Adapter

/-- The adapter that **options** ask for. -/
def ofOptions (options : Options) : Except Failure Adapter := do
  let id ← options.id.resolve (.field "id")
  let name ← options.name.resolve (.field "name")
  let className ← options.className.resolve (.field "class")
  let children ← options.children.resolve (.field "children")
  return { options, id, name, className, children }

/-- The usual adapter. -/
def usual : Adapter where
  options := {}
  id := .field "id"
  name := .field "name"
  className := .field "class"
  children := .field "children"

instance : Inhabited Adapter := ⟨usual⟩

/-- The accessor for the label of a kind. -/
def accessor (A : Adapter) : Kind → Accessor
  | .id => A.id
  | .className => A.className
  | .name => A.name

/-- The **children** of a record. -/
def childrenOf (A : Adapter) (σ : Store) (r : Ref) : Except Failure (List Ref) :=
  A.children.children σ r

/-- The text of a label of a record, if the label is there. -/
def labelText (A : Adapter) (σ : Store) (kind : Kind) (r : Ref) :
    Except Failure (Option String) :=
  match (A.accessor kind).read σ r with
  | .ok reading => .ok (reading.comparisonText σ)
  | .error e => .error e

/-- The records of a store **as an adapter shows them** to a search. -/
def view (A : Adapter) (σ : Store) : View Ref Failure where
  children := A.childrenOf σ
  label := A.labelText σ
  property name r := σ.comparisonText (σ.readField r name)

/-- Whether a record meets a condition, which is first checked to be one that can be evaluated. -/
def evaluate (A : Adapter) (σ : Store) (c : Condition) (r : Ref) : Except Failure Bool :=
  match c.check "" with
  | .ok () => .ok ((A.view σ).meets c r)
  | .error u => .error (.condition u)

/-- An adapter as it is printed. -/
def printed (A : Adapter) : String := "Adapter(" ++ A.options.printed ++ ")"

@[simp] theorem ofOptions_empty : ofOptions {} = .ok usual := rfl

end Adapter

end RecordQuery
