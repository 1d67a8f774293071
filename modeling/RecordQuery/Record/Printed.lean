import RecordQuery.Number.Shortest
import RecordQuery.Record.Fields
import RecordQuery.Text.Quoted

/-! # Printed values

Every value has a printed form on one line, and a text form for comparison. A container that lies
inside itself is printed there as its brackets around three dots, so printing always ends: no
container is opened inside itself.

* `Store.printed`: the printed form of a value.
* `Store.plainText`: a text as it is, anything else as printed.
* `Store.comparisonText`: the text that a value is compared by, if it is not absent. -/

namespace RecordQuery

/-- The **printed form** of a scalar. -/
def Scalar.printed : Scalar → String
  | .null => "None"
  | .bool b => if b then "True" else "False"
  | .int n => toString n
  | .double x => x.text
  | .text s => Text.quoted s
  | .bytes data => Text.quotedBytes data

namespace Object

/-- Items between two marks, separated by commas. -/
def listed (opening : String) (items : List String) (closing : String) : String :=
  opening ++ ", ".intercalate items ++ closing

/-- Entries in braces. -/
def braced (entries : List (String × String)) : String :=
  listed "\x7b" (entries.map fun (key, value) => key ++ ": " ++ value) "\x7d"

/-- What is printed for an object **inside itself**, if it is printed there in another way: a
wrapped record or a collection is printed as always, since what it wraps ends the printing. -/
def cut? : Object → Option String
  | .list _ => some "[...]"
  | .tuple _ => some "(...)"
  | .set _ => some "set(...)"
  | .frozenSet _ => some "frozenset(...)"
  | .mapping _ => some "\x7b...\x7d"
  | .readOnlyMapping _ => some "mappingproxy(\x7b...\x7d)"
  | .attributes _ => some "namespace(...)"
  | .sealed _ => some "Sealed(\x7b...\x7d)"
  | _ => none

/-- The printed form of an object, given that of its parts. A tuple of one item keeps a comma, an
empty set is named, and an attribute without a name is left out. -/
def printedWith (inner : Ref → String) (record : Ref → Ref) : Object → String
  | .scalar s => s.printed
  | .list items => listed "[" (items.map inner) "]"
  | .tuple [item] => "(" ++ inner item ++ ",)"
  | .tuple items => listed "(" (items.map inner) ")"
  | .set [] => "set()"
  | .set items => listed "\x7b" (items.map inner) "\x7d"
  | .frozenSet [] => "frozenset()"
  | .frozenSet items => listed "frozenset(\x7b" (items.map inner) "\x7d)"
  | .mapping entries => braced (entries.map fun (key, value) => (inner key, inner value))
  | .readOnlyMapping entries =>
    "mappingproxy(" ++ braced (entries.map fun (key, value) => (inner key, inner value)) ++ ")"
  | .attributes fields =>
    listed "namespace("
      ((fields.filter fun field => !field.1.isEmpty).map fun (name, value) =>
        name ++ "=" ++ inner value) ")"
  | .sealed fields =>
    "Sealed(" ++ braced (fields.map fun (name, value) => (Text.quoted name, inner value)) ++ ")"
  | .stream _ => "<generator object>"
  | .function _ => "<function>"
  | .node data => "Node(" ++ inner data.record ++ ")"
  | .collection nodes _ =>
    listed "Collection([" (nodes.map fun node => inner (record node)) "])"
  | .locator l _ => l.printed

end Object

namespace Store

/-- The printed form of a value inside the given places, opening at most `depth` more. -/
def printedInside (σ : Store) : Nat → List Nat → Ref → String
  | _, _, .plain s | _, _, .fresh s => s.printed
  | _, _, .noItems => "()"
  | 0, _, .held _ => "..."
  | depth + 1, inside, .held place =>
    let o := σ.look (.held place)
    match o.cut? with
    | none => o.printedWith (σ.printedInside depth inside) σ.unwrapped
    | some mark =>
      -- a place that is open already is not opened again
      if inside.contains place then mark
      else o.printedWith (σ.printedInside depth (place :: inside)) σ.unwrapped

/-- A bound on the depth of printed forms. No place of a container is opened inside itself, and
between two of them there are at most as many wrapped records and collections as places. -/
def printingDepth (σ : Store) : Nat := (σ.size + 1) * (σ.size + 1)

/-- The **printed form** of a value. -/
def printed (σ : Store) (r : Ref) : String := σ.printedInside σ.printingDepth [] r

/-- The printed form of a new list of values. -/
def printedList (σ : Store) (items : List Ref) : String :=
  Object.listed "[" (items.map σ.printed) "]"

/-- A text as it is, a mapping that cannot be written to like one that can, anything else as
printed. -/
def plainText (σ : Store) (r : Ref) : String :=
  match r, σ.look r with
  | _, .scalar (.text s) => s
  | .held place, .readOnlyMapping entries =>
    (Object.mapping entries).printedWith (σ.printedInside σ.printingDepth [place]) σ.unwrapped
  | _, _ => σ.printed r

/-- The text that a scalar is **compared** by: truth values in small letters, an integral number
without a fraction, a text as it is. -/
def scalarComparison : Scalar → String
  | .bool b => if b then "true" else "false"
  | .double x => match x.toInt? with
    | some n => toString n
    | none => x.text
  | .text s => s
  | s => s.printed

/-- The text form of a value for comparison. -/
def stringify (σ : Store) (r : Ref) : String :=
  match σ.look r with
  | .scalar s => scalarComparison s
  | _ => σ.plainText r

/-- The text that a value is **compared** by; the absent value has none. -/
def comparisonText (σ : Store) (r : Ref) : Option String :=
  if σ.isNull r then none else some (σ.stringify r)

/-- Whether a value **matches** a literal: it is there, and its text is the literal. -/
def matchesText (σ : Store) (r : Ref) (literal : String) : Bool :=
  σ.comparisonText r == some literal

end Store

end RecordQuery
