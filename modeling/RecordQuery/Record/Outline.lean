import RecordQuery.Failure

/-! # Records written out as JSON

A value is written as JSON in ASCII, on one line or with each item on a line of its own. What JSON
does not know is written as its printed form in a text. A value that lies inside itself cannot be
written, and keys must be scalars that have a JSON form.

* `Layout`: on one line, or indented.
* `Store.json`: a value written out. -/

namespace RecordQuery

/-- How items are **laid out**. -/
inductive Layout
  /-- All on one line. -/
  | line
  /-- Each on a line of its own, indented by so many spaces more than what holds it. -/
  | indented (width : Nat)
deriving DecidableEq, Repr

/-- What stands between two items, and between a bracket and the items, at a depth. -/
def Layout.breakAt (layout : Layout) (depth : Nat) : String :=
  match layout with
  | .line => ""
  | .indented width => "\n" ++ String.ofList (List.replicate (width * depth) ' ')

/-- Items between brackets, at a depth. -/
def Layout.bracket (layout : Layout) (depth : Nat) (opening closing : String)
    (items : List String) : String :=
  if items.isEmpty then opening ++ closing
  else
    let separator := match layout with
      | .line => ", "
      | .indented _ => "," ++ layout.breakAt (depth + 1)
    opening ++ layout.breakAt (depth + 1) ++ separator.intercalate items ++
      layout.breakAt depth ++ closing

/-- One character of a JSON text: the quote, the backslash and the common controls behind a
backslash, any other character outside the visible ASCII range by its one or two units of sixteen
bits. -/
def jsonEscaped (c : Char) : List Char :=
  let unit (n : Nat) : List Char := '\\' :: 'u' :: Text.hex 4 n
  if c = '"' || c = '\\' then ['\\', c]
  else if c = '\n' then ['\\', 'n']
  else if c = '\r' then ['\\', 'r']
  else if c = '\t' then ['\\', 't']
  else if c = '\x0c' then ['\\', 'f']
  else if c = '\x08' then ['\\', 'b']
  else if ' ' ≤ c && c ≤ '~' then [c]
  -- beyond the first plane two units of sixteen bits stand for one character
  else if c.toNat < 0x10000 then unit c.toNat
  else
    let n := c.toNat - 0x10000
    unit (0xD800 + n / 0x400) ++ unit (0xDC00 + n % 0x400)

/-- A text as JSON. -/
def jsonText (s : String) : String :=
  String.ofList ('"' :: s.toList.flatMap jsonEscaped ++ ['"'])

/-- A number as JSON; the infinities and non-numbers have names. -/
def jsonDouble (x : Double) : String :=
  match x.decode with
  | .finite _ _ _ => x.text
  | .infinite negative => if negative then "-Infinity" else "Infinity"
  | .nan => "NaN"

/-- A scalar as JSON, if it has a form there. -/
def jsonScalar? : Scalar → Option String
  | .null => some "null"
  | .bool b => some (if b then "true" else "false")
  | .int n => some (toString n)
  | .double x => some (jsonDouble x)
  | .text s => some (jsonText s)
  | .bytes _ => none

namespace Store

/-- The text of a key, if it can be one. -/
def jsonKey (σ : Store) (key : Ref) : Except Failure String :=
  match σ.look key with
  | .scalar (.text s) => .ok (jsonText s)
  | .scalar s => match jsonScalar? s with
    | some text => .ok (jsonText text)
    | none => .error (.unwritableKey s.typeName)
  | o => .error (.unwritableKey o.typeName)

/-- A value as JSON, at a depth, inside the given places, opening at most `fuel` more. -/
def jsonInside (σ : Store) (layout : Layout) :
    Nat → List Nat → Nat → Ref → Except Failure String
  | 0, _, _, _ => .error .circular
  | fuel + 1, inside, depth, r =>
    let inner := match r with
      | .held place => σ.jsonInside layout fuel (place :: inside) (depth + 1)
      | _ => σ.jsonInside layout fuel inside (depth + 1)
    let isOpen := match r with
      | .held place => inside.contains place
      | _ => false
    match σ.look r with
    | .scalar s => .ok ((jsonScalar? s).getD (jsonText s.printed))
    | .list items | .tuple items =>
      if isOpen then .error .circular
      else do return layout.bracket depth "[" "]" (← items.mapM inner)
    | .mapping entries =>
      if isOpen then .error .circular
      else do
        let written ← entries.mapM fun (key, value) => do
          let name ← σ.jsonKey key
          let text ← inner value
          return name ++ ": " ++ text
        return layout.bracket depth "\x7b" "\x7d" written
    | _ => .ok (jsonText (σ.printed r))

/-- A value **written out** as JSON. No place is opened inside itself, so the number of places
bounds the depth. -/
def json (σ : Store) (layout : Layout) (r : Ref) : Except Failure String :=
  σ.jsonInside layout (σ.size + 2) [] 0 r

/-- A new list of values written out as JSON. -/
def jsonList (σ : Store) (layout : Layout) (items : List Ref) : Except Failure String := do
  return layout.bracket 0 "[" "]"
    (← items.mapM (σ.jsonInside layout (σ.size + 2) [] 1))

end Store

end RecordQuery
