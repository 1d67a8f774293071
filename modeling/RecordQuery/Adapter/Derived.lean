import RecordQuery.Adapter.Accessor
import RecordQuery.Text.Uppercase

/-! # Derived accessors

Functions of a record that are often wanted as accessors: a field in capitals, the first of several
fields, all values, the items of a field, the divisors of a number, the printed form, a constant,
the record itself, and one that refuses records with a certain field. -/

namespace RecordQuery.RecordFunction

/-- A field, in **capitals** if it is a text. -/
def upper (name : String) : RecordFunction where
  call σ r :=
    let v := σ.readField r name
    .ok (.value (match σ.text? v with
      | some s => if s.isEmpty then v else .fresh (.text (Text.upper s))
      | none => v))

/-- The **first** of several fields that is there. -/
def firstOf (names : List String) : RecordFunction where
  call σ r := .ok (.value
    (((names.map (σ.readField r)).find? fun v => !σ.isNull v).getD .null))

/-- A **constant**. -/
def constant (v : Ref) : RecordFunction where
  call _ _ := .ok (.value v)

/-- The **text** of the record: a text is its own, the texts of the truth values are always the
same, and any other text is made anew. -/
def text : RecordFunction where
  call σ r := .ok (.value (match σ.look r with
    | .scalar (.text _) => r
    | .scalar (.bool b) => .plain (.text (Scalar.bool b).printed)
    | _ => .fresh (.text (σ.plainText r))))

/-- **Refuses** mappings that have a field, and gives nothing for anything else. -/
def refusing (name : String) : RecordFunction where
  call σ r :=
    match σ.look r with
    | .mapping entries =>
      if (σ.lookup? name entries).isSome then .error (.accessor name) else .ok (.value .null)
    | _ => .ok (.value .null)

/-- A new list of **the record itself**. -/
def itself : RecordFunction where
  call _ r := .ok (.list [r])

/-- The **values** of a mapping or the items of a list, as a new list. -/
def values : RecordFunction where
  call σ r :=
    match σ.look r with
    | .mapping entries => .ok (.list (entries.map (·.2)))
    | .list items => .ok (.list items)
    | _ => .ok (.value .null)

/-- The **items of a field** of a mapping, one by one; nothing for anything else. Items of the field
that can be taken only once are left there. -/
def itemsOf (name : String) : RecordFunction where
  call σ r :=
    match σ.look r with
    | .mapping entries =>
      match σ.lookup? name entries with
      | none => .ok (.stream [])
      | some v =>
        if σ.isTruthy v then match σ.items? v with
          | some items => .ok (.stream items)
          | none => .error (.notIterable (σ.look v).qualifiedTypeName)
        else .ok (.stream [])
    | _ => .ok (.value .null)

/-- The **divisors** of an integer other than one and itself, in increasing order. -/
def divisorsOf (n : Int) : List Int :=
  ((List.range n.toNat).filter fun (d : Nat) => 2 ≤ d && n % (d : Int) == 0).map Int.ofNat

/-- The **divisors** of an integer record, as a new list; nothing for anything else. -/
def divisors : RecordFunction where
  call σ r :=
    match σ.look r with
    | .scalar (.int n) => .ok (.list ((divisorsOf n).map fun d => (Scalar.int d).ref))
    | _ => .ok (.value .null)

end RecordQuery.RecordFunction
