/-! # Selectors

A selector is a sequence of parts. Each part names an id, a class or a name to look for, may ask
for one attribute to equal a literal, and says whether it looks only at the records it is given or
at all records below them as well.

* `Kind`: which label of a record a part compares.
* `Condition`: an attribute test such as `bar="baz"`.
* `Part`: one part of a selector, with its written form.
* `Part.listing`: the line that describes a part. -/

namespace RecordQuery

/-- The **kind** of a part: the label that it compares. -/
inductive Kind
  /-- The id of a record, written `#id`. -/
  | id
  /-- The class of a record, written `.class`. -/
  | className
  /-- The name of a record, written as it is. -/
  | name
deriving DecidableEq, Repr

/-- The word for a kind. -/
def Kind.word : Kind → String
  | .id => "id"
  | .className => "class"
  | .name => "name"

/-- The mark that a part of this kind starts with. -/
def Kind.sigil : Kind → List Char
  | .id => ['#']
  | .className => ['.']
  | .name => []

/-- A **condition**: an attribute, an operator and a literal. -/
structure Condition where
  /-- The attribute that is read. -/
  property : String
  /-- The literal that it is compared with. -/
  value : String
  /-- The comparison; only equality can be evaluated. -/
  operator : String := "="
deriving DecidableEq, Repr

namespace Condition

/-- The operator that can be evaluated. -/
def equality : String := "="

/-- A condition is **supported** when its operator is equality. -/
def Supported (c : Condition) : Prop := c.operator = equality

instance (c : Condition) : Decidable c.Supported := inferInstanceAs (Decidable (_ = _))

/-- The condition as it is written between brackets. -/
def text (c : Condition) : String := c.property ++ c.operator ++ "\"" ++ c.value ++ "\""

end Condition

/-- A **part** of a selector. -/
structure Part where
  /-- The label that is compared. -/
  kind : Kind
  /-- The text that the label must have. -/
  value : String
  /-- Whether only the given records are looked at, and none below them. -/
  direct : Bool := false
  /-- The attribute test that must hold as well. -/
  condition : Option Condition := none
  /-- The written form of the part. -/
  source : String := ""
deriving DecidableEq, Repr

namespace Part

/-- What a part is called: its written form, or its value if it has none. -/
def label (p : Part) : String := if p.source.isEmpty then p.value else p.source

/-- The line that **describes** a part. -/
def listing (p : Part) : String :=
  "kind=" ++ p.kind.word ++ " value=" ++ p.value ++
    " direct=" ++ (if p.direct then "true" else "false") ++
    match p.condition with
    | none => ""
    | some c => " condition=" ++ c.text

/-- A part is **supported** when its condition, if any, is. -/
def Supported (p : Part) : Prop := ∀ c ∈ p.condition, c.Supported

/-- A part without a condition is supported. -/
theorem supported_of_none {p : Part} (h : p.condition = none) : p.Supported := by
  rw [Supported, h]
  intro c hc
  cases hc

/-- A part with a condition is supported exactly if the condition is. -/
theorem supported_iff_of_some {p : Part} {c : Condition} (h : p.condition = some c) :
    p.Supported ↔ c.Supported := by
  rw [Supported, h]
  exact ⟨fun hp => hp c rfl, fun hc d hd => by cases hd; exact hc⟩

instance (p : Part) : Decidable p.Supported :=
  match h : p.condition with
  | none => .isTrue (supported_of_none h)
  | some c => decidable_of_iff c.Supported (supported_iff_of_some h).symm

end Part

end RecordQuery
