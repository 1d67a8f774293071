import RecordQuery.Record.Printed
import RecordQuery.Selector.Locator

/-! # Failures

Everything that can go wrong, by its cause. The wording of a failure is a function of the cause and
of the store, in which the records that it speaks of are found.

* `Failure`: the causes.
* `Failure.kinds`: the kind of a failure and the wider kinds that it belongs to.
* `Failure.message`: what is said about a failure. -/

namespace RecordQuery

/-- What **can go wrong**. -/
inductive Failure
  /-- A selector cannot be parsed. -/
  | selector (selector : String) (error : ParseError)
  /-- A condition cannot be evaluated. -/
  | condition (unsupported : UnsupportedCondition)
  /-- A value of a type that is neither a function nor a field name was given as an accessor. -/
  | unsuitableAccessor (typeName : String)
  /-- A field of a record cannot be set. -/
  | unsettable (target : Ref) (reason : Store.Refusal)
  /-- An accessor failed on a field. -/
  | accessor (field : String)
  /-- A value of a type without items was gone through. -/
  | notIterable (typeName : String)
  /-- An option that is not recognized has no text as its key. -/
  | unnamedOption (index : Nat) (typeName : String)
  /-- There is no item at an index. -/
  | indexOutOfRange
  /-- An index is too large for any sequence. -/
  | indexTooLarge
  /-- A slice has a step of zero. -/
  | zeroStep
  /-- An item is not in a collection. -/
  | notFound
  /-- An item is not in a list. -/
  | notInList (item : Ref)
  /-- A value of a type that may change has no hash. -/
  | unhashable (typeName : String)
  /-- A value that lies inside itself cannot be written out. -/
  | circular
  /-- A key of a type cannot be written out. -/
  | unwritableKey (typeName : String)
deriving DecidableEq, Repr

/-- The **kind** of a failure, followed by the wider kinds of the library that it belongs to, the
nearest first. A kind that any program may meet belongs to no wider one. -/
def Failure.kinds : Failure → List String
  | .selector _ (.unrecognized _) | .selector _ (.malformed _) =>
    ["SelectorSyntaxError", "ParseError", "GQueryError"]
  | .selector _ (.redundantCombinator _) =>
    ["RedundantCombinatorError", "ParseError", "GQueryError"]
  | .condition _ => ["UnsupportedConditionError", "ParseError", "GQueryError"]
  | .unsuitableAccessor _ => ["AdapterError", "GQueryError"]
  | .unsettable _ _ => ["InvalidAccessorTargetError", "AdapterError", "GQueryError"]
  | .accessor _ | .zeroStep | .notFound | .notInList _ | .circular => ["ValueError"]
  | .notIterable _ | .unnamedOption _ _ | .unhashable _ | .unwritableKey _ => ["TypeError"]
  | .indexOutOfRange | .indexTooLarge => ["IndexError"]

/-- What is **said** about a failure. -/
def Failure.message (σ : Store) : Failure → String
  | .selector written error => error.message written
  | .condition unsupported => unsupported.message
  | .unsuitableAccessor typeName =>
    "Accessor must be a callable or a field name, got " ++ typeName
  | .unsettable target .fieldless =>
    "Cannot set a property of a " ++ σ.typeName target ++ "!"
  | .unsettable target (.refused reason) =>
    "Cannot set a property of " ++ σ.printed target ++ ": " ++ reason
  | .accessor field => "accessor failed on " ++ field
  | .notIterable typeName => "'" ++ typeName ++ "' object is not iterable"
  | .unnamedOption index typeName =>
    "sequence item " ++ toString index ++ ": expected str instance, " ++ typeName ++ " found"
  | .indexOutOfRange => "list index out of range"
  | .indexTooLarge => "cannot fit 'int' into an index-sized integer"
  | .zeroStep => "slice step cannot be zero"
  | .notFound => ""
  | .notInList item => σ.printed item ++ " is not in list"
  | .unhashable typeName => "unhashable type: '" ++ typeName ++ "'"
  | .circular => "Circular reference detected"
  | .unwritableKey typeName =>
    "keys must be str, int, float, bool or None, not " ++ typeName

end RecordQuery
