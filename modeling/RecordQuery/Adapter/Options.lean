import RecordQuery.Adapter.Accessor

/-! # Options

Which accessors replace the usual ones. Options come as entries under keys; the four keys that mean
something are kept, all others are ignored and told about, for which they must be texts.

* `Setting`: what is given for one accessor.
* `Options`: the settings of the four accessors.
* `Options.ofEntries`: options from entries, with the names of the ignored keys. -/

namespace RecordQuery

/-- What is **given** for one accessor. -/
inductive Setting
  /-- Nothing: the usual accessor is kept. -/
  | unset
  /-- A field name. -/
  | field (name : String)
  /-- A function. -/
  | function (f : RecordFunction)
  /-- A value of a type that is neither. -/
  | unsuitable (typeName : String)

namespace Setting

/-- A value of a store as a setting, where functions have numbers. -/
def ofValue (functions : Array RecordFunction) (σ : Store) (r : Ref) : Setting :=
  match σ.look r with
  | .scalar .null => .unset
  | .scalar (.text name) => .field name
  | .function number => match functions[number]? with
    | some f => .function f
    | none => .unsuitable "function"
  | o => .unsuitable o.typeName

/-- The accessor that a setting **asks for**, the usual one if nothing is given. -/
def resolve (usual : Accessor) : Setting → Except Failure Accessor
  | .unset => .ok usual
  | .field name => .ok (.field name)
  | .function f => .ok (.function f)
  | .unsuitable typeName => .error (.unsuitableAccessor typeName)

/-- A setting as it is printed. -/
def printed : Setting → String
  | .unset => "None"
  | .field name => Text.quoted name
  | .function _ => "<function>"
  | .unsuitable typeName => typeName

end Setting

/-- The **options**: a setting for each accessor. -/
structure Options where
  /-- The setting for the id. -/
  id : Setting := .unset
  /-- The setting for the name. -/
  name : Setting := .unset
  /-- The setting for the class. -/
  className : Setting := .unset
  /-- The setting for the children. -/
  children : Setting := .unset

namespace Options

/-- The keys that mean something. -/
def keys : List String := ["id", "name", "class", "children"]

/-- The setting under a key, if it is there. -/
def settingAt (σ : Store) (key : String) (entries : List (Ref × Setting)) : Setting :=
  match entries.find? fun entry => σ.text? entry.1 == some key with
  | some entry => entry.2
  | none => .unset

/-- The names of keys, the first of which is the one at an index; a key that is no text has none. -/
def names (σ : Store) (index : Nat) : List Ref → Except Failure (List String)
  | [] => .ok []
  | key :: rest =>
    match σ.text? key with
    | none => .error (.unnamedOption index (σ.typeName key))
    | some name => do
      let others ← names σ (index + 1) rest
      return name :: others

/-- The keys of entries that mean nothing. -/
def ignored (σ : Store) (entries : List (Ref × Setting)) : List Ref :=
  (entries.map (·.1)).filter fun key => !(σ.text? key).any keys.contains

/-- The settings of entries under the keys that mean something. -/
def ofSettings (σ : Store) (entries : List (Ref × Setting)) : Options where
  id := settingAt σ "id" entries
  name := settingAt σ "name" entries
  className := settingAt σ "class" entries
  children := settingAt σ "children" entries

/-- The **options from entries**, and the names of the keys that are ignored. -/
def ofEntries (σ : Store) (entries : List (Ref × Setting)) :
    Except Failure (Options × List String) := do
  let ignoredNames ← names σ 0 (ignored σ entries)
  return (ofSettings σ entries, ignoredNames)

/-- Options as they are printed. -/
def printed (o : Options) : String :=
  "AdapterOptions(id=" ++ o.id.printed ++ ", name=" ++ o.name.printed ++ ", class_=" ++
    o.className.printed ++ ", children=" ++ o.children.printed ++ ")"

end Options

end RecordQuery
