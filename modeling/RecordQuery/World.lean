import RecordQuery.Adapter.Basic
import RecordQuery.Log

/-! # The world of a session

What a session changes: the store with its records and wrapped records, the functions and the
adapters in use, and the log. A step of a session may fail, and what it has changed by then stays changed.

* `World`: the store, the functions, the adapters and the log.
* `Session`: steps that change the world, with a result or a failure.
* `Session.optionsOf`: the options that a mapping stands for.
* `Store.seedsOf`: the records that a value stands for as the start of a search.
* `Session.find`: the records that a locator finds. -/

namespace RecordQuery

namespace Store

/-- The records that a value stands for as the **start of a search**, wrapped records without their
wrapping: a collection, a sequence or a set stands for its items, anything else for itself. -/
def seedsOf (σ : Store) (target : Ref) : List Ref :=
  match σ.look target with
  | .collection nodes _ => nodes.map σ.unwrapped
  | .list items | .tuple items | .set items | .frozenSet items | .stream items =>
    items.map σ.unwrapped
  | .node data => [data.record]
  | _ => [target]

/-- The store once a value has been gone through: items that can be taken once are taken. -/
def drained (σ : Store) (target : Ref) : Store :=
  match σ.look target with
  | .stream _ => σ.put target (.stream [])
  | _ => σ

end Store

/-- The **world** of a session. -/
structure World where
  /-- The values. -/
  store : Store := {}
  /-- The functions, by their numbers. -/
  functions : Array RecordFunction := #[]
  /-- The adapters, by their numbers. -/
  adapters : Array Adapter := #[]
  /-- What has been told. -/
  log : Array LogEntry := #[]

/-- Steps of a **session**: they may change the world, and have a result or a failure. -/
abbrev Session (α : Type) : Type := ExceptT Failure (StateM World) α

namespace Session

/-- The store. -/
def store : Session Store := do return (← get).store

/-- A change of the store. -/
def modifyStore (f : Store → Store) : Session Unit :=
  modify fun w => { w with store := f w.store }

/-- A new place of the store with an object. -/
def alloc (o : Object) : Session Ref :=
  modifyGet fun w =>
    let (r, σ) := w.store.alloc o
    (r, { w with store := σ })

/-- A scalar as a value of the store. -/
def allocScalar (s : Scalar) : Session Ref :=
  modifyGet fun w =>
    let (r, σ) := w.store.allocScalar s
    (r, { w with store := σ })

/-- A value with a place, if it needs one. -/
def settle (r : Ref) : Session Ref :=
  modifyGet fun w =>
    let (r, σ) := w.store.settle r
    (r, { w with store := σ })

/-- Several values with places, if they need them. -/
def settleAll : List Ref → Session (List Ref)
  | [] => return []
  | r :: rest => do
    let r ← settle r
    let others ← settleAll rest
    return r :: others

/-- A result without a change of the world, or a failure. -/
def attempt {α : Type} (x : Except Failure α) : Session α := ExceptT.mk (pure x)

/-- Adds an entry to the log. -/
def tell (e : LogEntry) : Session Unit := modify fun w => { w with log := w.log.push e }

/-! ### Adapters -/

/-- Puts an adapter to use, under a new number. -/
def addAdapter (A : Adapter) : Session Nat :=
  modifyGet fun w => (w.adapters.size, { w with adapters := w.adapters.push A })

/-- The adapter with a number. -/
def adapterAt (n : Nat) : Session Adapter := do return ((← get).adapters[n]?).getD .usual

/-- Makes a function known, as a value of the store. -/
def addFunction (f : RecordFunction) : Session Ref := do
  let number ← modifyGet fun w => (w.functions.size, { w with functions := w.functions.push f })
  alloc (.function number)

/-- A value as a setting. -/
def settingOf (r : Ref) : Session Setting := do
  return .ofValue (← get).functions (← store) r

/-- The entries of a mapping as settings; a value that is no mapping has none. -/
def settingsOf (r : Ref) : Session (List (Ref × Setting)) := do
  let functions := (← get).functions
  let σ ← store
  return ((σ.look r).entries?.getD []).map fun (key, value) => (key, .ofValue functions σ value)

/-- The **options** that a mapping stands for. Ignored keys are told about, if there are any. -/
def optionsOf (r : Ref) : Session Options := do
  let (options, ignored) ← attempt (Options.ofEntries (← store) (← settingsOf r))
  if ignored.isEmpty then return options
  else
    tell (.ignoredOptions ignored)
    return options

/-! ### Searching -/

/-- The locator for a written selector. -/
def parseLocator (selector : String) : Session Locator :=
  match Locator.parse selector with
  | .ok l => do
    tell (.parsed selector l.parts.length)
    return l
  | .error e => throw (.selector selector e)

/-- The locator for parts. -/
def partsLocator (parts : List Part) : Session Locator :=
  match Locator.ofParts parts with
  | .ok l => return l
  | .error u => throw (.condition u)

/-- The computation of a search within a session: its events go to the log. -/
def ofTraced {α : Type} (x : Traced Ref Failure α) : Session α := do
  let σ ← store
  x.events.forM fun e => tell (e.entry σ)
  attempt x.result

/-- The records that a locator **finds** from the given seeds. -/
def findFrom (adapter : Nat) (l : Locator) (seeds : List Ref) : Session (List Ref) := do
  let A ← adapterAt adapter
  settleAll (← ofTraced ((A.view (← store)).find l seeds))

/-- The records that a locator **finds** from a value. -/
def find (adapter : Nat) (l : Locator) (target : Ref) : Session (List Ref) := do
  let seeds := (← store).seedsOf target
  modifyStore (·.drained target)
  findFrom adapter l seeds

end Session

end RecordQuery
