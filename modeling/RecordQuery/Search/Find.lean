import RecordQuery.Search.Walk
import RecordQuery.Selector.Locator

/-! # Finding records

A locator is applied part by part. The first part searches the seeds; every later part searches the
children of the records that the part before it found. A part looks at all records below those it is
given, unless it is direct. Results keep their order and are not made unique.

* `Event`: what happens on the way that is worth telling.
* `Traced`: a result or failure with the events before it.
* `View.searchPart`: the records that satisfy one part.
* `View.find`: the records that a locator finds. -/

namespace RecordQuery

/-- An **event** of a search. -/
inductive Event (ρ : Type)
  /-- A record was met again below itself. -/
  | repeated (record : ρ)
  /-- A selector without parts gave its seeds back. -/
  | noParts (seeds : Nat)
  /-- A part of a selector was applied. -/
  | applied (source : String) (index : Nat) (part : Part) (candidates matched : Nat)
deriving DecidableEq, Repr

/-- A result or failure with the events before it. -/
structure Traced (ρ ε α : Type) where
  /-- The events, in order. -/
  events : List (Event ρ)
  /-- The result, or the failure. -/
  result : Except ε α

namespace Traced

variable {ρ ε α β : Type}

/-- One computation after another; a failure ends both. -/
def bind (x : Traced ρ ε α) (f : α → Traced ρ ε β) : Traced ρ ε β :=
  match x.result with
  | .ok a => ⟨x.events ++ (f a).events, (f a).result⟩
  | .error e => ⟨x.events, .error e⟩

instance : Monad (Traced ρ ε) where
  pure a := ⟨[], .ok a⟩
  bind := bind

/-- Tells an event. -/
def tell (e : Event ρ) : Traced ρ ε Unit := ⟨[e], .ok ()⟩

/-- A computation without events. -/
def lift (x : Except ε α) : Traced ρ ε α := ⟨[], x⟩

end Traced

/-- The outcome of a search as a computation that tells the records met again below themselves. -/
def Outcome.traced {ρ ε : Type} (o : Outcome ρ ε) : Traced ρ ε (List ρ) :=
  ⟨o.repeated.map .repeated, o.result⟩

/-- The children of all given records, in order, or the first failure to read them. -/
def Graph.expand {ρ ε : Type} (G : Graph ρ ε) : List ρ → Except ε (List ρ)
  | [] => .ok []
  | r :: rs => do
    let children ← G.children r
    let rest ← G.expand rs
    return children ++ rest

namespace View

variable {ρ ε : Type} [DecidableEq ρ] [Hashable ρ]

/-- The records that satisfy **one part**: among those given if the part is direct, else among those
below them as well. -/
def searchPart (V : View ρ ε) (p : Part) (candidates : List ρ) : Outcome ρ ε :=
  V.search (!p.direct) (V.satisfies p) candidates

/-- The records that **a sequence of parts** leads to from the given candidates. -/
def follow (V : View ρ ε) (source : String) (index : Nat) :
    List Part → List ρ → Traced ρ ε (List ρ)
  | [], candidates => pure candidates
  | p :: ps, candidates => do
    let found ← (V.searchPart p candidates).traced
    Traced.tell (.applied source index p candidates.length found.length)
    -- the children of the records found are read only if a part is left to search them
    if ps.isEmpty then return found
    else
      let next ← Traced.lift (V.expand found)
      V.follow source (index + 1) ps next

/-- The records that **a locator finds** from its seeds; one without parts gives its seeds back. -/
def find (V : View ρ ε) (l : Locator) (seeds : List ρ) : Traced ρ ε (List ρ) :=
  if l.parts.isEmpty then do
    Traced.tell (.noParts seeds.length)
    return seeds
  else V.follow l.source 0 l.parts seeds

end View

end RecordQuery
