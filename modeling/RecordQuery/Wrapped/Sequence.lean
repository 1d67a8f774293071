/-! # Places in a sequence

Places are counted from zero at the start, or from minus one at the end. A slice takes every so many
items from a start to a stop, both of which may lie outside the sequence.

* `itemAt?`: the item at a place.
* `Slice.indices`: the places that a slice takes.
* `firstIndexFrom?`: the first place in a range whose item passes a test. -/

namespace RecordQuery

/-- The **item** at a place, counted from the start or the end. -/
def itemAt? {α : Type} (items : List α) (index : Int) : Option α :=
  let place := if index < 0 then index + items.length else index
  if place < 0 then none else items[place.toNat]?

/-- A **slice**: where to start, where to stop, and the step; what is not given goes to the end that
the step comes from or goes to. -/
structure Slice where
  /-- The first place. -/
  start : Option Int := none
  /-- The place before which to stop. -/
  stop : Option Int := none
  /-- The step, one if it is not given. -/
  step : Option Int := none
deriving DecidableEq, Repr

namespace Slice

/-- A place brought into the range from `low` to `high`, after counting it from the end if it is
negative. -/
def clamp (length low high place : Int) : Int :=
  if place < 0 then max low (place + length) else min high place

/-- Places from one on, in steps, that come before a stop. -/
def placesFrom (step stop : Int) : Nat → Int → List Nat
  | 0, _ => []
  | n + 1, place =>
    if (0 < step && place < stop) || (step < 0 && stop < place) then
      place.toNat :: placesFrom step stop n (place + step)
    else []

/-- The **places** that a slice takes from a sequence of a length; none is defined for a step of
zero. -/
def indices (s : Slice) (length : Nat) : Option (List Nat) :=
  let step := s.step.getD 1
  if step = 0 then none
  else if 0 < step then
    let start := (s.start.map (clamp length 0 length)).getD 0
    let stop := (s.stop.map (clamp length 0 length)).getD length
    some (placesFrom step stop length start)
  else
    let start := (s.start.map (clamp length (-1) (length - 1))).getD (length - 1)
    let stop := (s.stop.map (clamp length (-1) (length - 1))).getD (-1)
    some (placesFrom step stop length start)

/-- The **items** that a slice takes. -/
def items {α : Type} (s : Slice) (xs : List α) : Option (List α) :=
  (s.indices xs.length).map fun places => places.filterMap (xs[·]?)

end Slice

/-- The **first place**, from a start on and before a stop, whose item passes a test. A negative
start or stop is counted from the end; a start before the sequence is its start. -/
def firstIndexFrom? {α : Type} (test : α → Bool) (items : List α) (start : Int)
    (stop : Option Int) : Option Nat :=
  let start := if start < 0 then max (items.length + start) 0 else start
  let stop := stop.map fun (place : Int) => if place < 0 then place + items.length else place
  (List.range items.length).find? fun index =>
    start ≤ index && stop.all (fun place => (index : Int) < place) && items[index]?.any test

end RecordQuery
