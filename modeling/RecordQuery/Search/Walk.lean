import RecordQuery.Search.Graph
import Std.Data.ExtHashSet

/-! # Walking a record graph

A search visits the given records and all records below them, each before its children, and
collects those that pass a test. A record that is met again below itself is reported and not
entered, so the walk ends even where records lie below themselves. The walk keeps a stack of
frames, one per open record, and the set of the open records.

* `Walk`: the state of a walk.
* `Walk.next`: one step, over the next sibling of the top frame, and the `Walk.Progress` it makes.
* `Walk.run`: all steps to the end, with `Walk.run_eq` for one of them at a time.
* `Graph.search`: the records that pass a test, with the records met again below themselves. -/

namespace RecordQuery

/-- A **frame**: the siblings still to be visited, and the open record whose children they are. -/
structure Frame (ρ : Type) where
  /-- The siblings still to be visited. -/
  siblings : List ρ
  /-- The record whose children they are; the given records have none. -/
  owner : Option ρ
deriving Repr

/-- The state of a **walk**. -/
structure Walk (ρ : Type) [DecidableEq ρ] [Hashable ρ] where
  /-- The frames, the innermost first. -/
  stack : List (Frame ρ)
  /-- The open records. -/
  ancestors : Std.ExtHashSet ρ := ∅
  /-- The records that passed the test, the last one first. -/
  found : List ρ := []
  /-- The records met again below themselves, the last one first. -/
  repeated : List ρ := []

/-- What a search gives: the records met again below themselves, and the records found or the
failure that ended the search. -/
structure Outcome (ρ ε : Type) where
  /-- The records met again below themselves, in order. -/
  repeated : List ρ
  /-- The records found, in order, or the first failure. -/
  result : Except ε (List ρ)

instance {ρ ε : Type} : Nonempty (Outcome ρ ε) := ⟨⟨[], .ok []⟩⟩

/-- The records that pass a test, in order, or the first failure of the test. -/
def keep {ρ ε : Type} (test : ρ → Except ε Bool) : List ρ → Except ε (List ρ)
  | [] => .ok []
  | r :: rs => do
    let passed ← test r
    let kept ← keep test rs
    return if passed then r :: kept else kept

namespace Walk

variable {ρ ε : Type} [DecidableEq ρ] [Hashable ρ]

/-- The start of a walk over the given records. -/
def start (records : List ρ) : Walk ρ := { stack := [⟨records, none⟩] }

/-- The open records once a frame is left. -/
def leave (owner : Option ρ) (ancestors : Std.ExtHashSet ρ) : Std.ExtHashSet ρ :=
  match owner with
  | none => ancestors
  | some r => ancestors.erase r

/-- What one step of a walk **leads to**. -/
inductive Progress (ρ ε : Type) [DecidableEq ρ] [Hashable ρ]
  /-- The walk has ended. -/
  | ended (outcome : Outcome ρ ε)
  /-- The walk goes on. -/
  | further (w : Walk ρ)

/-- **One step** of a walk: an empty frame is left; a record that is open is reported; any other
record is tested and opened. The walk ends once no frame is left, or at the first failure. -/
def next (G : Graph ρ ε) (test : ρ → Except ε Bool) : Walk ρ → Progress ρ ε
  | ⟨[], _, found, repeated⟩ => .ended ⟨repeated.reverse, .ok found.reverse⟩
  | ⟨⟨[], owner⟩ :: rest, ancestors, found, repeated⟩ =>
    -- no sibling is left: the record above them is open no longer
    .further ⟨rest, leave owner ancestors, found, repeated⟩
  | ⟨⟨r :: siblings, owner⟩ :: rest, ancestors, found, repeated⟩ =>
    if r ∈ ancestors then .further ⟨⟨siblings, owner⟩ :: rest, ancestors, found, r :: repeated⟩
    -- a record is tested before its children are read, so its failure comes first
    else match test r with
      | .error e => .ended ⟨repeated.reverse, .error e⟩
      | .ok passed =>
        match G.children r with
        | .error e => .ended ⟨repeated.reverse, .error e⟩
        | .ok children =>
          .further ⟨⟨children, some r⟩ :: ⟨siblings, owner⟩ :: rest, ancestors.insert r,
            if passed then r :: found else found, repeated⟩

/-- A progress as a loop takes it: another round from a walk, or a result. -/
def Progress.toSum : Progress ρ ε → Walk ρ ⊕ Outcome ρ ε
  | .ended outcome => .inr outcome
  | .further w => .inl w

/-- **All steps** of a walk, to its end or its first failure. Nothing bounds how many there are, since
a graph may go on below a record without end. -/
def run (G : Graph ρ ε) (test : ρ → Except ε Bool) (w : Walk ρ) : Outcome ρ ε :=
  Id.run (repeatM (fun w => pure (w.next G test).toSum) w)

/-- All steps of a walk are the first of them and those from where it leads to. -/
theorem run_eq (G : Graph ρ ε) (test : ρ → Except ε Bool) (w : Walk ρ) :
    w.run G test = match w.next G test with
      | .ended outcome => outcome
      | .further w' => w'.run G test := by
  rw [run, repeatM_eq_of_monadTail, repeatM.body]
  cases h : w.next G test with
  | ended outcome => rw [Progress.toSum]; rfl
  | further w' => rw [Progress.toSum]; rfl

end Walk

/-- The records that pass a test among the given ones or, if asked for, among those below them as
well, in the order in which the walk meets them. -/
def Graph.search {ρ ε : Type} [DecidableEq ρ] [Hashable ρ] (G : Graph ρ ε) (recursive : Bool)
    (test : ρ → Except ε Bool) (records : List ρ) : Outcome ρ ε :=
  if recursive then (Walk.start records).run G test else ⟨[], keep test records⟩

end RecordQuery
