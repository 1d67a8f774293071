import RecordQuery.Selector.Basic

/-! # Record graphs

What a search may see of records: the children of each, the labels and attributes that a selector
compares, and whether two records are the same one. Records may be shared and may lie below
themselves.

* `Graph`: records with their children.
* `Graph.Below`: a record that can be reached from another by steps to children.
* `Graph.Reaches`, `Graph.FiniteBelow`: the records that lie below given ones, and that they are
  finitely many.
* `View`: a graph whose records have labels and attributes.
* `View.satisfies`: whether a record satisfies a part of a selector. -/

namespace RecordQuery

/-- A list of records is **closed** under a children function when it holds all children of its
members. -/
def Closed {ρ ε : Type} (children : ρ → Except ε (List ρ)) (bound : List ρ) : Prop :=
  ∀ r ∈ bound, ∀ cs, children r = .ok cs → ∀ c ∈ cs, c ∈ bound

/-- What holds of the children that can be read holds of all children there are. For the records of
a given list the former can be decided. -/
theorem forall_child_of_readable {ρ ε : Type} {children : ρ → Except ε (List ρ)} {bound : List ρ}
    {P : ρ → ρ → Prop} (h : ∀ r ∈ bound, ∀ cs ∈ (children r).toOption, ∀ c ∈ cs, P r c) :
    ∀ r ∈ bound, ∀ cs, children r = .ok cs → ∀ c ∈ cs, P r c := by
  intro r hr cs hcs
  refine h r hr cs ?_
  rw [hcs]
  rfl

/-- A **record graph**: the children of each record, in order, or the failure to read them. -/
structure Graph (ρ ε : Type) where
  /-- The children of a record. -/
  children : ρ → Except ε (List ρ)

namespace Graph

variable {ρ ε : Type}

/-- A record lies **below** another, or is it: it is reached by steps to children. -/
inductive Below (G : Graph ρ ε) (r : ρ) : ρ → Prop
  /-- The record itself. -/
  | here : Below G r r
  /-- A child of a record below. -/
  | step {s c : ρ} {cs : List ρ} : Below G r s → G.children s = .ok cs → c ∈ cs → Below G r c

theorem Below.mem_of_closed {G : Graph ρ ε} {r s : ρ} {bound : List ρ} (h : G.Below r s)
    (hr : r ∈ bound) (hbound : Closed G.children bound) : s ∈ bound := by
  induction h with
  | here => exact hr
  | step _ hcs hc ih => exact hbound _ ih _ hcs _ hc

/-- A record is **reached** from given ones when it lies below one of them. -/
def Reaches (G : Graph ρ ε) (rs : List ρ) (s : ρ) : Prop := ∃ r ∈ rs, G.Below r s

/-- **Finitely many** records are reached from the given ones. -/
def FiniteBelow (G : Graph ρ ε) (rs : List ρ) : Prop :=
  ∃ bound : List ρ, ∀ s, G.Reaches rs s → s ∈ bound

/-- From records in a closed list finitely many are reached. -/
theorem finiteBelow_of_closed {G : Graph ρ ε} {rs bound : List ρ} (hrs : ∀ r ∈ rs, r ∈ bound)
    (hbound : Closed G.children bound) : G.FiniteBelow rs :=
  ⟨bound, fun _ ⟨r, hr, h⟩ => h.mem_of_closed (hrs r hr) hbound⟩

end Graph

/-- A **view** of records: a record graph with the texts that selectors compare. A label or
attribute that is absent has no text. -/
structure View (ρ ε : Type) extends Graph ρ ε where
  /-- The text of the id, class or name of a record. -/
  label : Kind → ρ → Except ε (Option String)
  /-- The text of an attribute of a record. -/
  property : String → ρ → Option String

namespace View

variable {ρ ε : Type}

/-- Whether a record meets a condition: its attribute is there and has the literal as its text. -/
def meets (V : View ρ ε) (c : Condition) (r : ρ) : Bool := V.property c.property r == some c.value

/-- Whether a record **satisfies** a part: its label is there and has the part's text, and it meets
the condition, if there is one. The attribute is looked at only when the label fits. -/
def satisfies (V : View ρ ε) (p : Part) (r : ρ) : Except ε Bool :=
  match V.label p.kind r with
  | .error e => .error e
  | .ok text => .ok (text == some p.value && p.condition.all (V.meets · r))

end View

end RecordQuery
