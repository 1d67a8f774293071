import RecordQuery.Proofs.Record.Settling
import RecordQuery.Proofs.Search.Locality
import RecordQuery.Proofs.Search.Representation

/-! # Steady adapters

An adapter is steady when its functions read nothing but the record that they are given and what the
record leads to. A field name always does. So what such an adapter shows of a record stays the same
while the store grows, and a scalar made on the spot is shown as it is shown at its place.

* `Alike`: two results are related, or the same failure.
* `RecordFunction.Steady`, `Adapter.Steady`: steady functions and adapters.
* `Accessor.Steady.read`: what a steady accessor gives for a value that has become another.
* `Adapter.Steady.sameBelow`: a steady adapter shows a grown store as it shows the store.
* `Adapter.Steady.agree`: a steady adapter shows values as it shows what they have become.
* `Adapter.Covers`: records that can be searched with an adapter, now and later. -/

namespace RecordQuery

/-- Two results are **alike** when they are related, or the same failure. -/
inductive Alike {ε α β : Type} (R : α → β → Prop) : Except ε α → Except ε β → Prop
  /-- The same failure. -/
  | error (e : ε) : Alike R (.error e) (.error e)
  /-- Related results. -/
  | ok {a : α} {b : β} : R a b → Alike R (.ok a) (.ok b)

/-! ### Readings -/

namespace Reading

/-- The references **in a reading**. -/
def refs : Reading → List Ref
  | .value r => [r]
  | .list items | .stream items => items

theorem forall_mem_value {P : Ref → Prop} {r : Ref} : (∀ x ∈ (value r).refs, P x) ↔ P r :=
  List.forall_mem_singleton

/-- Two readings of one form with **related references**. -/
inductive Related (R : Ref → Ref → Prop) : Reading → Reading → Prop
  /-- Related values. -/
  | value {r r' : Ref} : R r r' → Related R (.value r) (.value r')
  /-- New lists with related items. -/
  | list {items items' : List Ref} : List.Forall₂ R items items' →
      Related R (.list items) (.list items')
  /-- Related values that come one by one. -/
  | stream {items items' : List Ref} : List.Forall₂ R items items' →
      Related R (.stream items) (.stream items')

variable {σ σ' : Store} {reading reading' : Reading}

theorem Related.imp {R S : Ref → Ref → Prop} (h : Related R reading reading')
    (hRS : ∀ x ∈ reading.refs, ∀ x', R x x' → S x x') : Related S reading reading' := by
  have hitems {xs ys : List Ref} (hxy : List.Forall₂ R xs ys)
      (hx : ∀ x ∈ xs, ∀ x', R x x' → S x x') : List.Forall₂ S xs ys :=
    (forall₂_and_left hxy hx).imp fun _ x' ⟨hR, himp⟩ => himp x' hR
  cases h with
  | value hr => exact .value (hRS _ List.mem_cons_self _ hr)
  | list h => exact .list (hitems h hRS)
  | stream h => exact .stream (hitems h hRS)

/-- A reading is related to itself when its references are. -/
theorem related_self {R : Ref → Ref → Prop} (h : ∀ x ∈ reading.refs, R x x) :
    Related R reading reading := by
  cases reading with
  | value r => exact .value (h r List.mem_cons_self)
  | list items => exact .list (List.forall₂_same.mpr h)
  | stream items => exact .stream (List.forall₂_same.mpr h)

/-- The text that a reading is compared by stays the same. -/
theorem Related.comparisonText (h : Related (σ.Settles σ') reading reading') (hg : σ.Grows σ')
    (hσ : σ.Sound) : reading'.comparisonText σ' = reading.comparisonText σ := by
  cases h with
  | value hr => exact hr.comparisonText hg hσ
  | list h => exact congrArg some (Store.printedList_congr h hg hσ)
  | stream _ => rfl

/-- A sound store has the children in a reading that it has. -/
theorem has_children (h : ∀ x ∈ reading.refs, σ.Has x) (hσ : σ.Sound) :
    ∀ c ∈ reading.children σ, σ.Has c := by
  cases reading with
  | value r => exact hσ.has_childrenOf r
  | list items => exact h
  | stream items => exact h

theorem children_eq (h : ∀ x ∈ reading.refs, σ.Has x) (hg : σ.Grows σ') :
    reading.children σ' = reading.children σ := by
  cases reading with
  | value r => exact hg.childrenOf (h r List.mem_cons_self)
  | list items => rfl
  | stream items => rfl

/-- The children in a reading become those in the other one. -/
theorem Related.children (h : Related (σ.Settles σ') reading reading') (hg : σ.Grows σ')
    (hσ : σ.Sound) : List.Forall₂ (σ.Settles σ') (reading.children σ) (reading'.children σ') := by
  cases h with
  | @value r r' hr =>
    show List.Forall₂ _ (σ.childrenOf r) (σ'.childrenOf r')
    rw [hr.childrenOf hg]
    exact List.forall₂_same.mpr fun c hc => .same (hσ.has_childrenOf r c hc)
  | list h => exact h
  | stream h => exact h

end Reading

/-! ### Steady functions -/

/-- A value for a scalar made on the spot, or **its place** instead of it. -/
def Scalar.AtPlace (s : Scalar) (place : Nat) (x x' : Ref) : Prop :=
  x = x' ∨ x = .fresh s ∧ x' = .held place

/-- A function of a record is **steady** from a store on when, in every sound store into which this
one grows, it depends only on the record and what the record leads to. -/
structure RecordFunction.Steady (f : RecordFunction) (σ₀ : Store) : Prop where
  /-- The function gives values that are in the store. -/
  has : ∀ {σ r reading}, σ₀.Grows σ → σ.Sound → σ.Has r → f.call σ r = .ok reading →
    ∀ x ∈ reading.refs, σ.Has x
  /-- The function does not see that the store has grown. -/
  grows : ∀ {σ σ' r}, σ₀.Grows σ → σ.Sound → σ.Has r → σ.Grows σ' → f.call σ' r = f.call σ r
  /-- The function reads a scalar at a place like one made on the spot, which it may give back. -/
  scalar : ∀ {σ s place}, σ₀.Grows σ → σ.Sound → σ.look (.held place) = .scalar s →
    Alike (Reading.Related (s.AtPlace place)) (f.call σ (.fresh s)) (f.call σ (.held place))

/-- An accessor is **steady** when it is a field name or a steady function. -/
def Accessor.Steady (a : Accessor) (σ₀ : Store) : Prop := ∀ f, a = .function f → f.Steady σ₀

theorem Accessor.steady_field (name : String) (σ₀ : Store) : (Accessor.field name).Steady σ₀ :=
  fun _ h => nomatch h

theorem Accessor.Steady.function {f : RecordFunction} {σ₀ : Store}
    (h : (Accessor.function f).Steady σ₀) : f.Steady σ₀ := h f rfl

namespace Accessor

variable {a : Accessor} {σ₀ σ σ' : Store} {r r' : Ref} {reading : Reading}

/-- A steady accessor gives values that are in the store. -/
theorem Steady.has_read (h : a.Steady σ₀) (hσ₀ : σ₀.Grows σ) (hσ : σ.Sound) (hr : σ.Has r)
    (hreading : a.read σ r = .ok reading) : ∀ x ∈ reading.refs, σ.Has x := by
  cases a with
  | field name =>
    cases hreading
    exact Reading.forall_mem_value.mpr (hσ.has_readField hr name)
  | function f => exact h.function.has hσ₀ hσ hr hreading

/-- **A steady accessor does not see that the store has grown.** -/
theorem Steady.read_eq (h : a.Steady σ₀) (hσ₀ : σ₀.Grows σ) (hσ : σ.Sound) (hr : σ.Has r)
    (hg : σ.Grows σ') : a.read σ' r = a.read σ r := by
  cases a with
  | field name =>
    show Except.ok (Reading.value (σ'.readField r name)) = .ok (.value (σ.readField r name))
    rw [hg.readField hσ hr]
  | function f => exact h.function.grows hσ₀ hσ hr hg

/-- **What a steady accessor gives** for a value becomes what it gives for what the value has
become. -/
theorem Steady.read (h : a.Steady σ₀) (hσ₀ : σ₀.Grows σ) (hσ : σ.Sound) (hg : σ.Grows σ')
    (hσ' : σ'.Sound) (hr : σ.Settles σ' r r') :
    Alike (Reading.Related (σ.Settles σ')) (a.read σ r) (a.read σ' r') := by
  cases a with
  | field name => exact .ok (.value (hr.readField hg hσ name))
  | function f =>
    have hf := h.function
    cases hr with
    | same hr =>
      show Alike _ (f.call σ r) (f.call σ' r)
      rw [hf.grows hσ₀ hσ hr hg]
      cases hcall : f.call σ r with
      | error e => exact .error e
      | ok reading => exact .ok (Reading.related_self fun x hx => .same (hf.has hσ₀ hσ hr hcall x hx))
    | @placed s place hle hlt hlook =>
      have hfresh : σ.Has (.fresh s) := Nat.zero_le _
      have halike := hf.scalar (hσ₀.trans hg) hσ' hlook
      rw [hf.grows hσ₀ hσ hfresh hg] at halike
      show Alike _ (f.call σ (.fresh s)) (f.call σ' (.held place))
      cases hcall : f.call σ (.fresh s) with
      | error e =>
        rw [hcall] at halike
        cases hcall' : f.call σ' (.held place) <;> rw [hcall'] at halike <;> cases halike
        exact .error e
      | ok reading =>
        have hhas := hf.has hσ₀ hσ hfresh hcall
        rw [hcall] at halike
        generalize f.call σ' (.held place) = result at halike
        cases halike with
        | ok hrelated =>
          refine .ok (hrelated.imp fun x hx x' hxx' => ?_)
          -- what is not the scalar itself is in the store already
          rcases hxx' with rfl | ⟨rfl, rfl⟩
          · exact .same (hhas x hx)
          · exact .placed hle hlt hlook

end Accessor

/-! ### Steady adapters -/

/-- An adapter is **steady** when its accessors are. -/
structure Adapter.Steady (A : Adapter) (σ₀ : Store) : Prop where
  /-- The accessors for the labels are steady. -/
  label : ∀ kind, (A.accessor kind).Steady σ₀
  /-- The accessor for the children is steady. -/
  children : A.children.Steady σ₀

/-- The usual adapter has no functions. -/
theorem Adapter.usual_steady (σ₀ : Store) : Adapter.usual.Steady σ₀ where
  label kind := by cases kind <;> exact Accessor.steady_field _ σ₀
  children := Accessor.steady_field _ σ₀

namespace Adapter

variable {A : Adapter} {σ₀ σ σ' : Store} {r r' : Ref} {seeds : List Ref}

theorem Steady.of_grows (h : A.Steady σ₀) (hg : σ₀.Grows σ) : A.Steady σ := by
  have hfunction {f : RecordFunction} (hf : f.Steady σ₀) : f.Steady σ :=
    ⟨fun hσ => hf.has (hg.trans hσ), fun hσ => hf.grows (hg.trans hσ),
      fun hσ => hf.scalar (hg.trans hσ)⟩
  exact ⟨fun kind f hf => hfunction (h.label kind f hf), fun f hf => hfunction (h.children f hf)⟩

/-- The children that a steady adapter reads are in the store. -/
theorem Steady.has_children (h : A.Steady σ) (hσ : σ.Sound) (hr : σ.Has r) {cs : List Ref}
    (hcs : A.childrenOf σ r = .ok cs) : ∀ c ∈ cs, σ.Has c := by
  rw [childrenOf, Accessor.children, childrenThrough] at hcs
  cases hread : A.children.read σ r with
  | error e =>
    rw [hread] at hcs
    cases hcs
  | ok reading =>
    rw [hread] at hcs
    cases hcs
    exact Reading.has_children (h.children.has_read (.refl σ) hσ hr hread) hσ

/-- **Whatever a steady adapter reaches** from values in the store is in the store. -/
theorem Steady.has_reached (h : A.Steady σ) (hσ : σ.Sound) (hseeds : ∀ s ∈ seeds, σ.Has s) :
    ∀ r, (A.view σ).Reaches seeds r → σ.Has r := by
  rintro r ⟨x, hx, hbelow⟩
  induction hbelow with
  | here => exact hseeds x hx
  | step _ hcs hc ih => exact h.has_children hσ ih hcs _ hc

theorem Steady.childrenOf_eq (h : A.Steady σ) (hσ : σ.Sound) (hr : σ.Has r) (hg : σ.Grows σ') :
    A.childrenOf σ' r = A.childrenOf σ r := by
  rw [childrenOf, childrenOf, Accessor.children, Accessor.children, childrenThrough,
    childrenThrough, h.children.read_eq (.refl σ) hσ hr hg]
  cases hread : A.children.read σ r with
  | error e => rfl
  | ok reading =>
    show Except.ok (reading.children σ') = .ok (reading.children σ)
    rw [Reading.children_eq (h.children.has_read (.refl σ) hσ hr hread) hg]

/-- The children of a value become the children of what the value has become. -/
theorem Steady.childrenOf (h : A.Steady σ) (hσ : σ.Sound) (hg : σ.Grows σ') (hσ' : σ'.Sound)
    (hr : σ.Settles σ' r r') :
    Alike (List.Forall₂ (σ.Settles σ')) (A.childrenOf σ r) (A.childrenOf σ' r') := by
  have hread := h.children.read (.refl σ) hσ hg hσ' hr
  rw [Adapter.childrenOf, Adapter.childrenOf, Accessor.children, Accessor.children, childrenThrough,
    childrenThrough]
  generalize A.children.read σ r = result at hread
  generalize A.children.read σ' r' = result' at hread
  cases hread with
  | error e => exact .error e
  | ok hreading => exact .ok (hreading.children hg hσ)

/-- **The labels of a value** are the labels of what the value has become. -/
theorem Steady.labelText_eq (h : A.Steady σ) (hσ : σ.Sound) (hg : σ.Grows σ') (hσ' : σ'.Sound)
    (hr : σ.Settles σ' r r') (kind : Kind) : A.labelText σ' kind r' = A.labelText σ kind r := by
  have hread := (h.label kind).read (.refl σ) hσ hg hσ' hr
  rw [labelText, labelText]
  generalize (A.accessor kind).read σ r = result at hread
  generalize (A.accessor kind).read σ' r' = result' at hread
  cases hread with
  | error e => rfl
  | ok hreading =>
    show Except.ok (Reading.comparisonText σ' _) = .ok (Reading.comparisonText σ _)
    rw [hreading.comparisonText hg hσ]

/-- The attributes of a value are those of what the value has become. -/
theorem property_eq (hσ : σ.Sound) (hg : σ.Grows σ') (hr : σ.Settles σ' r r') (name : String) :
    (A.view σ').property name r' = (A.view σ).property name r :=
  (hr.readField hg hσ name).comparisonText hg hσ

/-- **A steady adapter shows a grown store as it shows the store.** -/
theorem Steady.sameBelow (h : A.Steady σ) (hσ : σ.Sound) (hg : σ.Grows σ') (hσ' : σ'.Sound)
    (hseeds : ∀ s ∈ seeds, σ.Has s) : (A.view σ).SameBelow (A.view σ') seeds where
  children r hr := h.childrenOf_eq hσ (h.has_reached hσ hseeds r hr) hg
  label r hr kind := h.labelText_eq hσ hg hσ' (.same (h.has_reached hσ hseeds r hr)) kind
  property r hr name := property_eq hσ hg (.same (h.has_reached hσ hseeds r hr)) name

/-- **A steady adapter shows values as it shows what they have become**, where nothing fails. -/
theorem Steady.agree (h : A.Steady σ) (hσ : σ.Sound) (hg : σ.Grows σ') (hσ' : σ'.Sound)
    (hsearch : (A.view σ).Searchable seeds) (parts : List Part) :
    (A.view σ).Agree (A.view σ') parts fun r r' =>
      σ.Settles σ' r r' ∧ (A.view σ).Reaches seeds r where
  label r r' hr kind := by
    obtain ⟨hr, hreach⟩ := hr
    obtain ⟨text, htext⟩ := hsearch.label r hreach kind
    exact ⟨text, htext, (h.labelText_eq hσ hg hσ' hr kind).trans htext⟩
  property r r' hr p _ c _ := (property_eq hσ hg hr.1 c.property).symm
  children r r' hr := by
    obtain ⟨hr, hreach⟩ := hr
    obtain ⟨cs, hcs⟩ := hsearch.children r hreach
    have hchildren := h.childrenOf hσ hg hσ' hr
    rw [show A.childrenOf σ r = .ok cs from hcs] at hchildren
    generalize hcs' : A.childrenOf σ' r' = result at hchildren
    cases hchildren with
    | @ok _ cs' hrelated =>
      refine ⟨cs, cs', hcs, hcs', forall₂_and_left hrelated fun c hc => ?_⟩
      exact hreach.of_children hcs (Graph.reaches_of_mem hc)

/-- **From what values have become** finitely many records are reached if there are finitely many below
the values: each of these stays, or gets a place of the later store. -/
theorem Steady.finiteBelow_settled {seeds' : List Ref} (h : A.Steady σ) (hσ : σ.Sound)
    (hg : σ.Grows σ') (hσ' : σ'.Sound) (hseeds : List.Forall₂ (σ.Settles σ') seeds seeds')
    (hsearch : (A.view σ).Searchable seeds) : (A.view σ').FiniteBelow seeds' := by
  obtain ⟨bound, hbound⟩ := hsearch.finite
  have hreached := forall₂_and_left hseeds fun r hr => Graph.reaches_of_mem (G := (A.view σ).toGraph) hr
  refine ⟨bound ++ (List.range σ'.size).map .held, fun r' hr' => List.mem_append.mpr ?_⟩
  obtain ⟨r, -, hsettles, hr⟩ :=
    (h.agree hσ hg hσ' hsearch []).symm.reaches hreached.flip hr'
  cases hsettles with
  | same _ => exact .inl (hbound _ hr)
  | placed _ hplace _ => exact .inr (List.mem_map_of_mem (List.mem_range.mpr hplace))

/-! ### Records to be searched -/

/-- An adapter **covers** some records of a store when they are there to be searched with it, in this
store and in every one into which it grows. -/
structure Covers (A : Adapter) (σ : Store) (seeds : List Ref) : Prop where
  /-- The adapter is steady. -/
  steady : A.Steady σ
  /-- The store is sound. -/
  sound : σ.Sound
  /-- The records are in the store. -/
  has : ∀ r ∈ seeds, σ.Has r
  /-- Finitely many records are reached from them. -/
  finite : (A.view σ).FiniteBelow seeds

variable {l : Locator} {found : List Ref}

/-- What is found is in the store. -/
theorem Covers.has_found (h : A.Covers σ seeds) (hfound : ((A.view σ).find l seeds).result = .ok found) :
    ∀ r ∈ found, σ.Has r := fun r hr =>
  h.steady.has_reached h.sound h.has r (View.reaches_of_find h.finite hfound r hr)

/-- **In a store that has grown** the same is found. -/
theorem Covers.find_eq (h : A.Covers σ seeds) (hg : σ.Grows σ') (hσ' : σ'.Sound) (l : Locator) :
    (A.view σ').find l seeds = (A.view σ).find l seeds :=
  (h.steady.sameBelow h.sound hg hσ' h.has).find_eq h.finite l

end Adapter

end RecordQuery
