import RecordQuery.Proofs.Record.Evolving
import RecordQuery.Proofs.Session.Steps

/-! # Stores in which nothing is used up

Items that can be taken only once are used up by whoever goes through them first: as the context of a
query, as the source of a collection, or as the children of a record. The first two are steps of a
session that take the items; the last is not, since children are read there as if they were still to be
had. So what is said of searches one behind the other is said of stores without such items, or of
records that are read plainly. Searching, cutting and collecting bring up none.

* `Store.Lasting`: a store without items that can be taken only once.
* `Adapter.ReadsPlainly`, `Adapter.SearchesPlainly`: records that reading leaves as they are.
* `Session.KeepsLasting`: a step that brings up no such items.
* `Session.keepsLasting_find`, `Collection.keepsLasting_find`: the steps of a search. -/

namespace RecordQuery

/-- Whether an object is items that **can be taken only once**. -/
def Object.isStream : Object → Bool
  | .stream _ => true
  | _ => false

namespace Store

variable {σ : Store} {r : Ref} {o : Object}

/-- A store is **lasting** when it holds no items that can be taken only once, so that nothing in it
is used up by going through it. -/
def Lasting (σ : Store) : Prop := ∀ r, (σ.look r).isStream = false

theorem lasting_of_places (h : ∀ place < σ.size, (σ.look (.held place)).isStream = false) :
    σ.Lasting := by
  intro r
  cases r with
  | held place =>
    by_cases hplace : place < σ.size
    · exact h place hplace
    · rw [look_of_size_le (Nat.not_lt.mp hplace)]
      rfl
  | _ => rfl

/-- A new place leaves a store lasting, unless it holds items that can be taken only once. -/
theorem Lasting.alloc (h : σ.Lasting) (ho : o.isStream = false) : (σ.alloc o).2.Lasting := by
  intro r
  by_cases hnull : (σ.alloc o).2.look r = .scalar .null
  · rw [hnull]
    rfl
  · rcases look_alloc_cases hnull with ⟨hold, -⟩ | ⟨-, hnew⟩
    · rw [hold]
      exact h r
    · rw [hnew]
      exact ho

theorem Lasting.settle (h : σ.Lasting) (r : Ref) : (σ.settle r).2.Lasting := by
  cases r with
  | fresh s => exact h.alloc rfl
  | _ => exact h

theorem drained_of_not_isStream (h : (σ.look r).isStream = false) : σ.drained r = σ := by
  rw [drained]
  split
  · rename_i items ho
    rw [ho] at h
    cases h
  · rfl

end Store

/-! ### Records that reading leaves as they are -/

/-- Whether an object is one that the **session itself makes**: a wrapped record, a collection or a
locator. It has attributes of its own besides those that were given to it, and reading them may make
it remember something. -/
def Object.isInternal : Object → Bool
  | .locator .. => true
  | o => o.isWrapper

namespace Adapter

/-- A record is **read plainly** by an adapter when it is no object of the session itself, and reading
it goes through nothing that can be taken only once. -/
structure ReadsPlainly (A : Adapter) (σ : Store) (r : Ref) : Prop where
  /-- The record was not made by the session. -/
  outer : (σ.look r).isInternal = false
  /-- No part of it can be taken only once. -/
  parts : ∀ x ∈ (σ.look r).refs, (σ.look x).isStream = false
  /-- Its children are not in a value that can be taken only once. -/
  children : ∀ v, A.children.read σ r = .ok (.value v) → (σ.look v).isStream = false

/-- Records are **searched plainly** by an adapter when finitely many are reached from them, each of
which is read plainly. -/
structure SearchesPlainly (A : Adapter) (σ : Store) (seeds : List Ref) : Prop where
  /-- Finitely many records are reached. -/
  finite : (A.view σ).FiniteBelow seeds
  /-- Each of them is read plainly. -/
  plain : ∀ r, (A.view σ).Reaches seeds r → A.ReadsPlainly σ r

end Adapter

namespace Session

variable {α β : Type} {x : Session α} {f : α → Session β} {w w' : World} {o : Except Failure α}

/-- A step **keeps a lasting store lasting**. -/
def KeepsLasting (x : Session α) : Prop :=
  ∀ w, w.store.Lasting → (x.run.run w).2.store.Lasting

theorem KeepsLasting.leads (h : KeepsLasting x) (hx : Leads x w o w') (hw : w.store.Lasting) :
    w'.store.Lasting := by
  have hafter := h w hw
  rwa [show x.run.run w = (o, w') from hx] at hafter

theorem KeepsLasting.bind (hx : KeepsLasting x) (hf : ∀ a, KeepsLasting (f a)) :
    KeepsLasting (x >>= f) := by
  intro w hw
  obtain ⟨o, w₁, hrun⟩ : ∃ o w₁, Leads x w o w₁ := ⟨_, _, rfl⟩
  have hw₁ := hx.leads hrun hw
  cases o with
  | error e =>
    rw [show (x >>= f).run.run w = (.error e, w₁) from hrun.bind_error]
    exact hw₁
  | ok a =>
    rw [show (x >>= f).run.run w = (f a).run.run w₁ from hrun.bind rfl]
    exact hf a w₁ hw₁

/-- A step that does not touch the store. -/
theorem keepsLasting_of_store_eq (h : ∀ w, (x.run.run w).2.store = w.store) : KeepsLasting x := by
  intro w hw
  rw [h w]
  exact hw

theorem keepsLasting_pure (a : α) : KeepsLasting (pure a : Session α) :=
  keepsLasting_of_store_eq fun _ => rfl

theorem keepsLasting_throw (e : Failure) : KeepsLasting (throw e : Session α) :=
  keepsLasting_of_store_eq fun _ => rfl

theorem keepsLasting_store : KeepsLasting store := keepsLasting_of_store_eq fun _ => rfl

theorem keepsLasting_adapterAt (n : Nat) : KeepsLasting (adapterAt n) :=
  keepsLasting_of_store_eq fun _ => rfl

theorem keepsLasting_alloc {o : Object} (ho : o.isStream = false) : KeepsLasting (alloc o) :=
  fun _ hw => hw.alloc ho

theorem keepsLasting_settle (r : Ref) : KeepsLasting (settle r) := fun _ hw => hw.settle r

theorem keepsLasting_settleAll (rs : List Ref) : KeepsLasting (settleAll rs) := by
  induction rs with
  | nil => exact keepsLasting_pure _
  | cons r rs ih =>
    exact (keepsLasting_settle r).bind fun _ => ih.bind fun _ => keepsLasting_pure _

/-- The events of a search are told, and nothing else happens. -/
theorem keepsLasting_ofTraced (y : Traced Ref Failure α) : KeepsLasting (ofTraced y) := by
  refine keepsLasting_of_store_eq fun w => ?_
  rw [show (ofTraced y).run.run w = (y.result, _) from leads_ofTraced y w]

theorem keepsLasting_parseLocator (s : String) : KeepsLasting (parseLocator s) := by
  rw [parseLocator]
  split
  · exact keepsLasting_of_store_eq fun _ => rfl
  · exact keepsLasting_throw _

theorem keepsLasting_findFrom (n : Nat) (l : Locator) (seeds : List Ref) :
    KeepsLasting (findFrom n l seeds) :=
  (keepsLasting_adapterAt n).bind fun _ => keepsLasting_store.bind fun _ =>
    (keepsLasting_ofTraced _).bind fun _ => keepsLasting_settleAll _

/-- **A search from a value** brings up nothing that can be taken only once. -/
theorem keepsLasting_find (n : Nat) (l : Locator) (target : Ref) : KeepsLasting (find n l target) := by
  have hdrained : KeepsLasting (modifyStore (·.drained target)) := by
    intro w hw
    show (w.store.drained target).Lasting
    rw [Store.drained_of_not_isStream (hw target)]
    exact hw
  exact keepsLasting_store.bind fun _ => hdrained.bind fun _ => keepsLasting_findFrom n l _

end Session

namespace Collection

open Session

theorem keepsLasting_nodesFor (n : Nat) (items : List Ref) : KeepsLasting (nodesFor n items) := by
  induction items with
  | nil => exact keepsLasting_pure _
  | cons item items ih =>
    have hnode : KeepsLasting (nodeFor n item) := by
      refine keepsLasting_store.bind fun σ => ?_
      split
      · exact keepsLasting_pure _
      · exact keepsLasting_alloc rfl
    exact hnode.bind fun _ => ih.bind fun _ => keepsLasting_pure _

theorem keepsLasting_ofItems (n : Nat) (items : List Ref) : KeepsLasting (ofItems n items) :=
  (keepsLasting_nodesFor n items).bind fun _ => keepsLasting_alloc rfl

/-- **A slice of a collection** brings up nothing that can be taken only once. -/
theorem keepsLasting_slice (s : Slice) (c : Ref) : KeepsLasting (slice s c) := by
  refine keepsLasting_store.bind fun σ => ?_
  obtain ⟨nodes, n⟩ := σ.collectionData c
  cases hitems : s.items nodes with
  | none =>
    simp only [hitems]
    exact keepsLasting_throw _
  | some taken =>
    simp only [hitems]
    cases σ.look c with
    | list items => exact keepsLasting_alloc rfl
    | _ => exact keepsLasting_ofItems _ _

/-- **A search in a collection** brings up nothing that can be taken only once. -/
theorem keepsLasting_find (s : String) (c : Ref) : KeepsLasting (find s c) :=
  (keepsLasting_parseLocator s).bind fun l => keepsLasting_store.bind fun _ =>
    (keepsLasting_findFrom _ l _).bind fun _ => keepsLasting_ofItems _ _

end Collection

end RecordQuery
