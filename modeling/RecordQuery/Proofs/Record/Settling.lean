import Mathlib.Data.List.Forall2
import RecordQuery.Proofs.Record.Growing

/-! # Values that get a place

A scalar that is made on the spot has no place until it is kept; then it gets a new one. Apart from
its identity nothing about it changes: it is read, compared and printed as before. All other values
stay what they are while a store grows.

* `Store.Settles`: a value of a store and what it has become in a later store.
* `Store.SameValue`: values of two later stores that one value has become.
* `Store.Settles.readField`, `Store.Settles.comparisonText`: what is read of a value has become what
  is read of it later, and is compared by the same text.
* `Store.settles_settle`: a value becomes what it is settled as. -/

namespace RecordQuery

/-- Items are related through the items of a list between them. -/
theorem forall₂_through {α β γ : Type} {R : α → β → Prop} {S : β → γ → Prop} {T : α → γ → Prop}
    {xs : List α} {ys : List β} {zs : List γ} (h : List.Forall₂ R xs ys) (h' : List.Forall₂ S ys zs)
    (htrans : ∀ x y z, R x y → S y z → T x z) : List.Forall₂ T xs zs := by
  induction h generalizing zs with
  | nil =>
    cases h'
    exact .nil
  | cons hxy _ ih =>
    cases h' with
    | cons hyz hrest => exact .cons (htrans _ _ _ hxy hyz) (ih hrest)

namespace Store

variable {σ σ' σ'' : Store} {r r' r'' : Ref}

/-- A value of a store and what it **has become** in a later store. -/
inductive Settles (σ σ' : Store) : Ref → Ref → Prop
  /-- A value stays what it is. -/
  | same {r : Ref} : σ.Has r → Settles σ σ' r r
  /-- A scalar that was made on the spot has a new place. -/
  | placed {s : Scalar} {place : Nat} : σ.size ≤ place → place < σ'.size →
      σ'.look (.held place) = .scalar s → Settles σ σ' (.fresh s) (.held place)

/-- Values of two later stores are **the same value** of a store when one value has become both: they
are one value of the store, or scalars made on the spot that do not differ. -/
def SameValue (σ σ' σ'' : Store) (r' r'' : Ref) : Prop :=
  ∃ r, σ.Settles σ' r r' ∧ σ.Settles σ'' r r''

/-- The later store has what a value has become. -/
theorem Settles.has_settled (h : σ.Settles σ' r r') (hg : σ.Grows σ') : σ'.Has r' := by
  cases h with
  | same hr => exact hg.has hr
  | placed _ hlt _ => exact hlt

/-- **What a value refers to stays the same.** -/
theorem Settles.look (h : σ.Settles σ' r r') (hg : σ.Grows σ') : σ'.look r' = σ.look r := by
  cases h with
  | same hr => exact hg.look hr
  | placed _ _ hlook => exact hlook

/-- Two values never become one. -/
theorem Settles.left_unique {x : Ref} (h : σ.Settles σ' r x) (h' : σ.Settles σ' r' x) : r = r' := by
  cases h with
  | same hr =>
    cases h' with
    | same _ => rfl
    | placed hle _ _ => exact absurd hr (Nat.not_le.mpr (Nat.lt_succ_of_le hle))
  | placed hle _ hlook =>
    cases h' with
    | same hr => exact absurd hr (Nat.not_le.mpr (Nat.lt_succ_of_le hle))
    | placed _ _ hlook' =>
      rw [hlook, Object.scalar.injEq] at hlook'
      rw [hlook']

theorem Settles.trans (h : σ.Settles σ' r r') (h' : σ'.Settles σ'' r' r'') (hg : σ.Grows σ')
    (hg' : σ'.Grows σ'') : σ.Settles σ'' r r'' := by
  cases h with
  | same hr =>
    cases h' with
    | same _ => exact .same hr
    | placed hle hlt hlook => exact .placed (Nat.le_trans hg.size hle) hlt hlook
  | placed hle hlt hlook =>
    cases h' with
    | same hr => exact .placed hle (Nat.lt_of_lt_of_le hlt hg'.size) ((hg'.look hr).trans hlook)

/-- What values have become in two stores is the same value by value. -/
theorem forall₂_sameValue {xs ys zs : List Ref} (h : List.Forall₂ (σ.Settles σ') xs ys)
    (h' : List.Forall₂ (σ.Settles σ'') xs zs) : List.Forall₂ (σ.SameValue σ' σ'') ys zs :=
  forall₂_through h.flip h' fun _ x _ hxy hxz => ⟨x, hxy, hxz⟩

theorem Settles.unwrapped (h : σ.Settles σ' r r') (hg : σ.Grows σ') (hσ : σ.Sound) :
    σ.Settles σ' (σ.unwrapped r) (σ'.unwrapped r') := by
  cases h with
  | same hr =>
    rw [hg.unwrapped hr]
    exact .same (hσ.has_unwrapped hr)
  | @placed s place hle hlt hlook =>
    have hself : σ'.unwrapped (.held place) = .held place := by rw [Store.unwrapped, hlook]
    rw [hself]
    exact .placed hle hlt hlook

theorem forall₂_unwrapped {xs ys : List Ref} (h : List.Forall₂ (σ.Settles σ') xs ys)
    (hg : σ.Grows σ') (hσ : σ.Sound) :
    List.Forall₂ (σ.Settles σ') (xs.map σ.unwrapped) (ys.map σ'.unwrapped) := by
  rw [List.forall₂_map_left_iff, List.forall₂_map_right_iff]
  exact h.imp fun _ _ hxy => hxy.unwrapped hg hσ

theorem forall₂_settles_trans {xs ys zs : List Ref} (h : List.Forall₂ (σ.Settles σ') xs ys)
    (h' : List.Forall₂ (σ'.Settles σ'') ys zs) (hg : σ.Grows σ') (hg' : σ'.Grows σ'') :
    List.Forall₂ (σ.Settles σ'') xs zs :=
  forall₂_through h h' fun _ _ _ hxy hyz => hxy.trans hyz hg hg'

/-- Values that were not made on the spot **stay what they are**. -/
theorem eq_of_settles {xs ys : List Ref} (h : List.Forall₂ (σ.Settles σ') xs ys)
    (hkept : ∀ r ∈ xs, ∀ s, r ≠ .fresh s) : ys = xs := by
  induction h with
  | nil => rfl
  | cons hr _ ih =>
    obtain ⟨hx, hxs⟩ := List.forall_mem_cons.mp hkept
    rw [ih hxs]
    cases hr with
    | same _ => rfl
    | placed _ _ _ => exact absurd rfl (hx _)

/-! ### Reading -/

/-- The parts of a number are made anew, or are the number itself. -/
theorem numberPart_related {R : Ref → Ref → Prop} (hr : R r r') (hnew : ∀ t : Scalar, R t.ref t.ref)
    (name : String) (s : Scalar) :
    R ((numberPart r name s).getD .null) ((numberPart r' name s).getD .null) := by
  have hnull : R .null .null := hnew .null
  cases s with
  | bool b | int n | double x =>
    rw [numberPart, numberPart]
    split_ifs <;> first | exact hnew _ | exact hr | exact hnull
  | _ => exact hnull

/-- **What is read of a value** has become what is read of it later. -/
theorem Settles.readField (h : σ.Settles σ' r r') (hg : σ.Grows σ') (hσ : σ.Sound) (name : String) :
    σ.Settles σ' (σ.readField r name) (σ'.readField r' name) := by
  cases h with
  | same hr =>
    rw [hg.readField hσ hr]
    exact .same (hσ.has_readField hr name)
  | @placed s place hle hlt hlook =>
    have hread : σ'.readField (.held place) name =
        (Store.numberPart (.held place) name s).getD .null := by
      rw [Store.readField, Store.field?, hlook]
    rw [hread]
    exact numberPart_related (Settles.placed hle hlt hlook) (fun t => .same (has_scalar σ t)) name s

theorem Settles.childrenOf (h : σ.Settles σ' r r') (hg : σ.Grows σ') :
    σ'.childrenOf r' = σ.childrenOf r := by
  rw [Store.childrenOf, Store.childrenOf, h.look hg]

theorem Settles.isNull (h : σ.Settles σ' r r') (hg : σ.Grows σ') : σ'.isNull r' = σ.isNull r := by
  rw [Store.isNull, Store.isNull, h.look hg]

/-! ### Printed forms -/

/-- A scalar at a place is printed like one without a place. -/
theorem printed_of_look_scalar {place : Nat} {s : Scalar} (h : σ.look (.held place) = .scalar s) :
    σ.printed (.held place) = s.printed := by
  obtain ⟨depth, hdepth⟩ : ∃ depth, σ.printingDepth = depth + 1 :=
    Nat.exists_eq_succ_of_ne_zero (Nat.mul_ne_zero (Nat.succ_ne_zero _) (Nat.succ_ne_zero _))
  rw [printed, hdepth, printedInside, h]
  rfl

/-- **A printed form stays the same.** -/
theorem Settles.printed (h : σ.Settles σ' r r') (hg : σ.Grows σ') (hσ : σ.Sound) :
    σ'.printed r' = σ.printed r := by
  cases h with
  | same hr => exact hg.printed hσ hr
  | placed _ _ hlook => exact printed_of_look_scalar hlook

theorem printedList_congr {xs ys : List Ref} (h : List.Forall₂ (σ.Settles σ') xs ys)
    (hg : σ.Grows σ') (hσ : σ.Sound) : σ'.printedList ys = σ.printedList xs := by
  have hitems : ys.map σ'.printed = xs.map σ.printed := by
    induction h with
    | nil => rfl
    | cons hxy _ ih => rw [List.map_cons, List.map_cons, hxy.printed hg hσ, ih]
  rw [printedList, printedList, hitems]

/-- A scalar at a place has the text of one without a place. -/
theorem plainText_of_look_scalar {place : Nat} {s : Scalar}
    (h : σ'.look (.held place) = .scalar s) : σ'.plainText (.held place) = σ.plainText (.fresh s) := by
  have hprinted := printed_of_look_scalar h
  rw [Store.plainText.eq_def, Store.plainText.eq_def, h, look_fresh]
  cases s <;> first | rfl | exact hprinted

theorem Settles.plainText (h : σ.Settles σ' r r') (hg : σ.Grows σ') (hσ : σ.Sound) :
    σ'.plainText r' = σ.plainText r := by
  cases h with
  | same hr => exact hg.plainText hσ hr
  | placed _ _ hlook => exact plainText_of_look_scalar hlook

/-- **The text that a value is compared by stays the same.** -/
theorem Settles.comparisonText (h : σ.Settles σ' r r') (hg : σ.Grows σ') (hσ : σ.Sound) :
    σ'.comparisonText r' = σ.comparisonText r := by
  rw [Store.comparisonText, Store.comparisonText, h.isNull hg, Store.stringify, Store.stringify,
    h.look hg, h.plainText hg hσ]

/-! ### Settling -/

theorem grows_settle (σ : Store) (r : Ref) : σ.Grows (σ.settle r).2 := by
  cases r with
  | fresh s => exact grows_alloc σ _
  | _ => exact .refl σ

theorem Sound.settle (h : σ.Sound) (r : Ref) : (σ.settle r).2.Sound := by
  cases r with
  | fresh s => exact h.alloc fun x hx => absurd hx List.not_mem_nil
  | _ => exact h

/-- **A value becomes what it is settled as.** -/
theorem settles_settle (hr : σ.Has r) : σ.Settles (σ.settle r).2 r (σ.settle r).1 := by
  cases r with
  | fresh s =>
    have hsize : (σ.alloc (.scalar s)).2.size = σ.size + 1 := Array.size_push ..
    refine .placed (Nat.le_refl _) ?_ (look_alloc_self σ _)
    rw [settle, hsize]
    exact Nat.lt_succ_self _
  | _ => exact .same hr

/-- What a value has become stays so while the later store grows. -/
theorem Settles.grow (h : σ.Settles σ' r r') (hg : σ.Grows σ') (hg' : σ'.Grows σ'') :
    σ.Settles σ'' r r' :=
  h.trans (.same (h.has_settled hg)) hg hg'

end Store

end RecordQuery
