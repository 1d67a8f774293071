import RecordQuery.Proofs.Session.Distribution

/-! # Seeds in every form

Records can be passed to a search in many ways: as a list, as a sequence of another kind, one by one,
or collected, and each of them plain or wrapped. All of these are one sequence of records, so they
give the same result. A wrapped record, a text, a byte sequence, a mapping and whatever cannot be gone
through is one record when it is passed alone.

* `SequenceForm`, `SeedForm.pass`: the ways to pass a sequence.
* `Store.PassedAs`, `Store.isSingle`: a record that is passed plain or wrapped, and one that is passed
  alone.
* `SeedForm.exists_pass`: a sequence is ready to be searched, in whatever form it is passed.
* `World.FindsAlike`: two searches that give the same result.
* `find_seed_forms`: the form of the seed does not matter. -/

namespace RecordQuery

/-- The **forms of a sequence**. -/
inductive SequenceForm
  /-- A list. -/
  | list
  /-- A tuple, or another sequence that is no list. -/
  | tuple
  /-- Items that come one by one. -/
  | stream
deriving DecidableEq, Repr

/-- A sequence of some items. -/
def SequenceForm.object : SequenceForm → List Ref → Object
  | .list, items => .list items
  | .tuple, items => .tuple items
  | .stream, items => .stream items

/-- The **forms of a seed**: a sequence, or what is collected of it, with any adapter. -/
inductive SeedForm
  /-- A sequence as it is. -/
  | sequence (form : SequenceForm)
  /-- The collection of a sequence. -/
  | collection (form : SequenceForm) (adapter : Nat)
deriving DecidableEq, Repr

/-- Some items, **passed** in a form. -/
def SeedForm.pass : SeedForm → List Ref → Session Ref
  | .sequence form, items => Session.alloc (form.object items)
  | .collection form n, items => do Collection.ofSource n (← Session.alloc (form.object items))

namespace Store

variable {σ : Store} {r x : Ref} {items xs : List Ref}

/-- A record that is **passed plain or wrapped**, below any wrapped record and with any adapter. -/
def PassedAs (σ : Store) (x r : Ref) : Prop :=
  r = x ∨ ∃ data, σ.look r = .node data ∧ data.record = x

/-- Whether a value that is passed alone is **one record**: a wrapped record, a text, a byte sequence,
a mapping, or anything that cannot be gone through. -/
def isSingle (σ : Store) (target : Ref) : Bool :=
  match σ.look target with
  | .node _ | .scalar (.text _) | .scalar (.bytes _) | .mapping _ | .readOnlyMapping _ => true
  | _ => (σ.items? target).isNone

/-- A value that **may be passed** as one of several records: it is in the store and has a place, if it
needs one, and it is not wrapped. -/
structure IsRecord (σ : Store) (x : Ref) : Prop where
  /-- It is in the store. -/
  has : σ.Has x
  /-- It was not made just now. -/
  kept : ∀ s, x ≠ .fresh s
  /-- It is no wrapped record. -/
  plain : σ.isNode x = false

theorem PassedAs.unwrapped_eq (h : σ.PassedAs x r) (hx : σ.IsRecord x) : σ.unwrapped r = x := by
  obtain rfl | ⟨data, hdata, rfl⟩ := h
  · exact unwrapped_of_not_isNode hx.plain
  · rw [unwrapped, hdata]

theorem PassedAs.has (h : σ.PassedAs x r) (hx : σ.IsRecord x) : σ.Has r := by
  obtain rfl | ⟨data, hdata, -⟩ := h
  · exact hx.has
  · exact has_of_look_node hdata

theorem PassedAs.kept (h : σ.PassedAs x r) (hx : σ.IsRecord x) (s : Scalar) : r ≠ .fresh s := by
  obtain rfl | ⟨data, hdata, -⟩ := h
  · exact hx.kept s
  · rintro rfl
    cases hdata

/-- Records that are passed, plain or wrapped, can be told from what is passed. -/
theorem forall_passed (hxs : ∀ x ∈ xs, σ.IsRecord x) (h : List.Forall₂ σ.PassedAs xs items) :
    items.map σ.unwrapped = xs ∧ (∀ r ∈ items, σ.Has r) ∧ ∀ r ∈ items, ∀ s, r ≠ .fresh s := by
  induction h with
  | nil => exact ⟨rfl, List.forall_mem_nil _, List.forall_mem_nil _⟩
  | cons hpassed _ ih =>
    obtain ⟨hx, hxs⟩ := List.forall_mem_cons.mp hxs
    obtain ⟨hmap, hhas, hkept⟩ := ih hxs
    refine ⟨?_, List.forall_mem_cons.mpr ⟨hpassed.has hx, hhas⟩,
      List.forall_mem_cons.mpr ⟨hpassed.kept hx, hkept⟩⟩
    rw [List.map_cons, hpassed.unwrapped_eq hx, hmap]

/-- **A value that is passed alone** is searched as one record. -/
theorem seedsOf_of_isSingle (h : σ.isSingle r) :
    σ.seedsOf r = [σ.unwrapped r] ∧ (σ.look r).isStream = false := by
  rw [isSingle] at h
  rw [seedsOf, unwrapped]
  cases hlook : σ.look r with
  | list | tuple | set | frozenSet | stream | collection =>
    rw [items?, hlook] at h
    cases h
  | _ => exact ⟨rfl, rfl⟩

end Store

open Session

variable {w w₁ : World} {n : Nat} {items xs : List Ref} {target : Ref}

/-! ### Sequences -/

theorem SequenceForm.refs_object (form : SequenceForm) (items : List Ref) :
    (form.object items).refs = items := by
  cases form <;> rfl

/-- A sequence stands for its items, without their wrapping. -/
theorem SequenceForm.seedsOf_eq {σ : Store} {form : SequenceForm}
    (h : σ.look target = form.object items) : σ.seedsOf target = items.map σ.unwrapped := by
  rw [Store.seedsOf, h]
  cases form <;> rfl

/-- A sequence can be gone through. -/
theorem SequenceForm.items?_eq {σ : Store} {form : SequenceForm}
    (h : σ.look target = form.object items) : σ.items? target = some items := by
  rw [Store.items?, h]
  cases form <;> rfl

/-- Only a sequence without items counts as empty. -/
theorem SequenceForm.eq_nil_of_not_isTruthy {σ : Store} {form : SequenceForm}
    (h : σ.look target = form.object items) (hfalse : σ.isTruthy target = false) : items = [] := by
  rw [Store.isTruthy, h] at hfalse
  cases form with
  | list | tuple => simpa [object] using hfalse
  | stream => cases hfalse

/-- What was made before and has a place is settled already. -/
theorem Session.leads_settleAll (h : ∀ r ∈ items, ∀ s, r ≠ .fresh s) :
    Leads (settleAll items) w (.ok items) w := by
  induction items with
  | nil => exact leads_pure _
  | cons r rest ih =>
    obtain ⟨hr, hrest⟩ := List.forall_mem_cons.mp h
    have hsettle : Leads (settle r) w (.ok r) w := by
      cases r with
      | fresh s => exact absurd rfl (hr s)
      | _ => exact leads_settle _
    exact hsettle.bind ((ih hrest).bind (leads_pure _))

/-! ### What is passed is ready to be searched -/

/-- A **new sequence** is ready to be searched. -/
theorem SequenceForm.ready_alloc (form : SequenceForm) (n : Nat) (hσ : w.store.Sound)
    (hitems : ∀ r ∈ items, w.store.Has r) :
    Query.Ready ⟨(w.store.alloc (form.object items)).1, n⟩ (w.adapterAt n) w.store
      (items.map w.store.unwrapped) { w with store := (w.store.alloc (form.object items)).2 } := by
  have hg := w.store.grows_alloc (form.object items)
  have hnew : ¬ w.store.Has (w.store.alloc (form.object items)).1 := Nat.lt_irrefl _
  refine ⟨hg, hg.drained_of_new fun _ _ => hnew, hσ.alloc ?_, rfl, ?_⟩
  · rw [form.refs_object]
    exact hitems
  · rw [SequenceForm.seedsOf_eq (w.store.look_alloc_self (form.object items))]
    exact hg.map_unwrapped hitems

/-- A **new collection** of values that were in an earlier store is ready to be searched. -/
theorem Collection.exists_ready (m n : Nat) (hg : w.store.Grows w₁.store) (hσ₁ : w₁.store.Sound)
    (hadapters : w₁.adapters = w.adapters) (hitems : ∀ r ∈ items, w.store.Has r) :
    ∃ c w', Leads (ofItems m items) w₁ (.ok c) w' ∧
      Query.Ready ⟨c, n⟩ (w.adapterAt n) w.store (items.map w.store.unwrapped) w' := by
  obtain ⟨c, σ', hleads, hg', hσ', ⟨nodes, hc⟩, hrecords⟩ :=
    exists_ofItems m hσ₁ fun r hr => hg.has (hitems r hr)
  have hgrows := hg.trans hg'
  have hstream : (σ'.look c).isStream = false := by rw [hc]; rfl
  refine ⟨c, _, hleads, hgrows, ?_, hσ', World.adapterAt_congr hadapters n, ?_⟩
  · rw [Store.drained_of_not_isStream hstream]
    exact hgrows
  · have hseeds : σ'.seedsOf c = σ'.recordsOf c := by
      rw [Store.recordsOf_eq hc, Store.seedsOf, hc]
    exact hseeds.trans (hrecords.trans (hg.map_unwrapped hitems))

/-- **The collection of a sequence** that is ready to be searched is ready, too. -/
theorem Collection.exists_ofSource_ready {form : SequenceForm} (m : Nat)
    (hready : Query.Ready ⟨target, n⟩ (w.adapterAt n) w.store xs w₁)
    (hadapters : w₁.adapters = w.adapters) (hlook : w₁.store.look target = form.object items)
    (hitems : ∀ r ∈ items, w.store.Has r) (hkept : ∀ r ∈ items, ∀ s, r ≠ .fresh s) :
    ∃ c w', Leads (ofSource m target) w₁ (.ok c) w' ∧
      Query.Ready ⟨c, n⟩ (w.adapterAt n) w.store (items.map w.store.unwrapped) w' := by
  cases htruthy : w₁.store.isTruthy target with
  | false =>
    obtain rfl := SequenceForm.eq_nil_of_not_isTruthy hlook htruthy
    obtain ⟨c, w', hleads, hready'⟩ :=
      exists_ready m n hready.grows hready.sound hadapters (List.forall_mem_nil _)
    refine ⟨c, w', leads_store.bind ?_, hready'⟩
    rw [htruthy]
    exact hleads
  | true =>
    -- the items are taken from the sequence before they are collected
    obtain ⟨c, w', hleads, hready'⟩ := @exists_ready w { w₁ with store := w₁.store.drained target }
      items m n hready.drained (hready.sound.drained target) hadapters hitems
    refine ⟨c, w', leads_store.bind ?_, hready'⟩
    simp only [htruthy, SequenceForm.items?_eq hlook]
    exact (leads_modifyStore _).bind ((leads_settleAll hkept).bind hleads)

/-- **A sequence that is passed** is ready to be searched, in whatever form it is passed. -/
theorem SeedForm.exists_pass (form : SeedForm) (n : Nat) (hσ : w.store.Sound)
    (hitems : ∀ r ∈ items, w.store.Has r) (hkept : ∀ r ∈ items, ∀ s, r ≠ .fresh s) :
    ∃ target w₁, Leads (form.pass items) w (.ok target) w₁ ∧
      Query.Ready ⟨target, n⟩ (w.adapterAt n) w.store (items.map w.store.unwrapped) w₁ := by
  cases form with
  | sequence form => exact ⟨_, _, leads_alloc _, form.ready_alloc n hσ hitems⟩
  | collection form m =>
    obtain ⟨c, w', hleads, hready⟩ := Collection.exists_ofSource_ready m
      (form.ready_alloc n hσ hitems) rfl (w.store.look_alloc_self _) hitems hkept
    exact ⟨c, w', (leads_alloc _).bind hleads, hready⟩

/-- **A value that is passed alone** is ready to be searched as one record. -/
theorem Store.ready_of_isSingle (n : Nat) (hσ : w.store.Sound) (h : w.store.isSingle target) :
    Query.Ready ⟨target, n⟩ (w.adapterAt n) w.store [w.store.unwrapped target] w := by
  obtain ⟨hseeds, hstream⟩ := Store.seedsOf_of_isSingle h
  refine ⟨.refl _, ?_, hσ, rfl, hseeds⟩
  rw [Store.drained_of_not_isStream hstream]
  exact .refl _

/-! ### Searches that give the same result -/

/-- **What is ready to be searched** is searched by what its records are in the store that it started
from. -/
theorem Query.Ready.exists_find {q : Query} {A : Adapter} {σ₀ : Store} (h : q.Ready A σ₀ xs w)
    (hA : A.Covers σ₀ xs) (l : Locator) :
    ∃ o w', Leads (find q.adapter l q.context) w o w' ∧
      Alike (List.Forall₂ (σ₀.Settles w'.store)) ((A.view σ₀).find l xs).result o := by
  have hsearch := h.find_eq hA l
  cases hresult : ((A.view σ₀).find l xs).result with
  | error e =>
    rw [← hsearch] at hresult
    obtain ⟨log, hfind⟩ :=
      @findFrom_error { w with store := w.store.drained q.context } q.adapter l xs e hresult
    rw [← h.seeds] at hfind
    exact ⟨_, _, leads_find hfind, .error e⟩
  | ok found =>
    have hfound := hA.has_found hresult
    rw [← hsearch] at hresult
    obtain ⟨found', σ', log, hfind, hg, -, hsettles⟩ :=
      @exists_findFrom { w with store := w.store.drained q.context } q.adapter l xs found hresult
    rw [← h.seeds] at hfind
    refine ⟨_, _, leads_find hfind, .ok ?_⟩
    -- the records found were in the earlier store, so they settle from there
    have hrelated := hsettles fun r hr => h.drained.has (hfound r hr)
    refine (forall₂_and_left hrelated hfound).imp ?_
    rintro r r' ⟨hr, hhas⟩
    exact (Store.Settles.same hhas).trans hr h.drained hg

/-- Two searches **find alike** from a world when both give the same failure, or the same values. Where
nothing can be taken only once, this is what a locator finds in some records of the store. -/
def World.FindsAlike (w : World) (A : Adapter) (l : Locator) (records : List Ref)
    (x y : Session (List Ref)) : Prop :=
  ∃ o w₁ o' w₂, Leads x w o w₁ ∧ Leads y w o' w₂ ∧
    Alike (List.Forall₂ (w.store.SameValue w₁.store w₂.store)) o o' ∧
    (w.store.Lasting →
      Alike (List.Forall₂ (w.store.Settles w₁.store)) ((A.view w.store).find l records).result o)

/-- **Two ways to pass the same records** find alike. -/
theorem World.findsAlike_of_ready {A : Adapter} {w₂ : World} {target' : Ref} {l : Locator}
    {x y : Session (List Ref)} (hA : A.Covers w.store xs) (h : Query.Ready ⟨target, n⟩ A w.store xs w₁)
    (h' : Query.Ready ⟨target', n⟩ A w.store xs w₂)
    (hx : ∀ o w', Leads (find n l target) w₁ o w' → Leads x w o w')
    (hy : ∀ o w', Leads (find n l target') w₂ o w' → Leads y w o w') :
    w.FindsAlike A l xs x y := by
  obtain ⟨o, v, hfind, halike⟩ := h.exists_find hA l
  obtain ⟨o', v', hfind', halike'⟩ := h'.exists_find hA l
  refine ⟨o, v, o', v', hx o v hfind, hy o' v' hfind', ?_, fun _ => halike⟩
  generalize ((A.view w.store).find l xs).result = result at halike halike'
  cases halike with
  | error e =>
    cases halike'
    exact .error e
  | ok hfound =>
    cases halike' with
    | ok hfound' => exact .ok (Store.forall₂_sameValue hfound hfound')

/-- **The form of the seed does not matter.** In a sound store, whatever form records are passed in,
each of them plain or wrapped, a locator finds what it finds in the list of these records: the same
failure, or the same values. A wrapped record, a text, a byte sequence, a mapping, and whatever cannot
be gone through, is searched as the one record that it stands for, like the list of this record. There
must be finitely many records below those that are passed. -/
theorem find_seed_forms (w : World) (n : Nat) (l : Locator) (hσ : w.store.Sound)
    (hA : (w.adapterAt n).Steady w.store) :
    (∀ (form : SeedForm) (xs items : List Ref), (∀ x ∈ xs, w.store.IsRecord x) →
      List.Forall₂ w.store.PassedAs xs items →
      ((w.adapterAt n).view w.store).FiniteBelow xs →
      w.FindsAlike (w.adapterAt n) l xs (do find n l (← alloc (.list xs)))
        (do find n l (← form.pass items))) ∧
    ∀ target, w.store.isSingle target → w.store.Has target →
      w.store.isNode (w.store.unwrapped target) = false →
      ((w.adapterAt n).view w.store).FiniteBelow [w.store.unwrapped target] →
      w.FindsAlike (w.adapterAt n) l [w.store.unwrapped target]
        (do find n l (← alloc (.list [w.store.unwrapped target]))) (find n l target) := by
  constructor
  · intro form xs items hxs hpassed hfinite
    obtain ⟨hmap, hitems, hkept⟩ := Store.forall_passed hxs hpassed
    have hhas : ∀ x ∈ xs, w.store.Has x := fun x hx => (hxs x hx).has
    have hlist := SequenceForm.list.ready_alloc n hσ hhas
    rw [Store.map_unwrapped_of_not_isNode fun x hx => (hxs x hx).plain] at hlist
    obtain ⟨target, w₁, hpass, hready⟩ := form.exists_pass n hσ hitems hkept
    rw [hmap] at hready
    exact World.findsAlike_of_ready ⟨hA, hσ, hhas, hfinite⟩ hlist hready
      (fun _ _ h => (leads_alloc _).bind h) fun _ _ h => hpass.bind h
  · intro target hsingle htarget hplain hfinite
    have hhas := List.forall_mem_singleton.mpr (hσ.has_unwrapped htarget)
    have hlist := SequenceForm.list.ready_alloc n hσ hhas
    rw [Store.map_unwrapped_of_not_isNode (List.forall_mem_singleton.mpr hplain)] at hlist
    exact World.findsAlike_of_ready ⟨hA, hσ, hhas, hfinite⟩ hlist
      (Store.ready_of_isSingle n hσ hsingle) (fun _ _ h => (leads_alloc _).bind h) fun _ _ h => h

/-- A record with an id, and a list with this record in it, which is wrapped. -/
def wrappedList : World where
  store := {
    objects := #[
      .mapping [(.text "id", .text "y")],
      .list [.held 0],
      .node ⟨.held 1, .null, 0, none⟩] }

/-- The locator for this id. -/
def locatorY : Locator := ⟨"#y", [idPart.asWritten], by decide⟩

/-- The list is passed as a record, wrapped, together with the record in it: collected, after they came
one by one. Passed alone, the wrapped list is the list and not what is in it, so nothing is found. -/
theorem find_seed_forms_wrappedList :
    Locator.parse "#y" = .ok locatorY ∧ wrappedList.store.Sound ∧ wrappedList.store.Lasting ∧
      (wrappedList.adapterAt 0).Steady wrappedList.store ∧
      ((wrappedList.adapterAt 0).view wrappedList.store).FiniteBelow [.held 1, .held 0] ∧
      wrappedList.FindsAlike .usual locatorY [.held 1, .held 0]
        (do find 0 locatorY (← alloc (.list [.held 1, .held 0])))
        (do find 0 locatorY (← (SeedForm.collection .stream 0).pass [.held 2, .held 0])) ∧
      ((Adapter.usual.view wrappedList.store).find locatorY [.held 1, .held 0]).result =
        .ok [.held 0] ∧
      wrappedList.FindsAlike .usual locatorY [.held 1]
        (do find 0 locatorY (← alloc (.list [.held 1]))) (find 0 locatorY (.held 2)) ∧
      ((Adapter.usual.view wrappedList.store).find locatorY [.held 1]).result = .ok [] := by
  have hσ : wrappedList.store.Sound := Store.sound_of_places (by decide) (by decide)
  have hlasting : wrappedList.store.Lasting := Store.lasting_of_places (by decide)
  have hA : (wrappedList.adapterAt 0).Steady wrappedList.store := Adapter.usual_steady _
  have hfinite := Adapter.usual_finiteBelow wrappedList.store
  have hrecords : ∀ x ∈ [Ref.held 1, .held 0], wrappedList.store.IsRecord x := by
    intro x hx
    simp only [List.mem_cons, List.not_mem_nil, or_false] at hx
    obtain rfl | rfl := hx <;> exact ⟨by decide, nofun, rfl⟩
  have hpassed : List.Forall₂ wrappedList.store.PassedAs [.held 1, .held 0] [.held 2, .held 0] :=
    .cons (.inr ⟨_, rfl, rfl⟩) (.cons (.inl rfl) .nil)
  have hboth : (Adapter.usual.view wrappedList.store).Finds locatorY.parts [.held 1, .held 0]
      [.held 0] := View.finds_of_findWithin (n := 3) rfl
  have hlist : (Adapter.usual.view wrappedList.store).Finds locatorY.parts [.held 1] [] :=
    View.finds_of_findWithin (n := 2) rfl
  obtain ⟨hforms, halone⟩ := find_seed_forms wrappedList 0 locatorY hσ hA
  exact ⟨parse_idPart, hσ, hlasting, hA, hfinite _,
    hforms (.collection .stream 0) _ _ hrecords hpassed (hfinite _), hboth.find_eq,
    halone (.held 2) rfl (by decide) rfl (hfinite _), hlist.find_eq⟩

end RecordQuery
