import RecordQuery.Proofs.Adapter.Steady
import RecordQuery.Proofs.Search.Composition

/-! # What the steps of a session do

The steps of a search change a world in two ways only: its store grows, and its log grows. What is
found gets places and is wrapped, and whatever was in the store stays as it is.

* `Session.Leads`: a step leads from a world to an outcome and another world.
* `Session.exists_settleAll`: values that are settled, one after the other.
* `Session.leads_ofTraced`: the events of a search are logged, and its result is kept.
* `Session.findFrom_error`, `Session.exists_findFrom`: a search from seeds.
* `Collection.exists_ofItems`: a collection of items holds their records.
* `World.Collects`: a world with a new collection of what was found, and `Collection.exists_find`,
  which leads to one. -/

namespace RecordQuery

/-- The adapter with a number. -/
def World.adapterAt (w : World) (n : Nat) : Adapter := (w.adapters[n]?).getD .usual

theorem World.adapterAt_congr {w w' : World} (h : w'.adapters = w.adapters) (n : Nat) :
    w'.adapterAt n = w.adapterAt n := by
  rw [adapterAt, adapterAt, h]

namespace Session

variable {α β : Type} {w w₁ w₂ : World}

/-- A step **leads** from a world to an outcome and another world. -/
def Leads (x : Session α) (w : World) (o : Except Failure α) (w' : World) : Prop :=
  x.run.run w = (o, w')

/-! ### One step after another -/

/-- A step leads to one outcome and one world. -/
theorem Leads.unique {x : Session α} {o o' : Except Failure α} (h : Leads x w o w₁)
    (h' : Leads x w o' w₂) : o = o' ∧ w₁ = w₂ := by
  have heq : (o, w₁) = (o', w₂) := h.symm.trans h'
  rw [Prod.mk.injEq] at heq
  exact heq

/-- What comes after a step starts from its result and its world. -/
theorem Leads.bind {x : Session α} {f : α → Session β} {a : α} {o : Except Failure β}
    (h : Leads x w (.ok a) w₁) (h' : Leads (f a) w₁ o w₂) : Leads (x >>= f) w o w₂ := by
  rw [Leads] at *
  rw [ExceptT.run_bind, StateT.run_bind, h]
  exact h'

/-- Nothing comes after a failure. -/
theorem Leads.bind_error {x : Session α} {f : α → Session β} {e : Failure}
    (h : Leads x w (.error e) w₁) : Leads (x >>= f) w (.error e) w₁ := by
  rw [Leads] at *
  rw [ExceptT.run_bind, StateT.run_bind, h]
  rfl

theorem leads_pure (a : α) : Leads (pure a) w (.ok a) w := rfl

theorem leads_throw (e : Failure) : Leads (throw e : Session α) w (.error e) w := rfl

theorem leads_store : Leads store w (.ok w.store) w := rfl

theorem leads_modifyStore (f : Store → Store) :
    Leads (modifyStore f) w (.ok ()) { w with store := f w.store } := rfl

theorem leads_alloc (o : Object) :
    Leads (alloc o) w (.ok (w.store.alloc o).1) { w with store := (w.store.alloc o).2 } := rfl

theorem leads_settle (r : Ref) :
    Leads (settle r) w (.ok (w.store.settle r).1) { w with store := (w.store.settle r).2 } := rfl

theorem leads_attempt (x : Except Failure α) : Leads (attempt x) w x w := rfl

theorem leads_tell (e : LogEntry) : Leads (tell e) w (.ok ()) { w with log := w.log.push e } := rfl

theorem leads_addAdapter (A : Adapter) :
    Leads (addAdapter A) w (.ok w.adapters.size) { w with adapters := w.adapters.push A } := rfl

theorem leads_adapterAt (n : Nat) : Leads (adapterAt n) w (.ok (w.adapterAt n)) w := rfl

/-! ### Places for values -/

/-- **Several values get places**, those that need one: each becomes what it is settled as. -/
theorem exists_settleAll (rs : List Ref) (w : World) :
    ∃ rs' σ', Leads (settleAll rs) w (.ok rs') { w with store := σ' } ∧ w.store.Grows σ' ∧
      (w.store.Sound → σ'.Sound) ∧
      ((∀ r ∈ rs, w.store.Has r) → List.Forall₂ (w.store.Settles σ') rs rs') := by
  induction rs generalizing w with
  | nil => exact ⟨[], w.store, leads_pure _, .refl _, id, fun _ => .nil⟩
  | cons r rs ih =>
    have hg := w.store.grows_settle r
    obtain ⟨rs', σ', hrest, hg', hsound, hsettles⟩ := ih { w with store := (w.store.settle r).2 }
    refine ⟨(w.store.settle r).1 :: rs', σ', ?_, hg.trans hg', fun hσ => hsound (hσ.settle r), ?_⟩
    · exact (leads_settle r).bind (hrest.bind (leads_pure _))
    · intro hrs
      obtain ⟨hr, hrs⟩ := List.forall_mem_cons.mp hrs
      have hfirst := (Store.settles_settle hr).grow hg hg'
      refine .cons hfirst ?_
      -- the later values have not changed by the first one's getting a place
      have hlater := hsettles fun x hx => hg.has (hrs x hx)
      exact (forall₂_and_left hlater hrs).imp fun x x' ⟨hx, hhas⟩ =>
        (Store.Settles.same hhas).trans hx hg hg'

/-! ### Searching -/

/-- The entries for some events, in order. -/
def entriesOf (σ : Store) (events : List (Event Ref)) : Array LogEntry :=
  (events.map (·.entry σ)).toArray

theorem leads_tellAll (σ : Store) (events : List (Event Ref)) (w : World) :
    Leads (events.forM fun e => tell (e.entry σ)) w (.ok ())
      { w with log := w.log ++ entriesOf σ events } := by
  induction events generalizing w with
  | nil =>
    rw [entriesOf, List.map_nil, Array.append_empty]
    exact leads_pure _
  | cons e events ih =>
    have hlog : w.log ++ entriesOf σ (e :: events) = w.log.push (e.entry σ) ++ entriesOf σ events := by
      simp [entriesOf]
    rw [hlog]
    exact (leads_tell _).bind (ih _)

/-- **The events of a search are logged**, and its result or failure is kept. -/
theorem leads_ofTraced (x : Traced Ref Failure α) (w : World) :
    Leads (ofTraced x) w x.result { w with log := w.log ++ entriesOf w.store x.events } :=
  leads_store.bind ((leads_tellAll w.store x.events w).bind (leads_attempt x.result))

/-- A search from seeds that fails changes the log only. -/
theorem findFrom_error {n : Nat} {l : Locator} {seeds : List Ref} {e : Failure}
    (h : (((w.adapterAt n).view w.store).find l seeds).result = .error e) :
    ∃ log, Leads (findFrom n l seeds) w (.error e) { w with log } := by
  have htraced := leads_ofTraced (((w.adapterAt n).view w.store).find l seeds) w
  rw [h] at htraced
  exact ⟨_, (leads_adapterAt n).bind (leads_store.bind htraced.bind_error)⟩

/-- **A search from seeds** gives what the locator finds, settled. -/
theorem exists_findFrom {n : Nat} {l : Locator} {seeds found : List Ref}
    (h : (((w.adapterAt n).view w.store).find l seeds).result = .ok found) :
    ∃ found' σ' log, Leads (findFrom n l seeds) w (.ok found') { w with store := σ', log } ∧
      w.store.Grows σ' ∧ (w.store.Sound → σ'.Sound) ∧
      ((∀ r ∈ found, w.store.Has r) → List.Forall₂ (w.store.Settles σ') found found') := by
  have htraced := leads_ofTraced (((w.adapterAt n).view w.store).find l seeds) w
  rw [h] at htraced
  obtain ⟨found', σ', hsettle, hsettled⟩ := exists_settleAll found
    { w with log := w.log ++ entriesOf w.store (((w.adapterAt n).view w.store).find l seeds).events }
  exact ⟨found', σ', _,
    (leads_adapterAt n).bind (leads_store.bind (htraced.bind hsettle)), hsettled⟩

/-- A search from a value, whose items are taken if they can be taken only once. -/
theorem leads_find {w' : World} {n : Nat} {l : Locator} {target : Ref}
    {o : Except Failure (List Ref)}
    (h : Leads (findFrom n l (w.store.seedsOf target))
      { w with store := w.store.drained target } o w') : Leads (find n l target) w o w' :=
  leads_store.bind ((leads_modifyStore _).bind h)

theorem leads_parseLocator {s : String} {l : Locator} (h : Locator.parse s = .ok l) :
    ∃ log, Leads (parseLocator s) w (.ok l) { w with log } := by
  refine ⟨w.log.push (.parsed s l.parts.length), ?_⟩
  rw [parseLocator, h]
  exact (leads_tell _).bind (leads_pure l)

theorem leads_parseLocator_error {s : String} {e : ParseError} (h : Locator.parse s = .error e) :
    Leads (parseLocator s) w (.error (.selector s e)) w := by
  rw [parseLocator, h]
  exact leads_throw _

end Session

/-! ### Collections -/

/-- A sound store has the records of a collection. -/
theorem Store.Sound.has_recordsOf {σ : Store} {c : Ref} {nodes : List Ref} {n : Nat} (h : σ.Sound)
    (hc : σ.look c = .collection nodes n) : ∀ r ∈ σ.recordsOf c, σ.Has r := by
  have hnodes := h.has_refs c
  rw [hc] at hnodes
  rw [recordsOf, nodesOf, collectionData, hc]
  exact h.has_map_unwrapped hnodes

namespace Collection

open Session

variable {w : World}

/-- **An item gets a node**, unless it is a node itself; either way the node holds its record. -/
theorem exists_nodeFor (n : Nat) {item : Ref} (hσ : w.store.Sound) (hitem : w.store.Has item) :
    ∃ node σ', Leads (nodeFor n item) w (.ok node) { w with store := σ' } ∧ w.store.Grows σ' ∧
      σ'.Sound ∧ σ'.Has node ∧ σ'.unwrapped node = w.store.unwrapped item := by
  rw [nodeFor]
  by_cases hnode : w.store.isNode item = true
  · refine ⟨item, w.store, leads_store.bind ?_, .refl _, hσ, hitem, rfl⟩
    rw [if_pos hnode]
    exact leads_pure item
  · have hplain := Store.unwrapped_of_not_isNode (eq_false_of_ne_true hnode)
    have hparts : ∀ x ∈ (Object.node ⟨item, .null, n, none⟩).refs, w.store.Has x := by
      intro x hx
      simp only [Object.refs, Option.toList_none, List.mem_cons, List.not_mem_nil, or_false] at hx
      rcases hx with rfl | rfl
      · exact hitem
      · exact Nat.zero_le _
    refine ⟨(w.store.alloc (.node ⟨item, .null, n, none⟩)).1, _, leads_store.bind ?_,
      w.store.grows_alloc _, hσ.alloc hparts, w.store.has_alloc _, ?_⟩
    · rw [if_neg hnode]
      exact leads_alloc _
    · rw [hplain, Store.unwrapped, Store.look_alloc_self]

/-- Several items get nodes, which hold their records. -/
theorem exists_nodesFor (n : Nat) {items : List Ref} (hσ : w.store.Sound)
    (hitems : ∀ item ∈ items, w.store.Has item) :
    ∃ nodes σ', Leads (nodesFor n items) w (.ok nodes) { w with store := σ' } ∧
      w.store.Grows σ' ∧ σ'.Sound ∧ (∀ node ∈ nodes, σ'.Has node) ∧
      nodes.map σ'.unwrapped = items.map w.store.unwrapped := by
  induction items generalizing w with
  | nil => exact ⟨[], w.store, leads_pure _, .refl _, hσ, fun _ h => absurd h List.not_mem_nil, rfl⟩
  | cons item items ih =>
    obtain ⟨hitem, hitems⟩ := List.forall_mem_cons.mp hitems
    obtain ⟨node, σ₁, hnode, hg, hσ₁, hhas, hrecord⟩ := exists_nodeFor n hσ hitem
    obtain ⟨nodes, σ', hnodes, hg', hσ', hhas', hrecords⟩ :=
      @ih { w with store := σ₁ } hσ₁ fun x hx => hg.has (hitems x hx)
    refine ⟨node :: nodes, σ', hnode.bind (hnodes.bind (leads_pure _)), hg.trans hg', hσ', ?_, ?_⟩
    · exact List.forall_mem_cons.mpr ⟨hg'.has hhas, hhas'⟩
    · rw [List.map_cons, List.map_cons, hg'.unwrapped hhas, hrecord, hrecords, hg.map_unwrapped hitems]

/-- **A collection of items** holds their records. -/
theorem exists_ofItems (n : Nat) {items : List Ref} (hσ : w.store.Sound)
    (hitems : ∀ item ∈ items, w.store.Has item) :
    ∃ c σ', Leads (ofItems n items) w (.ok c) { w with store := σ' } ∧ w.store.Grows σ' ∧
      σ'.Sound ∧ (∃ nodes, σ'.look c = .collection nodes n) ∧
      σ'.recordsOf c = items.map w.store.unwrapped := by
  obtain ⟨nodes, σ₁, hnodes, hg, hσ₁, hhas, hrecords⟩ := exists_nodesFor n hσ hitems
  have hg' := σ₁.grows_alloc (.collection nodes n)
  have hlook := σ₁.look_alloc_self (.collection nodes n)
  refine ⟨_, _, hnodes.bind (leads_alloc (.collection nodes n)), hg.trans hg', hσ₁.alloc hhas,
    ⟨nodes, hlook⟩, ?_⟩
  rw [Store.recordsOf, Store.nodesOf, Store.collectionData, hlook]
  exact (hg'.map_unwrapped hhas).trans hrecords

end Collection

/-! ### Searching and collecting -/

/-- One world leads to another with a **new collection** of records that were found in the first. -/
structure World.Collects (w w' : World) (n : Nat) (c : Ref) (found : List Ref) : Prop where
  /-- Nothing that was in the store has changed. -/
  grows : w.store.Grows w'.store
  /-- The store has stayed sound. -/
  sound : w'.store.Sound
  /-- The adapters are the same. -/
  adapters : w'.adapters = w.adapters
  /-- There is a collection with this adapter. -/
  collection : ∃ nodes, w'.store.look c = .collection nodes n
  /-- Its records are what the records found have become, without their wrapping. -/
  records : List.Forall₂ (w.store.Settles w'.store) (found.map w.store.unwrapped)
    (w'.store.recordsOf c)

namespace Collection

open Session

variable {w : World} {n : Nat} {l : Locator} {seeds found : List Ref}

/-- **What a search finds is collected.** -/
theorem exists_findFrom_ofItems (hσ : w.store.Sound)
    (h : (((w.adapterAt n).view w.store).find l seeds).result = .ok found)
    (hfound : ∀ r ∈ found, w.store.Has r) :
    ∃ found' w₁ c w', Leads (findFrom n l seeds) w (.ok found') w₁ ∧
      Leads (ofItems n found') w₁ (.ok c) w' ∧ w.Collects w' n c found := by
  obtain ⟨found', σ₁, log, hfind, hg, hsound, hsettles⟩ := exists_findFrom h
  have hrelated := hsettles hfound
  have hhas : ∀ r' ∈ found', σ₁.Has r' := by
    intro r' hr'
    obtain ⟨r, -, hr⟩ := exists_related_of_mem hrelated.flip hr'
    exact hr.has_settled hg
  obtain ⟨c, σ', hitems, hg', hσ', hcollection, hrecords⟩ :=
    @exists_ofItems { w with store := σ₁, log } n found' (hsound hσ) hhas
  refine ⟨found', _, c, _, hfind, hitems, hg.trans hg', hσ', rfl, hcollection, ?_⟩
  show List.Forall₂ (w.store.Settles σ') (found.map w.store.unwrapped) (σ'.recordsOf c)
  rw [hrecords]
  exact (Store.forall₂_unwrapped hrelated hg hσ).imp fun _ _ hr => hr.grow hg hg'

/-- **What a selector finds in a collection** is collected. -/
theorem exists_find {s : String} {c : Ref} {nodes : List Ref} (hparse : Locator.parse s = .ok l)
    (hc : w.store.look c = .collection nodes n) (hσ : w.store.Sound)
    (h : (((w.adapterAt n).view w.store).find l
      ((w.store.recordsOf c).map w.store.unwrapped)).result = .ok found)
    (hfound : ∀ r ∈ found, w.store.Has r) :
    ∃ c' w', Leads (find s c) w (.ok c') w' ∧ w.Collects w' n c' found := by
  obtain ⟨log, hlocator⟩ := leads_parseLocator (w := w) hparse
  obtain ⟨found', w₁, c', w', hfind, hitems, hcollects⟩ :=
    @exists_findFrom_ofItems { w with log } n l _ found hσ h hfound
  have hwith : Leads (findWith l c) { w with log } (.ok c') w' := by
    refine leads_store.bind ?_
    show Leads (findFrom (w.store.collectionData c).2 l _ >>= ofItems (w.store.collectionData c).2) _ _ _
    rw [Store.collectionData, hc]
    exact hfind.bind hitems
  exact ⟨c', w', hlocator.bind hwith, ⟨hcollects.grows, hcollects.sound, hcollects.adapters,
    hcollects.collection, hcollects.records⟩⟩

end Collection

end RecordQuery
