import RecordQuery.Proofs.Adapter.Derived
import RecordQuery.Proofs.Session.Independence

/-! # Steps that only add

Searching, wrapping and collecting add to a world: new values, new adapters, new entries of the log.
What was there before stays as it is, except that items which can be taken once are taken from the
value that is gone through.

* `World.Fit`: a sound world, whose wrapped records have adapters that are in use.
* `World.Adds`: a world and a later one to which something was added.
* `Session.Adding`: a step adds something, with a result of some kind.
* `Session.adding_findFrom`, `Collection.adding_ofItems`: searching and collecting.
* `Collection.adding_find`, `Query.adding_ask`: what the steps of a session add. -/

namespace RecordQuery

/-- A world is **fit** when its store is sound, its adapters stay inside it, and whatever is wrapped in
it has an adapter that is in use. -/
structure World.Fit (w : World) : Prop where
  /-- The store is sound. -/
  sound : w.store.Sound
  /-- The children of values in the store are in the store. -/
  inside : ∀ n, (w.adapterAt n).Inside w.store.size
  /-- The adapter of a wrapped record is in use. -/
  node : ∀ r data, w.store.look r = .node data → data.adapter < w.adapters.size
  /-- The adapter of a collection is in use. -/
  collection : ∀ r nodes n, w.store.look r = .collection nodes n → n < w.adapters.size

/-- A world and a later one to which something **was added**; items may have been taken from one
value. -/
structure World.Adds (taken : Ref) (w w' : World) : Prop where
  /-- No place is lost. -/
  size : w.store.size ≤ w'.store.size
  /-- No place changes, unless its items were taken. -/
  held : ∀ place < w.store.size, w'.store.look (.held place) = w.store.look (.held place) ∨
    .held place = taken ∧ ∃ items, w.store.look taken = .stream items ∧
      w'.store.look taken = .stream []
  /-- No attribute is given. -/
  given : w'.store.given = w.store.given
  /-- New wrapped records remember nothing. -/
  unread : ∀ place data, w.store.size ≤ place → w'.store.look (.held place) = .node data →
    data.children = none
  /-- No adapter is lost. -/
  adapters : w.adapters.size ≤ w'.adapters.size
  /-- No adapter changes. -/
  adapterAt : ∀ n < w.adapters.size, w'.adapterAt n = w.adapterAt n

namespace Store

/-- Taking the items of a value changes that value only. -/
theorem look_drained_cases (σ : Store) (taken r : Ref) : (σ.drained taken).look r = σ.look r ∨
    r = taken ∧ (∃ items, σ.look taken = .stream items) ∧ (σ.drained taken).look r = .stream [] := by
  rw [drained]
  split
  · rename_i items ho
    rcases σ.look_put taken r (.stream []) with hlook | ⟨rfl, hlook⟩
    · exact .inl hlook
    · exact .inr ⟨rfl, ⟨items, ho⟩, hlook⟩
  · exact .inl rfl

theorem size_drained (σ : Store) (taken : Ref) : (σ.drained taken).size = σ.size := by
  rw [drained]
  split
  · exact size_put _ _ _
  · rfl

end Store

namespace World

variable {w w₁ w' : World} {taken r : Ref} {o : Object} {A : Adapter}

/-! ### What is added -/

theorem Adds.refl (taken : Ref) (w : World) : w.Adds taken w where
  size := Nat.le_refl _
  held _ _ := .inl rfl
  given := rfl
  unread place data hplace hdata := by
    rw [Store.look_of_size_le hplace] at hdata
    cases hdata
  adapters := Nat.le_refl _
  adapterAt _ _ := rfl

theorem Adds.trans (h : w.Adds taken w₁) (h' : w₁.Adds taken w') : w.Adds taken w' where
  size := Nat.le_trans h.size h'.size
  held place hplace := by
    rcases h'.held place (Nat.lt_of_lt_of_le hplace h.size) with hsame | ⟨rfl, items, hitems, hnone⟩
    · rcases h.held place hplace with hfirst | ⟨rfl, items, hitems, hnone⟩
      · exact .inl (hsame.trans hfirst)
      · exact .inr ⟨rfl, items, hitems, hsame.trans hnone⟩
    · rcases h.held place hplace with hfirst | ⟨-, items', hitems', -⟩
      · exact .inr ⟨rfl, items, hfirst.symm.trans hitems, hnone⟩
      · exact .inr ⟨rfl, items', hitems', hnone⟩
  given := h'.given.trans h.given
  unread place data hplace hdata := by
    by_cases hfirst : w₁.store.size ≤ place
    · exact h'.unread place data hfirst hdata
    · rcases h'.held place (Nat.not_le.mp hfirst) with hsame | ⟨rfl, items, -, hnone⟩
      · exact h.unread place data hplace (hsame.symm.trans hdata)
      · cases hnone.symm.trans hdata
  adapters := Nat.le_trans h.adapters h'.adapters
  adapterAt n hn := (h'.adapterAt n (Nat.lt_of_lt_of_le hn h.adapters)).trans (h.adapterAt n hn)

theorem Adds.has (h : w.Adds taken w') (hr : w.store.Has r) : w'.store.Has r :=
  Store.has_of_size hr h.size

theorem Adds.evolves (h : w.Adds taken w') : w.store.Evolves w'.store where
  size := h.size
  held place hplace := by
    rcases h.held place hplace with hsame | ⟨rfl, items, hitems, hnone⟩
    · rw [hsame]
      exact .same _
    · rw [hitems, hnone]
      exact .stream items

/-- **A wrapped record stays as it is.** -/
theorem Adds.look_node (h : w.Adds taken w') {data : NodeData} (hr : w.store.look r = .node data) :
    w'.store.look r = .node data := by
  cases r with
  | held place =>
    have hplace : place < w.store.size :=
      Store.lt_size_of_look_ne (by rw [hr]; exact fun heq => nomatch heq)
    rcases h.held place hplace with hsame | ⟨rfl, items, hitems, -⟩
    · exact hsame.trans hr
    · cases hitems.symm.trans hr
  | _ => cases hr

/-- A wrapped record that remembers something has been there before. -/
theorem Adds.look_node_of (h : w.Adds taken w') {data : NodeData}
    (hr : w'.store.look r = .node data) (hsome : data.children ≠ none) :
    w.store.look r = .node data := by
  cases r with
  | held place =>
    rcases Nat.lt_or_ge place w.store.size with hplace | hplace
    · rcases h.held place hplace with hsame | ⟨rfl, items, -, hnone⟩
      · exact hsame.symm.trans hr
      · cases hnone.symm.trans hr
    · exact absurd (h.unread place data hplace hr) hsome
  | _ => cases hr

/-- Where no items are taken, the store only grows. -/
theorem Adds.grows (h : w.Adds taken w') (hquiet : (w.store.look taken).isStream = false) :
    w.store.Grows w'.store where
  size := h.size
  held place hplace := by
    rcases h.held place hplace with hsame | ⟨-, items, hitems, -⟩
    · exact hsame
    · rw [hitems] at hquiet
      cases hquiet
  given := h.given

/-- A store that grows is added to, if the new wrapped records remember nothing. -/
theorem adds_of_grows {σ : Store} (hg : w.store.Grows σ)
    (hunread : ∀ place data, w.store.size ≤ place → σ.look (.held place) = .node data →
      data.children = none) (taken : Ref) : w.Adds taken { w with store := σ } :=
  ⟨hg.size, fun place hplace => .inl (hg.held place hplace), hg.given, hunread, Nat.le_refl _,
    fun _ _ => rfl⟩

/-- Something that is **not wrapped**, or is wrapped with an adapter in use and remembers nothing. -/
def IsNew (w : World) : Object → Prop
  | .node data => data.children = none ∧ data.adapter < w.adapters.size
  | .collection _ n => n < w.adapters.size
  | _ => True

theorem adds_alloc (ho : w.IsNew o) (taken : Ref) :
    w.Adds taken { w with store := (w.store.alloc o).2 } := by
  refine adds_of_grows (w.store.grows_alloc o) (fun place data hplace hdata => ?_) taken
  rcases @Store.look_alloc_cases w.store o (.held place) (by rw [hdata]; exact fun h => nomatch h) with
    ⟨-, hlt⟩ | ⟨-, hnew⟩
  · exact absurd hplace (Nat.not_le.mpr hlt)
  · rw [hdata] at hnew
    rw [← hnew] at ho
    exact ho.1

theorem Fit.alloc (h : w.Fit) (ho : w.IsNew o) (hrefs : ∀ x ∈ o.refs, w.store.Has x) :
    ({ w with store := (w.store.alloc o).2 } : World).Fit where
  sound := h.sound.alloc hrefs
  inside n σ r cs hsize := h.inside n σ r cs (Nat.le_trans (w.store.grows_alloc o).size hsize)
  node r data hdata := by
    rcases @Store.look_alloc_cases w.store o r (by rw [hdata]; exact fun h => nomatch h) with
      ⟨hold, -⟩ | ⟨-, hnew⟩
    · exact h.node r data (hold.symm.trans hdata)
    · rw [hdata] at hnew
      rw [← hnew] at ho
      exact ho.2
  collection r nodes n hdata := by
    rcases @Store.look_alloc_cases w.store o r (by rw [hdata]; exact fun h => nomatch h) with
      ⟨hold, -⟩ | ⟨-, hnew⟩
    · exact h.collection r nodes n (hold.symm.trans hdata)
    · rw [hdata] at hnew
      rw [← hnew] at ho
      exact ho

theorem adds_drained (w : World) (taken : Ref) :
    w.Adds taken { w with store := w.store.drained taken } where
  size := Nat.le_of_eq (Store.size_drained _ _).symm
  held place _ := by
    rcases Store.look_drained_cases w.store taken (.held place) with hsame | ⟨rfl, ⟨items, hitems⟩, hnone⟩
    · exact .inl hsame
    · exact .inr ⟨rfl, items, hitems, hnone⟩
  given := by
    show (w.store.drained taken).given = w.store.given
    rw [Store.drained]
    split
    · exact Store.given_put _ _ _
    · rfl
  unread place data hplace hdata := by
    have hsize := Store.size_drained w.store taken
    have hdata : (w.store.drained taken).look (.held place) = .node data := hdata
    rw [Store.look_of_size_le (hsize ▸ hplace)] at hdata
    cases hdata
  adapters := Nat.le_refl _
  adapterAt _ _ := rfl

/-- A world stays fit while its places are written to, if its store stays sound. -/
theorem Fit.evolve (h : w.Fit) {σ : Store} (hevolves : w.store.Evolves σ)
    (hsize : σ.size = w.store.size) (hσ : σ.Sound) : ({ w with store := σ } : World).Fit where
  sound := hσ
  inside n σ' r cs hle := h.inside n σ' r cs (hsize ▸ hle)
  node r data hdata := by
    obtain ⟨children, hold⟩ := hevolves.node_of hsize hdata
    have hlt := h.node r _ hold
    exact hlt
  collection r nodes n hdata := h.collection r nodes n (hevolves.collection_of hsize hdata)

theorem Fit.drained (h : w.Fit) (taken : Ref) :
    ({ w with store := w.store.drained taken } : World).Fit :=
  h.evolve (adds_drained w taken).evolves (Store.size_drained w.store taken) (h.sound.drained taken)

theorem adapterAt_push_of_lt (w : World) (A : Adapter) {n : Nat} (hn : n < w.adapters.size) :
    ({ w with adapters := w.adapters.push A } : World).adapterAt n = w.adapterAt n := by
  simp [World.adapterAt, Array.getElem?_push, Nat.ne_of_lt hn]

theorem adds_push (w : World) (A : Adapter) (taken : Ref) :
    w.Adds taken { w with adapters := w.adapters.push A } where
  size := Nat.le_refl _
  held _ _ := .inl rfl
  given := rfl
  unread := (Adds.refl taken w).unread
  adapters := by
    rw [Array.size_push]
    exact Nat.le_succ _
  adapterAt _ hn := adapterAt_push_of_lt w A hn

theorem Fit.push (h : w.Fit) (hA : A.Inside w.store.size) :
    ({ w with adapters := w.adapters.push A } : World).Fit where
  sound := h.sound
  inside n := by
    rcases Nat.lt_trichotomy n w.adapters.size with hlt | rfl | hgt
    · rw [adapterAt_push_of_lt w A hlt]
      exact h.inside n
    · rw [Query.adapterAt_push]
      exact hA
    · have hnone : (w.adapters.push A)[n]? = none := by
        rw [Array.getElem?_eq_none_iff, Array.size_push]
        exact hgt
      rw [World.adapterAt, hnone]
      exact Adapter.inside_of_field rfl _
  node r data hdata := Nat.lt_of_lt_of_le (h.node r data hdata) (adds_push w A .null).adapters
  collection r nodes n hdata :=
    Nat.lt_of_lt_of_le (h.collection r nodes n hdata) (adds_push w A .null).adapters

/-- The log does not matter. -/
theorem Fit.logged (h : w.Fit) (log : Array LogEntry) : ({ w with log } : World).Fit :=
  ⟨h.sound, h.inside, h.node, h.collection⟩

theorem adds_logged (w : World) (log : Array LogEntry) (taken : Ref) :
    w.Adds taken { w with log } :=
  ⟨Nat.le_refl _, fun _ _ => .inl rfl, rfl, (Adds.refl taken w).unread, Nat.le_refl _, fun _ _ => rfl⟩

/-- **Whatever an adapter in use reaches** from values in the store is in the store. -/
theorem Fit.has_reached (h : w.Fit) {n : Nat} {seeds : List Ref}
    (hseeds : ∀ s ∈ seeds, w.store.Has s) :
    ∀ r, ((w.adapterAt n).view w.store).Reaches seeds r → w.store.Has r := by
  rintro r ⟨x, hx, hbelow⟩
  induction hbelow with
  | here => exact hseeds x hx
  | step _ hcs hc ih => exact h.inside n w.store _ _ (Nat.le_refl _) h.sound ih hcs _ hc

end World

/-! ### Steps that add -/

namespace Session

variable {α β : Type} {w w₁ : World} {taken r : Ref} {x : Session α} {f : α → Session β}
  {P : World → α → Prop} {Q : World → β → Prop}

/-- A step **adds** something to a world: it leads to a world that is fit, and a result that it has is
of some kind there. -/
def Adding (taken : Ref) (x : Session α) (w : World) (Q : World → α → Prop) : Prop :=
  ∃ o w', Leads x w o w' ∧ w.Adds taken w' ∧ w'.Fit ∧ ∀ a, o = .ok a → Q w' a

theorem Adding.of_leads {a : α} (h : Leads x w (.ok a) w₁) (hadds : w.Adds taken w₁) (hw : w₁.Fit)
    (ha : P w₁ a) : Adding taken x w P := by
  refine ⟨.ok a, w₁, h, hadds, hw, ?_⟩
  rintro _ ⟨⟩
  exact ha

/-- A step that adds something and does not fail. -/
theorem Adding.succeeds (h : Adding taken x w P) {a : α} (hok : Leads x w (.ok a) w₁) :
    w.Adds taken w₁ ∧ w₁.Fit ∧ P w₁ a := by
  obtain ⟨o, w', hx, hadds, hw', ha⟩ := h
  obtain ⟨rfl, rfl⟩ := hx.unique hok
  exact ⟨hadds, hw', ha a rfl⟩

theorem adding_pure {a : α} (hw : w.Fit) (ha : P w a) : Adding taken (pure a) w P :=
  .of_leads (leads_pure a) (.refl taken w) hw ha

theorem adding_throw (hw : w.Fit) (e : Failure) : Adding taken (throw e : Session α) w P :=
  ⟨_, w, leads_throw e, .refl taken w, hw, fun _ h => nomatch h⟩

/-- A step that adds something, and then another one. -/
theorem Adding.bind (h : Adding taken x w P)
    (h' : ∀ a w₁, w.Adds taken w₁ → w₁.Fit → P w₁ a → Adding taken (f a) w₁ Q) :
    Adding taken (x >>= f) w Q := by
  obtain ⟨o, w₁, hx, hadds, hw₁, ha⟩ := h
  cases o with
  | error e => exact ⟨_, w₁, hx.bind_error, hadds, hw₁, fun _ h => nomatch h⟩
  | ok a =>
    obtain ⟨o, w', hf, hadds', hw', hb⟩ := h' a w₁ hadds hw₁ (ha a rfl)
    exact ⟨o, w', hx.bind hf, hadds.trans hadds', hw', hb⟩

theorem Adding.imp {P' : World → α → Prop} (h : Adding taken x w P)
    (himp : ∀ w' a, w.Adds taken w' → P w' a → P' w' a) : Adding taken x w P' := by
  obtain ⟨o, w', hx, hadds, hw', ha⟩ := h
  exact ⟨o, w', hx, hadds, hw', fun a ho => himp w' a hadds (ha a ho)⟩

/-- A step that only looks, and then another one. -/
theorem Adding.read {a : α} (h : Leads x w (.ok a) w) (h' : Adding taken (f a) w Q) :
    Adding taken (x >>= f) w Q := by
  obtain ⟨o, w', hf, hrest⟩ := h'
  exact ⟨o, w', h.bind hf, hrest⟩

theorem adding_attempt (hw : w.Fit) (y : Except Failure α) :
    Adding taken (attempt y) w fun w' a => w' = w ∧ y = .ok a :=
  ⟨y, w, leads_attempt y, .refl taken w, hw, fun _ h => ⟨rfl, h⟩⟩

theorem adding_alloc {o : Object} (hw : w.Fit) (ho : w.IsNew o)
    (hrefs : ∀ x ∈ o.refs, w.store.Has x) :
    Adding taken (alloc o) w fun w' r => w'.store.Has r ∧ w'.store.look r = o :=
  .of_leads (leads_alloc o) (World.adds_alloc ho taken) (hw.alloc ho hrefs)
    ⟨w.store.has_alloc o, w.store.look_alloc_self o⟩

/-- A value gets a place, if it needs one. -/
theorem adding_settle (hw : w.Fit) (hr : w.store.Has r) :
    Adding taken (settle r) w fun w' r' => w.store.Settles w'.store r r' := by
  have hsettles := Store.settles_settle hr
  cases r with
  | fresh s =>
    have hnew : w.IsNew (.scalar s) := trivial
    have hnone : ∀ x ∈ (Object.scalar s).refs, w.store.Has x := List.forall_mem_nil _
    exact .of_leads (leads_settle _) (World.adds_alloc hnew taken) (hw.alloc hnew hnone) hsettles
  | _ => exact .of_leads (leads_settle _) (.refl taken w) hw hsettles

/-- **Several values get places**, those that need one. -/
theorem adding_settleAll {rs : List Ref} (hw : w.Fit) (hrs : ∀ r ∈ rs, w.store.Has r) :
    Adding taken (settleAll rs) w fun w' rs' => List.Forall₂ (w.store.Settles w'.store) rs rs' := by
  induction rs generalizing w with
  | nil => exact adding_pure hw .nil
  | cons r rs ih =>
    obtain ⟨hr, hrs⟩ := List.forall_mem_cons.mp hrs
    refine (adding_settle hw hr).bind fun r' w₁ hadds hw₁ hr' => ?_
    refine (ih hw₁ fun x hx => hadds.has (hrs x hx)).bind fun rs' w₂ hadds' hw₂ hrs' => ?_
    refine adding_pure hw₂ (.cons (hr'.evolve hadds'.evolves) ?_)
    exact (forall₂_and_left hrs' hrs).imp fun x x' ⟨hx, hhas⟩ => hx.earlier hhas hadds.size

/-- **A new adapter** is put to use. -/
theorem adding_addAdapter {A : Adapter} (hw : w.Fit) (hA : A.Inside w.store.size) :
    Adding taken (addAdapter A) w fun _ _ => True :=
  .of_leads (leads_addAdapter A) (World.adds_push w A taken) (hw.push hA) trivial

theorem adding_ofTraced (hw : w.Fit) (y : Traced Ref Failure α) :
    Adding taken (ofTraced y) w fun w' a => w'.store = w.store ∧ y.result = .ok a :=
  ⟨_, _, leads_ofTraced y w, World.adds_logged w _ taken, hw.logged _, fun _ h => ⟨rfl, h⟩⟩

/-- **A search from seeds** below which there are finitely many records adds what it finds. -/
theorem adding_findFrom {seeds : List Ref} {n : Nat} (hw : w.Fit)
    (hseeds : ∀ r ∈ seeds, w.store.Has r)
    (hfinite : ((w.adapterAt n).view w.store).FiniteBelow seeds) (l : Locator) :
    Adding taken (findFrom n l seeds) w fun w' rs => ∀ r ∈ rs, w'.store.Has r := by
  refine .read (leads_adapterAt n) (.read leads_store ?_)
  refine (adding_ofTraced hw _).bind fun found w₁ _ hw₁ ⟨hstore, hfound⟩ => ?_
  have hhas : ∀ r ∈ found, w₁.store.Has r := fun r hr => hstore ▸ hw.has_reached hseeds r
    (View.reaches_of_find hfinite hfound r hr)
  exact (adding_settleAll hw₁ hhas).imp fun w' rs hadds hrs => Store.has_of_settles hrs hadds.size

/-- **Items are taken** from a value, if they can be taken only once. -/
theorem adding_drained (hw : w.Fit) (r : Ref) :
    Adding r (modifyStore (·.drained r)) w fun _ _ => True :=
  .of_leads (leads_modifyStore _) (World.adds_drained w r) (hw.drained r) trivial

/-- **A search from a value** takes the items of this value, if they can be taken only once. -/
theorem adding_find {n : Nat} (hw : w.Fit) (hr : w.store.Has r)
    (hfinite : ((w.adapterAt n).view (w.store.drained r)).FiniteBelow (w.store.seedsOf r))
    (l : Locator) :
    Adding r (find n l r) w fun w' rs => ∀ x ∈ rs, w'.store.Has x := by
  refine .read leads_store ?_
  obtain ⟨o, w', hleads, hadds, hw', ho⟩ := adding_findFrom (hw.drained r)
    (fun x hx => (World.adds_drained w r).has (hw.sound.has_seedsOf hr x hx)) hfinite l
  exact ⟨o, w', (leads_modifyStore _).bind hleads, (World.adds_drained w r).trans hadds, hw', ho⟩

theorem adding_parseLocator (hw : w.Fit) (s : String) :
    Adding taken (parseLocator s) w fun w' _ => ∃ log, w' = { w with log } := by
  cases hparse : Locator.parse s with
  | error e =>
    exact ⟨_, w, leads_parseLocator_error hparse, .refl taken w, hw, fun _ h => nomatch h⟩
  | ok l =>
    obtain ⟨log, hlocator⟩ := leads_parseLocator (w := w) hparse
    exact .of_leads hlocator (World.adds_logged w log taken) (hw.logged log) ⟨log, rfl⟩

end Session

namespace Node

open Session

variable {w : World} {taken record parent : Ref} {n : Nat}

/-- A new wrapped record is added. -/
theorem adding_wrap (hw : w.Fit) (hn : n < w.adapters.size) (hrecord : w.store.Has record)
    (hparent : w.store.Has parent) :
    Adding taken (wrap record parent n) w fun w' r =>
      w'.store.Has r ∧ w'.store.look r = .node ⟨record, parent, n, none⟩ := by
  refine adding_alloc hw ⟨rfl, hn⟩ fun x hx => ?_
  simp only [Object.refs, Option.toList_none, List.mem_cons, List.not_mem_nil, or_false] at hx
  rcases hx with rfl | rfl
  · exact hrecord
  · exact hparent

/-- The record behind a value is in the store. -/
theorem has_record (hσ : w.store.Sound) (node : Ref) : w.store.Has (w.store.nodeData node).record := by
  have hparts := hσ.has_refs node
  rw [Store.nodeData]
  split
  · rename_i data hnode
    rw [hnode] at hparts
    exact hparts _ List.mem_cons_self
  · exact Nat.zero_le _

/-- **Reading a field** adds its value, if this is made on the spot. -/
theorem adding_get (hw : w.Fit) (name : String) (node : Ref) :
    Adding taken (get name node) w fun w' x => w'.store.Has x := by
  refine .read leads_store ?_
  have hfield := hw.sound.has_readField (has_record hw.sound node) name
  refine (adding_settle hw hfield).imp fun w' x hadds hx => ?_
  exact Store.has_of_settles (.cons hx .nil) hadds.size x List.mem_cons_self

end Node

/-- A slice of a sequence takes items of it. -/
theorem Slice.mem_of_items {α : Type} {s : Slice} {xs taken : List α} (h : s.items xs = some taken) :
    ∀ x ∈ taken, x ∈ xs := by
  obtain ⟨places, -, rfl⟩ := Option.map_eq_some_iff.mp h
  intro x hx
  obtain ⟨place, -, hplace⟩ := List.mem_filterMap.mp hx
  exact List.mem_of_getElem? hplace

namespace Collection

open Session

variable {w : World} {taken c : Ref} {items nodes : List Ref} {n : Nat}

theorem adding_nodesFor (hw : w.Fit) (hn : n < w.adapters.size)
    (hitems : ∀ x ∈ items, w.store.Has x) :
    Adding taken (nodesFor n items) w fun w' rs => ∀ r ∈ rs, w'.store.Has r := by
  induction items generalizing w with
  | nil => exact adding_pure hw hitems
  | cons item items ih =>
    obtain ⟨hitem, hitems⟩ := List.forall_mem_cons.mp hitems
    have hnode : Adding taken (nodeFor n item) w fun w' r => w'.store.Has r := by
      refine .read leads_store ?_
      split
      · exact adding_pure hw hitem
      · exact (Node.adding_wrap hw hn hitem (Nat.zero_le _)).imp fun w' r _ hr => hr.1
    refine hnode.bind fun node w₁ hadds hw₁ hhas => ?_
    have hn₁ := Nat.lt_of_lt_of_le hn hadds.adapters
    refine (ih hw₁ hn₁ fun x hx => hadds.has (hitems x hx)).bind fun nodes w₂ hadds' hw₂ hnodes => ?_
    exact adding_pure hw₂ (List.forall_mem_cons.mpr ⟨hadds'.has hhas, hnodes⟩)

/-- **A collection of items** is added. -/
theorem adding_ofItems (hw : w.Fit) (hn : n < w.adapters.size)
    (hitems : ∀ x ∈ items, w.store.Has x) :
    Adding taken (ofItems n items) w fun w' c => w'.store.Has c := by
  refine (adding_nodesFor hw hn hitems).bind fun nodes w₁ hadds hw₁ hnodes => ?_
  have hnew : w₁.IsNew (.collection nodes n) := Nat.lt_of_lt_of_le hn hadds.adapters
  exact (adding_alloc hw₁ hnew hnodes).imp fun w' c _ hc => hc.1

/-- **A collection of the items of a value** takes these, if they can be taken only once. -/
theorem adding_ofSource (hw : w.Fit) (hn : n < w.adapters.size) :
    Adding c (ofSource n c) w fun w' c => w'.store.Has c := by
  refine .read leads_store ?_
  split
  · exact adding_ofItems hw hn (List.forall_mem_nil _)
  · split
    · exact adding_throw hw _
    · rename_i items hitems
      have hhas := hw.sound.has_items? hitems
      refine (adding_drained hw c).bind fun _ w₁ hadds hw₁ _ => ?_
      refine (adding_settleAll hw₁ fun x hx => hadds.has (hhas x hx)).bind
        fun items' w₂ hadds' hw₂ hitems' => ?_
      exact adding_ofItems hw₂ (Nat.lt_of_lt_of_le hn (hadds.trans hadds').adapters)
        (Store.has_of_settles hitems' hadds'.size)

/-- **A slice of a collection** is a collection that is added. -/
theorem adding_slice (hw : w.Fit) (hc : w.store.look c = .collection nodes n) (s : Slice) :
    Adding taken (slice s c) w fun w' c => w'.store.Has c := by
  refine .read leads_store ?_
  rw [Store.collectionData, hc]
  cases hitems : s.items nodes with
  | none =>
    simp only [hitems]
    exact adding_throw hw _
  | some part =>
    simp only [hitems]
    have hnodes := hw.sound.has_refs c
    rw [hc] at hnodes
    refine adding_ofItems hw (hw.collection c nodes n hc) fun x hx => ?_
    exact hnodes x (Slice.mem_of_items hitems x hx)

/-- **A field of the first record** is added, if it is made on the spot. -/
theorem adding_prop (hw : w.Fit) (name : String) (c : Ref) :
    Adding taken (prop name c) w fun w' x => w'.store.Has x := by
  refine .read leads_store ?_
  split
  · exact adding_pure hw (Nat.zero_le _)
  · exact Node.adding_get hw name _

/-- **A search in a collection** adds a collection. -/
theorem adding_find (hw : w.Fit) (hc : w.store.look c = .collection nodes n)
    (hfinite : ((w.adapterAt n).view w.store).FiniteBelow
      ((w.store.recordsOf c).map w.store.unwrapped)) (s : String) :
    Adding taken (find s c) w fun w' c => w'.store.Has c := by
  refine (adding_parseLocator hw s).bind ?_
  rintro l _ - hw₁ ⟨log, rfl⟩
  refine .read leads_store ?_
  rw [Store.collectionData, hc]
  have hseeds := hw.sound.has_map_unwrapped (hw.sound.has_recordsOf hc)
  refine (adding_findFrom hw₁ hseeds hfinite l).bind fun found w₂ hadds hw₂ hfound => ?_
  exact adding_ofItems hw₂ (Nat.lt_of_lt_of_le (hw.collection c nodes n hc) hadds.adapters) hfound

end Collection

namespace Query

open Session

variable {w : World} {taken context : Ref} {q : Query} {options : Options}

/-- **A query** adds a collection, and takes the items of its context, if they can be taken only
once. -/
theorem adding_ask (hw : w.Fit) (hn : q.adapter < w.adapters.size) (hcontext : w.store.Has q.context)
    (hfinite : ((w.adapterAt q.adapter).view (w.store.drained q.context)).FiniteBelow
      (w.store.seedsOf q.context)) (s : String) :
    Adding q.context (q.ask s) w fun w' c => w'.store.Has c := by
  refine (adding_parseLocator hw s).bind ?_
  rintro l _ - hw₁ ⟨log, rfl⟩
  refine (adding_find hw₁ hcontext hfinite l).bind fun found w₂ hadds hw₂ hfound => ?_
  exact Collection.adding_ofItems hw₂ (Nat.lt_of_lt_of_le hn hadds.adapters) hfound

/-- **A new query** adds its adapter. -/
theorem adding_start (hw : w.Fit)
    (hA : ∀ A, Adapter.ofOptions options = .ok A → A.Inside w.store.size) :
    Adding taken (start context options) w fun _ _ => True := by
  refine (adding_attempt hw _).bind fun A w₁ _ hw₁ ⟨heq, hok⟩ => ?_
  subst heq
  refine (adding_addAdapter hw₁ (hA A hok)).bind fun n w₂ _ hw₂ _ => .read leads_store ?_
  split
  · have hnew : w₂.IsNew (.list []) := trivial
    have hempty : Adding taken (alloc (.list [])) w₂ fun _ _ => True :=
      (adding_alloc hw₂ hnew (List.forall_mem_nil _)).imp fun _ _ _ _ => trivial
    exact hempty.bind fun _ _ _ hw₃ _ => adding_pure hw₃ trivial
  · exact adding_pure hw₂ trivial

end Query

end RecordQuery
