import RecordQuery.Proofs.Session.Adding

/-! # What is done in a session

A session is a sequence of actions: values and adapters are made, queries are asked, records are
wrapped, children are asked for and fields are set. Each action preserves what is fit, and the only
things that change for the records that are there are the fields that are set, the items that are
taken, and the children that wrapped records remember: these are forgotten when a field is set through
the wrapped record, and made when they are asked for. Records are read plainly: they are none of the
session's own objects, and nothing in them can be taken only once.

* `Action`, `World.Run`: what can be done in a session, one thing after the other.
* `Action.Possible`: what an action needs, and which records it reads plainly.
* `World.Forgets`, `Node.exists_set`: setting fields only forgets children.
* `World.Learns`, `Node.exists_children`: what asking for children does.
* `World.Follows`, `Action.follows`: what every action preserves.
* `World.Run.fit`, `World.Run.keeps`: what a run preserves. -/

namespace RecordQuery

/-! ### Steps and what they lead to -/

namespace Session

variable {α β : Type} {w w' : World} {x : Session α} {f : α → Session β} {b : β}

/-- Every step leads somewhere. -/
theorem exists_leads (x : Session α) (w : World) : ∃ o w', Leads x w o w' :=
  ⟨(x.run.run w).1, (x.run.run w).2, rfl⟩

/-- A step that succeeds after another one comes behind its success. -/
theorem exists_of_leads_bind (h : Leads (x >>= f) w (.ok b) w') :
    ∃ a w₁, Leads x w (.ok a) w₁ ∧ Leads (f a) w₁ (.ok b) w' := by
  obtain ⟨o, w₁, hx⟩ := exists_leads x w
  cases o with
  | error e => cases (h.unique hx.bind_error).1
  | ok a =>
    obtain ⟨o, w₂, hf⟩ := exists_leads (f a) w₁
    obtain ⟨rfl, rfl⟩ := h.unique (hx.bind hf)
    exact ⟨a, w₁, hx, hf⟩

/-- A step **without its result**. -/
def dropped (x : Session α) : Session Unit := do
  let _ ← x
  return ()

/-- A step without its result leads where the step leads. -/
theorem exists_of_leads_dropped {o : Except Failure Unit} (h : Leads (dropped x) w o w') :
    ∃ o', Leads x w o' w' := by
  obtain ⟨o', w₁, hx⟩ := exists_leads x w
  cases o' with
  | error e =>
    obtain ⟨-, rfl⟩ := h.unique hx.bind_error
    exact ⟨_, hx⟩
  | ok a =>
    obtain ⟨-, rfl⟩ := h.unique (hx.bind (leads_pure ()))
    exact ⟨_, hx⟩

end Session

/-! ### What is done in a session -/

/-- What can be **done in a session**. -/
inductive Action
  /-- A value is made. -/
  | make (o : Object)
  /-- An adapter is put to use. -/
  | adapt (A : Adapter)
  /-- A query over a context is started. -/
  | start (context : Ref) (options : Options)
  /-- A query is asked. -/
  | ask (q : Query) (selector : String)
  /-- A collection is searched. -/
  | find (selector : String) (c : Ref)
  /-- A record is wrapped, below another wrapped one or not. -/
  | wrap (record parent : Ref) (adapter : Nat)
  /-- The items of a value are collected. -/
  | collect (source : Ref) (adapter : Nat)
  /-- A part of a collection is taken. -/
  | slice (s : Slice) (c : Ref)
  /-- The children of a wrapped record are asked for. -/
  | children (node : Ref)
  /-- A field of the first record of a collection is read. -/
  | prop (name : String) (c : Ref)
  /-- A field is set through a wrapped record. -/
  | set (name : String) (key value node : Ref)
  /-- A field is set through all nodes of a collection. -/
  | setAll (name : String) (key value c : Ref)

namespace Action

open Session

/-- The step of a session that an action is. -/
def perform : Action → Session Unit
  | .make o => dropped (alloc o)
  | .adapt A => dropped (addAdapter A)
  | .start context options => dropped (Query.start context options)
  | .ask q selector => dropped (q.ask selector)
  | .find selector c => dropped (Collection.find selector c)
  | .wrap record parent adapter => dropped (Node.wrap record parent adapter)
  | .collect source adapter => dropped (Collection.ofSource adapter source)
  | .slice s c => dropped (Collection.slice s c)
  | .children node => dropped (Node.children node)
  | .prop name c => dropped (Collection.prop name c)
  | .set name key value node => Node.set name key value node
  | .setAll name key value c => Collection.setAll name key value c

/-- The record behind a value is **none of the session's own objects**, so that its fields are those
that it was made with or that were set. -/
def HoldsOuter (w : World) (node : Ref) : Prop :=
  (w.store.look (w.store.nodeData node).record).isInternal = false

/-- An action is **possible** in a world that has what the action is about, and where the records that
it reads are read plainly. -/
def Possible (w : World) : Action → Prop
  | .make o => o.isInternal = false ∧ ∀ x ∈ o.refs, w.store.Has x
  | .adapt A => A.Inside w.store.size
  | .start _ options => ∀ A, Adapter.ofOptions options = .ok A → A.Inside w.store.size
  | .ask q _ => q.adapter < w.adapters.size ∧ w.store.Has q.context ∧
    (w.adapterAt q.adapter).SearchesPlainly (w.store.drained q.context) (w.store.seedsOf q.context)
  | .find _ c => ∃ nodes n, w.store.look c = .collection nodes n ∧
    (w.adapterAt n).SearchesPlainly w.store ((w.store.recordsOf c).map w.store.unwrapped)
  | .wrap record parent n => n < w.adapters.size ∧ w.store.Has record ∧ w.store.Has parent
  | .collect _ n => n < w.adapters.size
  | .slice _ c => ∃ nodes n, w.store.look c = .collection nodes n
  | .children node => ∃ data, w.store.look node = .node data ∧
    (data.children = none → (w.adapterAt data.adapter).ReadsPlainly w.store data.record)
  | .prop _ c => (∃ nodes n, w.store.look c = .collection nodes n) ∧
    ∀ node ∈ (w.store.nodesOf c).head?, HoldsOuter w node
  | .set _ key value node =>
    (∃ data, w.store.look node = .node data) ∧ w.store.Has key ∧ w.store.Has value ∧
      HoldsOuter w node
  | .setAll _ key value c =>
    (∃ nodes n, w.store.look c = .collection nodes n) ∧ w.store.Has key ∧ w.store.Has value ∧
      ∀ node ∈ w.store.nodesOf c, HoldsOuter w node

/-- An action **sets a field through a node**: through this one alone, or through nodes of a collection
of which it is one, with no refusal up to it. -/
def SetsThrough (node : Ref) (w : World) : Action → Prop
  | .set name key value other =>
    other = node ∧ ∃ w', Leads (Node.set name key value node) w (.ok ()) w'
  | .setAll name key value c => ∃ before behind, w.store.nodesOf c = before ++ node :: behind ∧
    ∃ w', Leads (Collection.setThrough name key value (before ++ [node])) w (.ok ()) w'
  | _ => False

/-- The records of which an action **sets a field**, unless they refuse it. -/
def written (w : World) : Action → List Ref
  | .set _ _ _ node => [(w.store.nodeData node).record]
  | .setAll _ _ _ c => (w.store.nodesOf c).map fun node => (w.store.nodeData node).record
  | _ => []

/-- The value whose items an action goes through. -/
def taken : Action → Ref
  | .ask q _ => q.context
  | .collect source _ => source
  | _ => .null

/-- An action **only sets fields of some records** when it sets no field of another one, and takes no
items that can be taken only once. -/
def OnlySets (settable : Ref → Prop) (w : World) (a : Action) : Prop :=
  (∀ r ∈ a.written w, settable r) ∧ (w.store.look a.taken).isStream = false

end Action

/-- A **run** from one world to another: possible actions, one after the other, each as a rule allows in
the world before it. An action may fail. -/
inductive World.Run (rule : World → Action → Prop) (w : World) : List Action → World → Prop
  /-- Nothing is done. -/
  | nil : Run rule w [] w
  /-- One more action. -/
  | snoc {actions : List Action} {w₁ w' : World} {a : Action} {o : Except Failure Unit} :
      Run rule w actions w₁ → a.Possible w₁ → rule w₁ a → Session.Leads a.perform w₁ o w' →
      Run rule w (actions ++ [a]) w'

/-- A run without a rule. -/
abbrev World.AnyRun : World → List Action → World → Prop := World.Run fun _ _ => True

/-! ### Setting fields -/

/-- A world and a later one in which **children have only been forgotten**, if anything was done to
what is remembered, and fields of some records have been set. -/
structure World.Forgets (records : List Ref) (w w' : World) : Prop where
  /-- There are no new places. -/
  size : w'.store.size = w.store.size
  /-- Fields of these records have been set. -/
  keeps : w.store.Keeps (· ∈ records) w'.store
  /-- The adapters are the same. -/
  adapters : w'.adapters = w.adapters
  /-- What is remembered was remembered before. -/
  remembered : ∀ r data, w'.store.look r = .node data → data.children ≠ none →
    w.store.look r = .node data

theorem World.Forgets.refl (records : List Ref) (w : World) : w.Forgets records w :=
  ⟨rfl, (Store.Grows.refl _).keeps _, rfl, fun _ _ h _ => h⟩

theorem World.Forgets.trans {records records' : List Ref} {w w₁ w' : World} (h : w.Forgets records w₁)
    (h' : w₁.Forgets records' w') : w.Forgets (records ++ records') w' where
  size := h'.size.trans h.size
  keeps := (h.keeps.imp fun _ => List.mem_append_left _).trans
    (h'.keeps.imp fun _ => List.mem_append_right _)
  adapters := h'.adapters.trans h.adapters
  remembered r data hdata hsome := h.remembered r data (h'.remembered r data hdata hsome) hsome

namespace Store

variable {σ σ' : Store} {r : Ref}

/-- There is no record behind a value that is not a wrapped record. -/
theorem record_nodeData_of_not (h : ¬ ∃ data, σ.look r = .node data) :
    (σ.nodeData r).record = .null := by
  rw [nodeData]
  split
  · rename_i data hdata
    exact absurd ⟨data, hdata⟩ h
  · rfl

/-- Without new places, the record behind a value stays the same. -/
theorem Evolves.record_nodeData (h : σ.Evolves σ') (hsize : σ'.size = σ.size) (r : Ref) :
    (σ'.nodeData r).record = (σ.nodeData r).record := by
  by_cases hnode : ∃ data, σ.look r = .node data
  · obtain ⟨data, hdata⟩ := hnode
    obtain ⟨children, hdata'⟩ := h.node hdata
    rw [nodeData, nodeData, hdata, hdata']
  · have hnode' : ¬ ∃ data, σ'.look r = .node data := by
      rintro ⟨data, hdata⟩
      obtain ⟨children, hold⟩ := h.node_of hsize hdata
      exact hnode ⟨_, hold⟩
    rw [record_nodeData_of_not hnode, record_nodeData_of_not hnode']

end Store

/-- Setting a field of a record changes no wrapped record. -/
theorem Store.look_node_of_writeField {σ σ' : Store} {r s : Ref} {name : String} {key value : Ref}
    {data : NodeData} (h : σ.writeField r name key value = .ok σ') (hs : σ'.look s = .node data) :
    σ.look s = .node data := by
  rcases writeField_cases h with ⟨_, -, rfl⟩ | ⟨_, -, rfl⟩ | rfl
  · rcases σ.look_put r s _ with hlook | ⟨-, hlook⟩
    · exact hlook.symm.trans hs
    · cases hlook.symm.trans hs
  · rcases σ.look_put r s _ with hlook | ⟨-, hlook⟩
    · exact hlook.symm.trans hs
    · cases hlook.symm.trans hs
  · rwa [look_give] at hs

namespace Node

open Session

variable {w w' : World} {node : Ref} {data : NodeData} {name : String} {key value : Ref}

/-- A node whose record refuses a field does nothing. -/
theorem leads_set_refused {refusal : Store.Refusal}
    (h : w.store.writeField (w.store.nodeData node).record name key value = .error refusal) :
    Leads (set name key value node) w
      (.error (.unsettable (w.store.nodeData node).record refusal)) w := by
  refine leads_store.bind ?_
  simp only [h]
  exact leads_throw _

/-- A node whose record gets a field forgets its children. -/
theorem leads_set {σ' : Store}
    (h : w.store.writeField (w.store.nodeData node).record name key value = .ok σ') :
    Leads (set name key value node) w (.ok ())
      { w with store := σ'.put node (.node { σ'.nodeData node with children := none }) } := by
  refine leads_store.bind ?_
  simp only [h]
  exact leads_modifyStore _

/-- Only a node gets a field. -/
theorem exists_node_of_writeField {σ' : Store}
    (h : w.store.writeField (w.store.nodeData node).record name key value = .ok σ') :
    ∃ data, w.store.look node = .node data := by
  by_contra hnot
  rw [Store.record_nodeData_of_not hnot] at h
  cases h

/-- **Setting a field through a node** fails and does nothing, or makes the node forget its children.
Either way nothing else happens to what is remembered. -/
theorem exists_set (w : World) (name : String) (key value node : Ref) :
    ∃ o w', Leads (set name key value node) w o w' ∧
      w.Forgets [(w.store.nodeData node).record] w' ∧
      (w.Fit → w.store.Has key → w.store.Has value → w'.Fit) ∧
      (o = .ok () → ∃ data, w.store.look node = .node data ∧
        w'.store.look node = .node { data with children := none }) := by
  cases hwrite : w.store.writeField (w.store.nodeData node).record name key value with
  | error refusal =>
    refine ⟨_, w, leads_set_refused hwrite, .refl _ w, fun hw _ _ => hw, fun hok => ?_⟩
    cases hok
  | ok σ' =>
    obtain ⟨data, hnode⟩ := exists_node_of_writeField hwrite
    have hwritten : w.store.Keeps (· ∈ [(w.store.nodeData node).record]) σ' :=
      Store.keeps_writeField hwrite List.mem_cons_self
    obtain ⟨children, hdata⟩ := hwritten.evolves.node hnode
    have hheld : σ'.nodeData node = { data with children } := by
      rw [Store.nodeData, hdata]
    have hleads := leads_set hwrite
    rw [hheld] at hleads
    have hsize : (σ'.put node (.node { data with children := none })).size = w.store.size := by
      rw [Store.size_put, Store.size_writeField hwrite]
    have hkeeps := hwritten.trans (Store.keeps_remember hdata none)
    refine ⟨_, _, hleads, ⟨hsize, hkeeps, rfl, fun r other hr hsome => ?_⟩,
      fun hw hkey hvalue => ?_, fun _ => ⟨data, hnode, Store.look_remember hdata _⟩⟩
    · rcases σ'.look_put node r (.node { data with children := none }) with hlook | ⟨-, hlook⟩
      · exact Store.look_node_of_writeField hwrite (hlook.symm.trans hr)
      · rw [← Object.node.inj (hlook.symm.trans hr)] at hsome
        exact absurd rfl hsome
    · have hσ' := hw.sound.writeField hkey hvalue hwrite
      refine hw.evolve hkeeps.evolves hsize (hσ'.remember hdata fun x hx => ?_)
      cases hx

end Node

/-! ### Asking for children -/

/-- A child in one world and **its node** in a later world, which knows the node above it. -/
def World.IsChild (w w' : World) (parent : Ref) (n : Nat) (r child : Ref) : Prop :=
  ∃ record children, w.store.Settles w'.store r record ∧
    w'.store.look child = .node ⟨record, parent, n, children⟩

/-- The children of a wrapped record in one world are **made into the nodes** of a list that a later
world has. -/
def World.Made (w w' : World) (node : Ref) (data : NodeData) (list : Ref) : Prop :=
  ∃ records nodes, (w.adapterAt data.adapter).childrenOf w.store data.record = .ok records ∧
    w'.store.look list = .list nodes ∧
    List.Forall₂ (w.IsChild w' node data.adapter) records nodes

theorem World.Made.evolve {w w₁ w' : World} {node list : Ref} {data : NodeData}
    (h : w.Made w₁ node data list) (hevolves : w₁.store.Evolves w'.store) :
    w.Made w' node data list := by
  obtain ⟨records, nodes, hrecords, hlist, hnodes⟩ := h
  refine ⟨records, nodes, hrecords, hevolves.list hlist, hnodes.imp ?_⟩
  rintro r child ⟨record, children, hsettles, hchild⟩
  obtain ⟨children', hchild'⟩ := hevolves.node hchild
  exact ⟨record, children', hsettles.evolve hevolves, hchild'⟩

/-- A world and a later one in which a wrapped record **has learned its children**. -/
structure World.Learns (w w' : World) (node : Ref) (data : NodeData) (list : Ref) : Prop where
  /-- The later world is fit. -/
  fit : w'.Fit
  /-- No field was set. -/
  keeps : w.store.Keeps (· ∈ []) w'.store
  /-- No adapter is lost. -/
  adapters : w.adapters.size ≤ w'.adapters.size
  /-- No adapter changes. -/
  adapterAt : ∀ n < w.adapters.size, w'.adapterAt n = w.adapterAt n
  /-- The nodes of the children were made. -/
  made : w.Made w' node data list
  /-- The wrapped record remembers them. -/
  look : w'.store.look node = .node { data with children := some list }
  /-- What is remembered besides was remembered before. -/
  remembered : ∀ r other, w'.store.look r = .node other → other.children ≠ none →
    r = node ∨ w.store.look r = .node other

namespace Node

open Session

variable {w w' : World} {taken node parent : Ref} {data : NodeData} {n : Nat} {records : List Ref}

/-- New wrapped records are added. -/
theorem adding_wrapAll (hw : w.Fit) (hn : n < w.adapters.size) (hparent : w.store.Has parent)
    (hrecords : ∀ r ∈ records, w.store.Has r) :
    Adding taken (wrapAll parent n records) w fun w' nodes => (∀ r ∈ nodes, w'.store.Has r) ∧
      List.Forall₂ (fun r child => w'.store.look child = .node ⟨r, parent, n, none⟩) records
        nodes := by
  induction records generalizing w with
  | nil => exact adding_pure hw ⟨List.forall_mem_nil _, .nil⟩
  | cons r records ih =>
    obtain ⟨hr, hrecords⟩ := List.forall_mem_cons.mp hrecords
    refine (adding_wrap hw hn hr hparent).bind fun child w₁ hadds hw₁ ⟨hhas, hchild⟩ => ?_
    have hrest := ih hw₁ (Nat.lt_of_lt_of_le hn hadds.adapters) (hadds.has hparent)
      fun x hx => hadds.has (hrecords x hx)
    refine hrest.bind fun nodes w₂ hadds' hw₂ ⟨hnodes, hrelated⟩ => ?_
    exact adding_pure hw₂ ⟨List.forall_mem_cons.mpr ⟨hadds'.has hhas, hnodes⟩,
      .cons (hadds'.look_node hchild) hrelated⟩

/-- Wrapping records does not fail. -/
theorem exists_wrapAll (parent : Ref) (n : Nat) (records : List Ref) (w : World) :
    ∃ nodes w', Leads (wrapAll parent n records) w (.ok nodes) w' := by
  induction records generalizing w with
  | nil => exact ⟨_, _, leads_pure _⟩
  | cons r records ih =>
    obtain ⟨nodes, w', hrest⟩ := ih { w with store := (w.store.alloc (.node ⟨r, parent, n, none⟩)).2 }
    exact ⟨_, _, (leads_alloc _).bind (hrest.bind (leads_pure _))⟩

/-- The list of the nodes of some records. -/
def listOf (parent : Ref) (n : Nat) (records : List Ref) : Session Ref := do
  let records ← settleAll records
  let nodes ← wrapAll parent n records
  alloc (.list nodes)

theorem exists_listOf (parent : Ref) (n : Nat) (records : List Ref) (w : World) :
    ∃ list w', Leads (listOf parent n records) w (.ok list) w' := by
  obtain ⟨records', σ₁, hsettle, -⟩ := exists_settleAll records w
  obtain ⟨nodes, w₂, hwrap⟩ := exists_wrapAll parent n records' { w with store := σ₁ }
  exact ⟨_, _, hsettle.bind (hwrap.bind (leads_alloc _))⟩

/-- **A list of the nodes of records** is added. -/
theorem adding_listOf (hw : w.Fit) (hn : n < w.adapters.size) (hparent : w.store.Has parent)
    (hrecords : ∀ r ∈ records, w.store.Has r) :
    Adding taken (listOf parent n records) w fun w' list => w'.store.Has list ∧
      ∃ nodes, w'.store.look list = .list nodes ∧
        List.Forall₂ (w.IsChild w' parent n) records nodes := by
  refine (adding_settleAll hw hrecords).bind fun records' w₁ hadds hw₁ hsettles => ?_
  have hrecords' := Store.has_of_settles hsettles hadds.size
  have hn₁ := Nat.lt_of_lt_of_le hn hadds.adapters
  refine (adding_wrapAll hw₁ hn₁ (hadds.has hparent) hrecords').bind
    fun nodes w₂ hadds₂ hw₂ ⟨hnodes, hchildren⟩ => ?_
  have hnew : w₂.IsNew (.list nodes) := trivial
  refine (adding_alloc hw₂ hnew hnodes).imp fun w' list hadds₃ ⟨hhas, hlist⟩ => ?_
  refine ⟨hhas, nodes, hlist, forall₂_through hsettles hchildren fun r record child hr hchild => ?_⟩
  exact ⟨record, none, hr.evolve (hadds₂.trans hadds₃).evolves, hadds₃.look_node hchild⟩

theorem leads_data (hnode : w.store.look node = .node data) :
    Leads (Node.data node) w (.ok data) w := by
  have hheld : w.store.nodeData node = data := by rw [Store.nodeData, hnode]
  exact hheld ▸ leads_store.bind (leads_pure _)

/-- **A wrapped record learns its children** when a list of their nodes is made for it. -/
theorem leads_children {w₁ : World} {list : Ref} (hnode : w.store.look node = .node data)
    (hnone : data.children = none)
    (hrecords : (w.adapterAt data.adapter).childrenOf w.store data.record = .ok records)
    (h : Leads (listOf node data.adapter records) w (.ok list) w₁) :
    Leads (children node) w (.ok list)
      { w₁ with store := w₁.store.put node (.node { data with children := some list }) } := by
  have hattempt : Leads (attempt ((w.adapterAt data.adapter).childrenOf w.store data.record)) w
      (.ok records) w := by
    rw [← hrecords]
    exact leads_attempt _
  obtain ⟨records', w₂, hsettle, h⟩ := exists_of_leads_bind h
  obtain ⟨nodes, w₃, hwrap, halloc⟩ := exists_of_leads_bind h
  refine (leads_data hnode).bind ?_
  simp only [hnone]
  exact (leads_adapterAt _).bind (leads_store.bind (hattempt.bind (hsettle.bind (hwrap.bind
    (halloc.bind ((leads_modifyStore _).bind (leads_pure _)))))))

/-- A wrapped record whose children cannot be read learns nothing. -/
theorem leads_children_error {e : Failure} (hnode : w.store.look node = .node data)
    (hnone : data.children = none)
    (herror : (w.adapterAt data.adapter).childrenOf w.store data.record = .error e) :
    Leads (children node) w (.error e) w := by
  have hattempt : Leads (attempt ((w.adapterAt data.adapter).childrenOf w.store data.record)) w
      (.error e) w := by
    rw [← herror]
    exact leads_attempt _
  refine (leads_data hnode).bind ?_
  simp only [hnone]
  exact (leads_adapterAt _).bind (leads_store.bind hattempt.bind_error)

/-- A wrapped record that remembers its children gives these. -/
theorem leads_children_remembered {list : Ref} (hnode : w.store.look node = .node data)
    (hsome : data.children = some list) : Leads (children node) w (.ok list) w := by
  refine (leads_data hnode).bind ?_
  simp only [hsome]
  exact leads_pure _

/-- **A wrapped record that is asked for its children** for the first time learns them. -/
theorem exists_children (hw : w.Fit) (hnode : w.store.look node = .node data)
    (hnone : data.children = none)
    (hrecords : (w.adapterAt data.adapter).childrenOf w.store data.record = .ok records) :
    ∃ list w', Leads (children node) w (.ok list) w' ∧ w.Learns w' node data list := by
  have hparts := hw.sound.has_refs node
  rw [hnode] at hparts
  have hhas : ∀ r ∈ records, w.store.Has r := hw.inside data.adapter w.store data.record records
    (Nat.le_refl _) hw.sound (hparts _ List.mem_cons_self) hrecords
  have hself := Store.has_of_look_node hnode
  obtain ⟨list, w₁, hrun⟩ := exists_listOf node data.adapter records w
  obtain ⟨hadds, hw₁, hlist, nodes, hlook, hnodes⟩ :=
    (@adding_listOf w .null node data.adapter records hw (hw.node node data hnode) hself hhas).succeeds
      hrun
  have hnode₁ := hadds.look_node hnode
  have hremember : w₁.store.Keeps (· ∈ []) _ := Store.keeps_remember hnode₁ (some list)
  refine ⟨list, _, leads_children hnode hnone hrecords hrun, ?_, ?_, hadds.adapters,
    hadds.adapterAt, ?_, Store.look_remember hnode₁ _, fun r other hr hsome => ?_⟩
  · refine hw₁.evolve hremember.evolves (Store.size_put _ _ _) (hw₁.sound.remember hnode₁ ?_)
    rintro _ ⟨⟩
    exact hlist
  · exact ((hadds.grows rfl).keeps _).trans hremember
  · exact World.Made.evolve ⟨records, nodes, hrecords, hlook, hnodes⟩ hremember.evolves
  · rcases w₁.store.look_put node r (.node { data with children := some list }) with hsame | ⟨heq, -⟩
    · exact .inr (hadds.look_node_of (hsame.symm.trans hr) hsome)
    · exact .inl heq

end Node

/-! ### Setting a field through several nodes -/

namespace Collection

open Session

variable {w w₁ w' : World} {name : String} {key value node : Ref} {nodes xs ys : List Ref}
  {o : Except Failure Unit}

/-- Setting a field through nodes and others is setting it through these and then through the others. -/
theorem setThrough_append (name : String) (key value : Ref) (xs ys : List Ref) :
    setThrough name key value (xs ++ ys) =
      (do setThrough name key value xs; setThrough name key value ys) := by
  induction xs with
  | nil => simp [setThrough]
  | cons x xs ih => simp [setThrough, ih]

/-- **Setting a field through nodes** only makes these forget their children. -/
theorem exists_setThrough (name : String) (key value : Ref) (nodes : List Ref) (w : World) :
    ∃ o w', Leads (setThrough name key value nodes) w o w' ∧
      w.Forgets (nodes.map fun node => (w.store.nodeData node).record) w' ∧
      (w.Fit → w.store.Has key → w.store.Has value → w'.Fit) := by
  induction nodes generalizing w with
  | nil => exact ⟨_, w, leads_pure _, .refl _ w, fun hw _ _ => hw⟩
  | cons node nodes ih =>
    obtain ⟨o, w₁, hset, hforgets, hfit, -⟩ := Node.exists_set w name key value node
    cases o with
    | error e => exact ⟨_, w₁, hset.bind_error, hforgets.trans (.refl _ w₁), hfit⟩
    | ok _ =>
      obtain ⟨o', w', hrest, hforgets', hfit'⟩ := ih w₁
      simp only [hforgets.keeps.evolves.record_nodeData hforgets.size] at hforgets'
      refine ⟨o', w', hset.bind hrest, hforgets.trans hforgets', fun hw hkey hvalue => ?_⟩
      have hsize := hforgets.keeps.size
      exact hfit' (hfit hw hkey hvalue) (Store.has_of_size hkey hsize)
        (Store.has_of_size hvalue hsize)

/-- **A node through which a field was set** on the way remembers nothing afterwards. -/
theorem forgotten_of_setThrough {before behind : List Ref} {data : NodeData}
    (h : Leads (setThrough name key value (before ++ node :: behind)) w o w')
    (h₁ : Leads (setThrough name key value (before ++ [node])) w (.ok ()) w₁)
    (hnode : w'.store.look node = .node data) : data.children = none := by
  have hsplit : before ++ node :: behind = (before ++ [node]) ++ behind := by simp
  rw [hsplit, setThrough_append] at h
  obtain ⟨o', w₂, hrest, hforgets, -⟩ := exists_setThrough name key value behind w₁
  obtain ⟨-, rfl⟩ := h.unique (h₁.bind hrest)
  -- the node has forgotten its children before the others are set
  rw [setThrough_append] at h₁
  obtain ⟨_, w₀, -, hlast⟩ := exists_of_leads_bind h₁
  obtain ⟨_, w₃, hset, hnil⟩ := exists_of_leads_bind hlast
  obtain ⟨-, rfl⟩ := hnil.unique (leads_pure _)
  obtain ⟨o, w₄, hset', -, -, hforgotten⟩ := Node.exists_set w₀ name key value node
  obtain ⟨rfl, rfl⟩ := hset'.unique hset
  obtain ⟨old, -, hnone⟩ := hforgotten rfl
  by_contra hsome
  have hold := hforgets.remembered node data hnode hsome
  rw [hnone, Object.node.injEq] at hold
  exact hsome (congrArg NodeData.children hold).symm

end Collection

/-! ### What every action preserves -/

/-- **What an action preserves** in a fit world. -/
structure World.Follows (a : Action) (w w' : World) : Prop where
  /-- The world stays fit. -/
  fit : w'.Fit
  /-- The objects have become what can become of them. -/
  evolves : w.store.Evolves w'.store
  /-- Fields are set of those records only that the action is about. -/
  keeps : (w.store.look a.taken).isStream = false → w.store.Keeps (· ∈ a.written w) w'.store
  /-- No adapter is lost. -/
  adapters : w.adapters.size ≤ w'.adapters.size
  /-- No adapter changes. -/
  adapterAt : ∀ n < w.adapters.size, w'.adapterAt n = w.adapterAt n
  /-- What is remembered was remembered before and no field was set through its node, or it was made
  now. -/
  remembered : ∀ node data list, w'.store.look node = .node data → data.children = some list →
    (w.store.look node = .node data ∧ ¬ a.SetsThrough node w) ∨
      (a = .children node ∧ w.store.look node = .node { data with children := none } ∧
        w.Made w' node data list)

namespace Action

open Session

variable {w w' : World} {a : Action} {o : Except Failure Unit}

/-- An action that only adds something. -/
theorem follows_of_adding {α : Type} {x : Session α} {P : World → α → Prop}
    (h : Adding a.taken x w P) (hrun : Leads (dropped x) w o w')
    (hset : ∀ node, ¬ a.SetsThrough node w) : w.Follows a w' := by
  obtain ⟨o₁, hx⟩ := exists_of_leads_dropped hrun
  obtain ⟨o₂, w₁, hx', hadds, hw', -⟩ := h
  obtain ⟨-, rfl⟩ := hx.unique hx'
  refine ⟨hw', hadds.evolves, fun hstream => (hadds.grows hstream).keeps _, hadds.adapters,
    hadds.adapterAt, fun node data list hnode hsome => ?_⟩
  exact .inl ⟨hadds.look_node_of hnode (by rw [hsome]; exact Option.some_ne_none list), hset node⟩

/-- An action that sets fields. -/
theorem follows_of_forgets (h : w.Forgets (a.written w) w') (hw' : w'.Fit)
    (hforgotten : ∀ node data, a.SetsThrough node w → w'.store.look node = .node data →
      data.children = none) : w.Follows a w' := by
  refine ⟨hw', h.keeps.evolves, fun _ => h.keeps, Nat.le_of_eq (congrArg Array.size h.adapters).symm,
    fun n _ => World.adapterAt_congr h.adapters n, fun node data list hnode hsome => ?_⟩
  have hne : data.children ≠ none := by
    rw [hsome]
    exact Option.some_ne_none list
  exact .inl ⟨h.remembered node data hnode hne, fun hthrough =>
    hne (hforgotten node data hthrough hnode)⟩

/-- Asking for children. -/
theorem follows_children (hw : w.Fit) {node : Ref} {data : NodeData}
    (hnode : w.store.look node = .node data) (hrun : Leads (dropped (Node.children node)) w o w') :
    w.Follows (.children node) w' := by
  have hstays : w.Follows (.children node) w :=
    ⟨hw, .refl _, fun _ => (Store.Grows.refl _).keeps _, Nat.le_refl _, fun _ _ => rfl,
      fun _ _ _ h _ => .inl ⟨h, id⟩⟩
  obtain ⟨o₁, hx⟩ := exists_of_leads_dropped hrun
  cases hchildren : data.children with
  | some list =>
    obtain ⟨-, rfl⟩ := hx.unique (Node.leads_children_remembered hnode hchildren)
    exact hstays
  | none =>
    cases hrecords : (w.adapterAt data.adapter).childrenOf w.store data.record with
    | error e =>
      obtain ⟨-, rfl⟩ := hx.unique (Node.leads_children_error hnode hchildren hrecords)
      exact hstays
    | ok records =>
      obtain ⟨list, w₁, hlist, hlearns⟩ := Node.exists_children hw hnode hchildren hrecords
      obtain ⟨-, rfl⟩ := hx.unique hlist
      refine ⟨hlearns.fit, hlearns.keeps.evolves, fun _ => hlearns.keeps, hlearns.adapters,
        hlearns.adapterAt, fun other held list' hother hsome => ?_⟩
      have hne : held.children ≠ none := by
        rw [hsome]
        exact Option.some_ne_none list'
      rcases hlearns.remembered other held hother hne with rfl | hold
      · -- the node remembers the list that was made for it now
        rw [hlearns.look, Object.node.injEq] at hother
        subst hother
        cases hsome
        refine .inr ⟨rfl, ?_, hlearns.made⟩
        rw [hnode, ← hchildren]
      · exact .inl ⟨hold, id⟩

/-- What the session does not make itself is neither wrapped nor collected. -/
theorem isNew_of_not_isInternal {o : Object} (h : o.isInternal = false) : w.IsNew o := by
  cases o with
  | node | collection => cases h
  | _ => trivial

/-- **Every action preserves** what is fit, and remembers only what is made now. -/
theorem follows (hw : w.Fit) (ha : a.Possible w) (h : Leads a.perform w o w') : w.Follows a w' := by
  cases a with
  | make object =>
    exact follows_of_adding (adding_alloc hw (isNew_of_not_isInternal ha.1) ha.2) h fun _ => id
  | adapt A => exact follows_of_adding (adding_addAdapter hw ha) h fun _ => id
  | start context options => exact follows_of_adding (Query.adding_start hw ha) h fun _ => id
  | ask q selector =>
    obtain ⟨hn, hcontext, hplain⟩ := ha
    exact follows_of_adding (Query.adding_ask hw hn hcontext hplain.finite selector) h fun _ => id
  | find selector c =>
    obtain ⟨nodes, n, hc, hplain⟩ := ha
    exact follows_of_adding (Collection.adding_find hw hc hplain.finite selector) h fun _ => id
  | wrap record parent n =>
    exact follows_of_adding (Node.adding_wrap hw ha.1 ha.2.1 ha.2.2) h fun _ => id
  | collect source n => exact follows_of_adding (Collection.adding_ofSource hw ha) h fun _ => id
  | slice s c =>
    obtain ⟨nodes, n, hc⟩ := ha
    exact follows_of_adding (Collection.adding_slice hw hc s) h fun _ => id
  | children node =>
    obtain ⟨data, hnode, -⟩ := ha
    exact follows_children hw hnode h
  | prop name c => exact follows_of_adding (Collection.adding_prop hw name c) h fun _ => id
  | set name key value node =>
    obtain ⟨-, hkey, hvalue, -⟩ := ha
    obtain ⟨o', w₁, hset, hforgets, hfit, hforgotten⟩ := Node.exists_set w name key value node
    obtain ⟨rfl, rfl⟩ := hset.unique h
    refine follows_of_forgets hforgets (hfit hw hkey hvalue) ?_
    rintro other data ⟨rfl, w'', hok⟩ hnode
    obtain ⟨rfl, -⟩ := hset.unique hok
    obtain ⟨old, -, hnone⟩ := hforgotten rfl
    rw [hnode, Object.node.injEq] at hnone
    rw [hnone]
  | setAll name key value c =>
    obtain ⟨-, hkey, hvalue, -⟩ := ha
    obtain ⟨o', w₁, hset, hforgets, hfit⟩ :=
      Collection.exists_setThrough name key value (w.store.nodesOf c) w
    obtain ⟨-, rfl⟩ := (leads_store.bind hset).unique h
    refine follows_of_forgets hforgets (hfit hw hkey hvalue) ?_
    rintro other data ⟨before, behind, hnodes, w'', hok⟩ hnode
    rw [hnodes] at hset
    exact Collection.forgotten_of_setThrough hset hok hnode

end Action

/-! ### Runs -/

namespace World

variable {rule : World → Action → Prop} {w w' : World} {actions : List Action}

/-- A run **stays fit**. -/
theorem Run.fit (h : w.Run rule actions w') (hw : w.Fit) : w'.Fit := by
  induction h with
  | nil => exact hw
  | snoc _ ha _ hrun ih => exact (Action.follows ih ha hrun).fit

/-- No adapter changes in a run. -/
theorem Run.adapterAt (h : w.Run rule actions w') (hw : w.Fit) {n : Nat} (hn : n < w.adapters.size) :
    n < w'.adapters.size ∧ w'.adapterAt n = w.adapterAt n := by
  induction h with
  | nil => exact ⟨hn, rfl⟩
  | snoc hbefore ha _ hrun ih =>
    have hfollows := Action.follows (hbefore.fit hw) ha hrun
    exact ⟨Nat.lt_of_lt_of_le ih.1 hfollows.adapters, (hfollows.adapterAt n ih.1).trans ih.2⟩

/-- **A run that only sets fields of some records** changes nothing else but what is remembered. -/
theorem Run.keeps {settable : Ref → Prop} (h : w.Run (Action.OnlySets settable) actions w')
    (hw : w.Fit) : w.store.Keeps settable w'.store := by
  induction h with
  | nil => exact (Store.Grows.refl _).keeps _
  | snoc hbefore ha honly hrun ih =>
    have hfollows := Action.follows (hbefore.fit hw) ha hrun
    exact ih.trans ((hfollows.keeps honly.2).imp honly.1)

end World

end RecordQuery
