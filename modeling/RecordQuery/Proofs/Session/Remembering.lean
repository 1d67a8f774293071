import RecordQuery.Proofs.Session.Actions

/-! # Children that are remembered

The nodes of the children are made when they are first asked for, and remembered by the wrapped record
that was asked until a field is set through it. A field that is set through another wrapped record of
the same record does not reach them. So what is read is what the children were when they were made: at
present, if nothing was set since, and otherwise at an earlier moment, after the last field that was
set through this wrapped record.

* `World.Run.remembers`: what is remembered after a run was made in it.
* `Node.children_as_made`: reading the children of a wrapped record, whatever was done before.
* `oneChild`, `settingElsewhere`: a record that is wrapped twice. -/

namespace RecordQuery

/-! ### What is remembered after a run -/

namespace World

variable {w₀ w : World} {actions : List Action}

/-- In an **unread** world no wrapped record has been asked for its children. -/
def Unread (w : World) : Prop :=
  ∀ node data, w.store.look node = .node data → data.children = none

/-- What a node **remembers** after a run was made in it, at a moment at which the node was asked for
its children and remembered none, and since which no field was set through it. -/
def Remembers (w₀ : World) (actions : List Action) (w : World) (node : Ref) (data : NodeData)
    (list : Ref) : Prop :=
  ∃ earlier rest wₑ, actions = earlier ++ .children node :: rest ∧ w₀.AnyRun earlier wₑ ∧
    wₑ.Run (fun w a => ¬ a.SetsThrough node w) (.children node :: rest) w ∧
    wₑ.store.look node = .node { data with children := none } ∧ wₑ.Made w node data list

/-- **Whatever is remembered after a run was made in it**, if nothing was remembered before. -/
theorem Run.remembers (h : w₀.AnyRun actions w) (h₀ : w₀.Fit) (hunread : w₀.Unread)
    {node list : Ref} {data : NodeData} (hnode : w.store.look node = .node data)
    (hsome : data.children = some list) : w₀.Remembers actions w node data list := by
  induction h with
  | nil =>
    rw [hunread node data hnode] at hsome
    cases hsome
  | @snoc actions w₁ w' a o hbefore ha _ hrun ih =>
    have hfollows := Action.follows (hbefore.fit h₀) ha hrun
    rcases hfollows.remembered node data list hnode hsome with ⟨hold, hset⟩ | ⟨rfl, hold, hmade⟩
    · -- it was remembered before, and the last action did not set a field through the node
      obtain ⟨earlier, rest, wₑ, rfl, hearlier, hrest, hnone, hmade⟩ := ih hold
      refine ⟨earlier, rest ++ [a], wₑ, by simp, hearlier, ?_, hnone, hmade.evolve hfollows.evolves⟩
      exact .snoc hrest ha hset hrun
    · exact ⟨actions, [], w₁, rfl, hbefore, .snoc .nil ha id hrun, hold, hmade⟩

end World

/-! ### Reading the children -/

namespace Node

open Session

variable {w w' : World} {node list : Ref} {data : NodeData} {nodes : List Ref}

/-- **The nodes of the children** of a wrapped record, in order. -/
def childNodes (node : Ref) : Session (List Ref) := do
  let list ← children node
  return (← store).nodesOf list

theorem leads_childNodes (h : Leads (children node) w (.ok list) w')
    (hlist : w'.store.look list = .list nodes) : Leads (childNodes node) w (.ok nodes) w' := by
  have hnodes : w'.store.nodesOf list = nodes := by
    rw [Store.nodesOf, Store.collectionData, hlist]
  exact hnodes ▸ h.bind (leads_store.bind (leads_pure _))

/-- A wrapped record that remembers nothing reads its children now. -/
theorem exists_childNodes (hw : w.Fit) (hnode : w.store.look node = .node data)
    (hnone : data.children = none) :
    ∃ o w', Leads (childNodes node) w o w' ∧ Alike (List.Forall₂ (w.IsChild w' node data.adapter))
      ((w.adapterAt data.adapter).childrenOf w.store data.record) o := by
  cases hrecords : (w.adapterAt data.adapter).childrenOf w.store data.record with
  | error e => exact ⟨_, w, (leads_children_error hnode hnone hrecords).bind_error, .error e⟩
  | ok records =>
    obtain ⟨list, w', hlist, hlearns⟩ := exists_children hw hnode hnone hrecords
    obtain ⟨records', nodes, hrecords', hlook, hnodes⟩ := hlearns.made
    rw [hrecords, Except.ok.injEq] at hrecords'
    subst hrecords'
    exact ⟨_, w', leads_childNodes hlist hlook, .ok hnodes⟩

/-- Reading the nodes of the children is asking for them. -/
theorem leads_perform_children {o : Except Failure (List Ref)}
    (h : Leads (childNodes node) w o w') : ∃ o', Leads (Action.children node).perform w o' w' := by
  obtain ⟨o₁, w₁, hlist⟩ := exists_leads (children node) w
  cases o₁ with
  | error e =>
    obtain ⟨-, rfl⟩ := h.unique hlist.bind_error
    exact ⟨_, hlist.bind_error⟩
  | ok list =>
    obtain ⟨-, rfl⟩ := h.unique (hlist.bind (leads_store.bind (leads_pure _)))
    exact ⟨_, hlist.bind (leads_pure ())⟩

/-- **The children of a wrapped record are read as they were when they were made**, whatever was done
before: for some moment since which no field was set through it, the nodes are those of the children
that its adapter gave then, in order, each below it and with its adapter. This moment is the present
or the last time that the children were made. The adapter gives the same children at present if since
then no items were taken that can be taken only once, and fields were set only of records on which the
children do not depend. Reading is one more action of the run. Records are read plainly in all of
this. -/
theorem children_as_made (w₀ w : World) (actions : List Action) (node : Ref) (data : NodeData)
    (h₀ : w₀.Fit) (hunread : w₀.Unread) (h : w₀.AnyRun actions w)
    (hnode : w.store.look node = .node data)
    (hplain : data.children = none → (w.adapterAt data.adapter).ReadsPlainly w.store data.record) :
    ∃ earlier later wₑ, actions = earlier ++ later ∧ w₀.AnyRun earlier wₑ ∧
      wₑ.Run (fun w a => ¬ a.SetsThrough node w) later w ∧
      (∀ a ∈ later.head?, a = .children node) ∧
      (∃ o w', Leads (childNodes node) w o w' ∧ w₀.AnyRun (actions ++ [.children node]) w' ∧
        Alike (List.Forall₂ (wₑ.IsChild w' node data.adapter))
          ((w.adapterAt data.adapter).childrenOf wₑ.store data.record) o) ∧
      ∀ settable, wₑ.Run (Action.OnlySets settable) later w →
        (w.adapterAt data.adapter).Faithful wₑ.store data.record settable →
        (w.adapterAt data.adapter).childrenOf w.store data.record =
          (w.adapterAt data.adapter).childrenOf wₑ.store data.record := by
  have hread {o : Except Failure (List Ref)} {w' : World} (hrun : Leads (childNodes node) w o w') :
      w₀.AnyRun (actions ++ [.children node]) w' := by
    obtain ⟨o', hperform⟩ := leads_perform_children hrun
    exact .snoc h ⟨data, hnode, hplain⟩ trivial hperform
  cases hchildren : data.children with
  | none =>
    obtain ⟨o, w', hrun, halike⟩ := exists_childNodes (h.fit h₀) hnode hchildren
    refine ⟨actions, [], w, (List.append_nil _).symm, h, .nil, ?_, ⟨o, w', hrun, hread hrun, halike⟩,
      fun _ _ _ => rfl⟩
    intro a ha
    cases ha
  | some list =>
    obtain ⟨earlier, rest, wₑ, rfl, hearlier, hrest, hnone, records, nodes, hrecords, hlist, hnodes⟩ :=
      h.remembers h₀ hunread hnode hchildren
    have hfit := hearlier.fit h₀
    obtain ⟨-, hadapter⟩ := hrest.adapterAt hfit (hfit.node node _ hnone)
    refine ⟨earlier, .children node :: rest, wₑ, rfl, hearlier, hrest, ?_, ?_, ?_⟩
    · rintro a ⟨⟩
      rfl
    · have hrun := leads_childNodes (leads_children_remembered hnode hchildren) hlist
      refine ⟨_, w, hrun, hread hrun, ?_⟩
      rw [hadapter, hrecords]
      exact .ok hnodes
    · intro settable honly hfaithful
      have hrecord : wₑ.store.Has data.record := by
        have hparts := hfit.sound.has_refs node
        rw [hnone] at hparts
        exact hparts _ List.mem_cons_self
      exact hfaithful w.store hfit.sound hrecord (honly.keeps hfit)

end Node

/-! ### Worlds in which nothing is wrapped -/

namespace World

variable {w : World}

theorem isWrapper_look
    (h : ∀ place < w.store.size, (w.store.look (.held place)).isWrapper = false) (r : Ref) :
    (w.store.look r).isWrapper = false := by
  cases r with
  | held place =>
    by_cases hplace : place < w.store.size
    · exact h place hplace
    · rw [Store.look_of_size_le (Nat.not_lt.mp hplace)]
      rfl
  | _ => rfl

/-- **A sound world in which nothing is wrapped is fit**, if its adapters stay inside it. -/
theorem fit_of_places (hσ : w.store.Sound) (hinside : ∀ n, (w.adapterAt n).Inside w.store.size)
    (h : ∀ place < w.store.size, (w.store.look (.held place)).isWrapper = false) : w.Fit where
  sound := hσ
  inside := hinside
  node r data hdata := by
    have hnone := isWrapper_look h r
    rw [hdata] at hnone
    cases hnone
  collection r nodes n hdata := by
    have hnone := isWrapper_look h r
    rw [hdata] at hnone
    cases hnone

theorem unread_of_places
    (h : ∀ place < w.store.size, (w.store.look (.held place)).isWrapper = false) : w.Unread := by
  intro node data hdata
  have hnone := isWrapper_look h node
  rw [hdata] at hnone
  cases hnone

end World

/-! ### One record, wrapped twice -/

/-- A record with one child, and a list without items. -/
def oneChild : World where
  store := {
    objects := #[
      .mapping [(.text "children", .held 1)],
      .list [.held 2],
      .mapping [(.text "id", .text "x")],
      .list []] }
  adapters := #[.usual]

/-- The record is wrapped twice. The first node is asked for its children, and then the children are
set to none through the second one. -/
def settingElsewhere : List Action := [
  .wrap (.held 0) .null 0,
  .wrap (.held 0) .null 0,
  .children (.held 4),
  .set "children" (.text "children") (.held 3) (.held 5)]

/-- The record, whose first node remembers the child that the record does not have any more. -/
def childElsewhere : World where
  store := {
    objects := #[
      .mapping [(.text "children", .held 3)],
      .list [.held 2],
      .mapping [(.text "id", .text "x")],
      .list [],
      .node ⟨.held 0, .null, 0, some (.held 7)⟩,
      .node ⟨.held 0, .null, 0, none⟩,
      .node ⟨.held 2, .held 4, 0, none⟩,
      .list [.held 6]] }
  adapters := #[.usual]

theorem oneChild_fit : oneChild.Fit := by
  refine World.fit_of_places (Store.sound_of_places (by decide) (by decide)) (fun n => ?_) (by decide)
  -- a number without an adapter stands for the usual one
  have husual : oneChild.adapterAt n = .usual := by
    cases n <;> rfl
  exact husual ▸ Adapter.inside_of_field rfl _

theorem run_settingElsewhere : oneChild.AnyRun settingElsewhere childElsewhere := by
  have h₀ : oneChild.AnyRun [] oneChild := .nil
  have h₁ := h₀.snoc (a := .wrap (.held 0) .null 0) ⟨by decide, by decide, by decide⟩ trivial rfl
  have h₂ := h₁.snoc (a := .wrap (.held 0) .null 0) ⟨by decide, by decide, by decide⟩ trivial rfl
  have h₃ := h₂.snoc (a := .children (.held 4))
    ⟨_, rfl, fun _ => ⟨rfl, by decide, by rintro _ ⟨⟩; rfl⟩⟩ trivial rfl
  exact h₃.snoc (a := .set "children" (.text "children") (.held 3) (.held 5))
    ⟨⟨_, rfl⟩, by decide, by decide, rfl⟩ trivial rfl

/-- **Setting a field through another wrapped record is not seen**: the record has no children any
more, and the first node still reads the child that it had. -/
theorem children_stale_oneChild : ∃ w, oneChild.AnyRun settingElsewhere w ∧
    w.store.look (.held 4) = .node ⟨.held 0, .null, 0, some (.held 7)⟩ ∧
    (w.adapterAt 0).childrenOf w.store (.held 0) = .ok [] ∧
    ∃ w', Session.Leads (Node.childNodes (.held 4)) w (.ok [.held 6]) w' ∧
      w'.store.look (.held 6) = .node ⟨.held 2, .held 4, 0, none⟩ ∧
      ¬ Alike (List.Forall₂ (w.IsChild w' (.held 4) 0))
        ((w.adapterAt 0).childrenOf w.store (.held 0)) (.ok [.held 6]) := by
  have hnow : (childElsewhere.adapterAt 0).childrenOf childElsewhere.store (.held 0) = .ok [] := rfl
  refine ⟨childElsewhere, run_settingElsewhere, rfl, hnow, childElsewhere, rfl, rfl, fun h => ?_⟩
  rw [hnow] at h
  cases h with
  | ok hnodes => cases hnodes

/-- The first node reads what the children were when it was asked for them, and the second one, which
has not been asked yet, what they are. -/
theorem children_as_made_oneChild :
    oneChild.Fit ∧ oneChild.Unread ∧ oneChild.AnyRun settingElsewhere childElsewhere ∧
      Adapter.usual.ReadsPlainly childElsewhere.store (.held 0) ∧
      ∀ node children, (node, children) ∈ [(Ref.held 4, some (Ref.held 7)), (.held 5, none)] →
        childElsewhere.store.look node = .node ⟨.held 0, .null, 0, children⟩ ∧
        ∃ earlier later wₑ, settingElsewhere = earlier ++ later ∧ oneChild.AnyRun earlier wₑ ∧
          wₑ.Run (fun w a => ¬ a.SetsThrough node w) later childElsewhere ∧
          (∀ a ∈ later.head?, a = .children node) ∧
          (∃ o w', Session.Leads (Node.childNodes node) childElsewhere o w' ∧
            oneChild.AnyRun (settingElsewhere ++ [.children node]) w' ∧
            Alike (List.Forall₂ (wₑ.IsChild w' node 0))
              ((childElsewhere.adapterAt 0).childrenOf wₑ.store (.held 0)) o) ∧
          ∀ settable, wₑ.Run (Action.OnlySets settable) later childElsewhere →
            (childElsewhere.adapterAt 0).Faithful wₑ.store (.held 0) settable →
            (childElsewhere.adapterAt 0).childrenOf childElsewhere.store (.held 0) =
              (childElsewhere.adapterAt 0).childrenOf wₑ.store (.held 0) := by
  have hunread : oneChild.Unread := World.unread_of_places (by decide)
  have hplain : Adapter.usual.ReadsPlainly childElsewhere.store (.held 0) :=
    ⟨rfl, by decide, by rintro _ ⟨⟩; rfl⟩
  refine ⟨oneChild_fit, hunread, run_settingElsewhere, hplain, fun node children hmem => ?_⟩
  have hnode : childElsewhere.store.look node = .node ⟨.held 0, .null, 0, children⟩ := by
    simp only [List.mem_cons, Prod.mk.injEq, List.not_mem_nil, or_false] at hmem
    obtain ⟨rfl, rfl⟩ | ⟨rfl, rfl⟩ := hmem <;> rfl
  exact ⟨hnode, Node.children_as_made oneChild childElsewhere settingElsewhere node _ oneChild_fit
    hunread run_settingElsewhere hnode fun _ => hplain⟩

end RecordQuery
