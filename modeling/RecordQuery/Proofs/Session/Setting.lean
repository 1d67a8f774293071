import RecordQuery.Proofs.Record.Setting
import RecordQuery.Proofs.Session.Actions

/-! # Setting a field of all records of a collection

A field is set through one wrapped record after the other, and the first record that refuses it ends
the setting. So the records before that one have the field, all of them if there is none, and nothing
else is touched: a record that stands behind the refusal has changed only if it also stands before it.

* `Store.firstRefusal`: the place of the first record that refuses.
* `Node.exists_set_record`: setting a field through one wrapped record.
* `Collection.exists_setThrough_holding`: setting it through several, of which none refuses.
* `Collection.setAll_updates_prefix`: setting it through all wrapped records of a collection. -/

namespace RecordQuery

/-- The **place of the first record** of a collection that refuses a field; the place behind the last
record if there is none. -/
def Store.firstRefusal (σ : Store) (c : Ref) : Nat :=
  (σ.recordsOf c).findIdx fun r => !(σ.look r).holdsFields

variable {w : World} {name : String} {key : Ref}

theorem Store.unwrapped_of_node {σ : Store} {node : Ref} {data : NodeData}
    (h : σ.look node = .node data) : σ.unwrapped node = data.record := by
  rw [unwrapped, h]

theorem Store.exists_node_of_isNode {σ : Store} {node : Ref} (h : σ.isNode node) :
    ∃ data, σ.look node = .node data := by
  rw [isNode] at h
  split at h
  case h_1 data hdata => exact ⟨data, hdata⟩
  case h_2 => cases h

open Session

/-- **Setting a field through a wrapped record** whose record holds fields. -/
theorem Node.exists_set_record {node : Ref} (hkey : w.store.text? key = some name) (value : Ref)
    (hnode : w.store.isNode node) (hholds : (w.store.look (w.store.unwrapped node)).holdsFields) :
    ∃ σ', Leads (set name key value node) w (.ok ()) { w with store := σ' } ∧
      Store.SetsField [w.store.unwrapped node] [node] name value w.store σ' := by
  obtain ⟨data, hdata⟩ := Store.exists_node_of_isNode hnode
  rw [Store.unwrapped_of_node hdata] at hholds ⊢
  obtain ⟨σ₁, hwrite, hsets⟩ := Store.exists_writeField hkey value hholds
  have hdata₁ : σ₁.look node = .node data := by
    rw [hsets.remembered node data hdata, if_neg List.not_mem_nil]
  have hheld : w.store.nodeData node = data := by rw [Store.nodeData, hdata]
  have hheld₁ : σ₁.nodeData node = data := by rw [Store.nodeData, hdata₁]
  have hleads := leads_set (hheld.symm ▸ hwrite)
  rw [hheld₁] at hleads
  exact ⟨_, hleads, hsets.append (Store.setsField_forget name value hdata₁)⟩

namespace Collection

/-- **Setting a field through wrapped records** whose records hold fields. -/
theorem exists_setThrough_holding {nodes : List Ref} (hkey : w.store.text? key = some name)
    (value : Ref) (hnodes : ∀ node ∈ nodes, w.store.isNode node)
    (hholds : ∀ node ∈ nodes, (w.store.look (w.store.unwrapped node)).holdsFields) :
    ∃ σ', Leads (setThrough name key value nodes) w (.ok ()) { w with store := σ' } ∧
      Store.SetsField (nodes.map w.store.unwrapped) nodes name value w.store σ' := by
  induction nodes generalizing w with
  | nil => exact ⟨w.store, leads_pure _, .refl name value w.store⟩
  | cons node nodes ih =>
    obtain ⟨hnode, hnodes⟩ := List.forall_mem_cons.mp hnodes
    obtain ⟨hhold, hholds⟩ := List.forall_mem_cons.mp hholds
    obtain ⟨σ₁, hset, hsets⟩ := Node.exists_set_record hkey value hnode hhold
    -- what is wrapped stays wrapped around the same record, which holds fields as before
    have hwrapped : ∀ other ∈ nodes, σ₁.isNode other ∧
        σ₁.unwrapped other = w.store.unwrapped other := by
      intro other hother
      obtain ⟨data, hdata⟩ := Store.exists_node_of_isNode (hnodes other hother)
      obtain ⟨children, hdata₁⟩ := hsets.evolves.node hdata
      refine ⟨by rw [Store.isNode, hdata₁], ?_⟩
      rw [Store.unwrapped_of_node hdata, Store.unwrapped_of_node hdata₁]
    have hholds₁ : ∀ other ∈ nodes, (σ₁.look (σ₁.unwrapped other)).holdsFields := by
      intro other hother
      rw [(hwrapped other hother).2, (hsets.evolves.becomes hsets.size _).holdsFields_eq]
      exact hholds other hother
    obtain ⟨σ', hrest, hsets'⟩ := @ih { w with store := σ₁ }
      ((congrFun (hsets.evolves.text?_eq hsets.size) key).trans hkey)
      (fun other hother => (hwrapped other hother).1) hholds₁
    have hrecords : nodes.map σ₁.unwrapped = nodes.map w.store.unwrapped :=
      List.map_congr_left fun other hother => (hwrapped other hother).2
    refine ⟨σ', hset.bind hrest, ?_⟩
    have happend := hsets.append hsets'
    rwa [hrecords] at happend

/-- **Setting a field through wrapped records** up to the first one whose record refuses it. -/
theorem exists_setThrough_refused {before behind : List Ref} {node : Ref}
    (hkey : w.store.text? key = some name) (value : Ref)
    (hnodes : ∀ other ∈ before ++ node :: behind, w.store.isNode other)
    (hholds : ∀ other ∈ before, (w.store.look (w.store.unwrapped other)).holdsFields)
    (hnot : (w.store.look (w.store.unwrapped node)).holdsFields = false)
    (hwrapper : (w.store.look (w.store.unwrapped node)).isWrapper = false) :
    ∃ refusal σ', Leads (setThrough name key value (before ++ node :: behind)) w
        (.error (.unsettable (w.store.unwrapped node) refusal)) { w with store := σ' } ∧
      Store.SetsField (before.map w.store.unwrapped) before name value w.store σ' := by
  have hnode := hnodes node (List.mem_append_right _ List.mem_cons_self)
  obtain ⟨data, hdata⟩ := Store.exists_node_of_isNode hnode
  obtain ⟨σ', hset, hsets⟩ := exists_setThrough_holding hkey value
    (fun other hother => hnodes other (List.mem_append_left _ hother)) hholds
  rw [Store.unwrapped_of_node hdata] at hnot hwrapper ⊢
  obtain ⟨refusal, hrefusal⟩ := Store.exists_refusal name key value hnot hwrapper
  -- the record is none of those before it, so it refuses the field as it did at first
  have hother : data.record ∉ before.map w.store.unwrapped := by
    intro hmem
    obtain ⟨other, hother, heq⟩ := List.mem_map.mp hmem
    have hhold := hholds other hother
    rw [heq, hnot] at hhold
    cases hhold
  have hlook : σ'.look data.record = w.store.look data.record := by
    refine hsets.others _ hother fun inner hinner => ?_
    rw [hinner] at hwrapper
    cases hwrapper
  obtain ⟨children, hdata'⟩ := hsets.evolves.node hdata
  have hheld : σ'.nodeData node = { data with children } := by rw [Store.nodeData, hdata']
  have hrefused : σ'.writeField (σ'.nodeData node).record name key value = .error refusal := by
    rw [hheld]
    exact Store.writeField_refused hlook hrefusal
  have hleads : Leads (Node.set name key value node) { w with store := σ' }
      (.error (.unsettable (σ'.nodeData node).record refusal)) { w with store := σ' } :=
    Node.leads_set_refused hrefused
  rw [hheld] at hleads
  refine ⟨refusal, σ', ?_, hsets⟩
  rw [setThrough_append]
  exact hset.bind hleads.bind_error

/-- **Setting a field across a collection updates a prefix.** The records before the first refusal
have the field, all of them if there is none, and nothing else has changed but that the nodes of
these records have forgotten their children. -/
theorem setAll_updates_prefix {c : Ref} {nodes : List Ref} {n : Nat}
    (hc : w.store.look c = .collection nodes n) (hnodes : ∀ node ∈ nodes, w.store.isNode node)
    (hrecords : ∀ r ∈ w.store.recordsOf c, (w.store.look r).isWrapper = false)
    (hkey : w.store.text? key = some name) (value : Ref) :
    ∃ o σ', Leads (do setAll name key value c; return c) w o { w with store := σ' } ∧
      (w.store.firstRefusal c = (w.store.recordsOf c).length → o = .ok c) ∧
      (∀ r, (w.store.recordsOf c)[w.store.firstRefusal c]? = some r →
        ∃ refusal, o = .error (.unsettable r refusal) ∧
          (Failure.unsettable r refusal).kinds.head? = some "InvalidAccessorTargetError") ∧
      Store.SetsField ((w.store.recordsOf c).take (w.store.firstRefusal c))
        (nodes.take (w.store.firstRefusal c)) name value w.store σ' := by
  have hnodesOf : w.store.nodesOf c = nodes := by rw [Store.nodesOf, Store.collectionData, hc]
  have hrecordsOf : w.store.recordsOf c = nodes.map w.store.unwrapped := by
    rw [Store.recordsOf, hnodesOf]
  obtain ⟨k, hk⟩ : ∃ k, w.store.firstRefusal c = k := ⟨_, rfl⟩
  rw [Store.firstRefusal] at hk
  rw [Store.firstRefusal, hk]
  rw [hrecordsOf] at hrecords hk ⊢
  -- whatever stands before the first refusal holds fields
  have hholds : ∀ node ∈ nodes.take k, (w.store.look (w.store.unwrapped node)).holdsFields := by
    intro node hnode
    obtain ⟨i, hi, rfl⟩ := List.mem_take_iff_getElem.mp hnode
    have hbefore := List.not_of_lt_findIdx (hk.symm ▸ Nat.lt_of_lt_of_le hi (Nat.min_le_left ..))
    simpa using hbefore
  rw [← List.map_take]
  cases hrest : nodes.drop k with
  | nil =>
    have hall : nodes.take k = nodes := by
      have happend := List.take_append_drop k nodes
      rwa [hrest, List.append_nil] at happend
    rw [hall] at hholds ⊢
    obtain ⟨σ', hset, hsets⟩ := exists_setThrough_holding hkey value hnodes hholds
    have hsetAll : Leads (setAll name key value c) w (.ok ()) { w with store := σ' } :=
      leads_store.bind (hnodesOf.symm ▸ hset)
    refine ⟨_, σ', hsetAll.bind (leads_pure c), fun _ => rfl, fun r hr => ?_, hsets⟩
    have hlt := (List.getElem?_eq_some_iff.mp hr).1
    have hle := List.drop_eq_nil_iff.mp hrest
    rw [List.length_map] at hlt
    omega
  | cons node behind =>
    have hsplit : nodes.take k ++ node :: behind = nodes := by
      rw [← hrest, List.take_append_drop]
    have hat : (nodes.map w.store.unwrapped)[k]? = some (w.store.unwrapped node) := by
      have hnode : nodes[k]? = some node := by rw [← List.head?_drop, hrest, List.head?_cons]
      rw [List.getElem?_map, hnode, Option.map_some]
    obtain ⟨hlt, hget⟩ := List.getElem?_eq_some_iff.mp hat
    have hnot : (w.store.look (w.store.unwrapped node)).holdsFields = false := by
      have hfirst := List.findIdx_getElem (w := hk.symm ▸ hlt)
      simp only [hk, hget] at hfirst
      simpa using hfirst
    have hnodes' : ∀ other ∈ nodes.take k ++ node :: behind, w.store.isNode other :=
      hsplit.symm ▸ hnodes
    obtain ⟨refusal, σ', hset, hsets⟩ := exists_setThrough_refused hkey value hnodes' hholds hnot
      (hrecords _ (hget ▸ List.getElem_mem hlt))
    have hsetAll : Leads (setAll name key value c) w
        (.error (.unsettable (w.store.unwrapped node) refusal)) { w with store := σ' } :=
      leads_store.bind (by rwa [hnodesOf, ← hsplit])
    refine ⟨_, σ', hsetAll.bind_error, fun hlength => absurd hlt (by omega), fun r hr => ?_, hsets⟩
    rw [Option.some.inj (hr.symm.trans hat)]
    exact ⟨refusal, rfl, rfl⟩

end Collection

/-- A mapping that is wrapped twice, with a record with attributes between, and behind these a list
and another mapping. The first node and the last one remember children. -/
def withList : World where
  store := {
    objects := #[
      .mapping [(.text "x", .plain (.int 1)), (.text "y", .text "z")],
      .attributes [("y", .null)],
      .list [],
      .mapping [],
      .node ⟨.held 0, .null, 0, some (.held 2)⟩,
      .node ⟨.held 1, .null, 0, none⟩,
      .node ⟨.held 0, .null, 0, none⟩,
      .node ⟨.held 2, .null, 0, none⟩,
      .node ⟨.held 3, .null, 0, some (.held 2)⟩,
      .collection [.held 4, .held 5, .held 6, .held 7, .held 8] 0] }

/-- A field of all of these is set to the first mapping itself. The list refuses it, so the first
mapping and the record before the list have the field, and the mapping behind it does not. -/
theorem setAll_updates_prefix_withList :
    ∃ refusal σ', Leads (do
        Collection.setAll "x" (.text "x") (.held 0) (.held 9)
        return Ref.held 9) withList (.error (.unsettable (.held 2) refusal))
          { withList with store := σ' } ∧
      σ'.readField (.held 0) "x" = .held 0 ∧ σ'.readField (.held 1) "x" = .held 0 ∧
      σ'.readField (.held 0) "y" = .text "z" ∧ σ'.look (.held 3) = .mapping [] ∧
      σ'.look (.held 4) = .node ⟨.held 0, .null, 0, none⟩ ∧
      σ'.look (.held 8) = .node ⟨.held 3, .null, 0, some (.held 2)⟩ := by
  have hfirst : withList.store.firstRefusal (.held 9) = 3 := by decide
  have hkey : withList.store.text? (.text "x") = some "x" := rfl
  obtain ⟨o, σ', hleads, -, hrefused, hsets⟩ := Collection.setAll_updates_prefix (w := withList)
    (c := .held 9) rfl (by decide) (by decide) hkey (.held 0)
  rw [hfirst] at hrefused hsets
  obtain ⟨refusal, rfl, -⟩ := hrefused (.held 2) rfl
  have hfield : σ'.field? (.held 0) "y" = some (.text "z") :=
    hsets.fields (.held 0) "y" fun _ => by decide
  have hbehind : σ'.look (.held 3) = .mapping [] :=
    hsets.others (.held 3) (by decide) fun data hdata => nomatch hdata
  have hbefore := hsets.remembered (.held 4) _ rfl
  have hlast := hsets.remembered (.held 8) _ rfl
  rw [if_pos (by decide)] at hbefore
  rw [if_neg (by decide)] at hlast
  refine ⟨refusal, σ', hleads, hsets.written _ (by decide), hsets.written _ (by decide), ?_, hbehind,
    hbefore, hlast⟩
  rw [Store.readField, hfield, Option.getD_some]

end RecordQuery
