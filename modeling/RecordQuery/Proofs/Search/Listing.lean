import Mathlib.Data.List.Forall2
import Mathlib.Data.List.Sort
import Mathlib.Data.Set.Card

/-! # Listings in strict order of their keys

A list of entries under keys is a *listing* of a relation when its keys ascend strictly and its
entries are exactly the related pairs. A relation has at most one listing, so a listing says what is
found, in which order and how often.

* `Lists`: a table lists a relation.
* `Lists.append`, `Lists.mapKeys`: listings from listings.
* `Lists.count_eq`: an entry occurs as often as there are keys that it is related to.
* `Lists.nodup`: no entry occurs twice if each is related to one key at most.
* `Lists.forall₂`: listings under the same keys are related entry by entry.
* `Lists.sublist`: a listing of less is a part of a listing of more, in its order.
* `Lists.unique`: a relation has one listing. -/

namespace RecordQuery

/-- A table **lists** a relation between keys and entries: its keys ascend strictly, and exactly the
related pairs are in it. -/
structure Lists {κ α : Type} [LT κ] (table : List (κ × α)) (P : κ → α → Prop) : Prop where
  /-- The keys ascend. -/
  ascending : table.Pairwise fun x y => x.1 < y.1
  /-- The related pairs are in the table, and nothing else is. -/
  mem_iff : ∀ k a, (k, a) ∈ table ↔ P k a

namespace Lists

variable {κ κ' α : Type} [LT κ] [LT κ'] {table table' : List (κ × α)} {P Q : κ → α → Prop}

theorem nil (h : ∀ k a, ¬ P k a) : Lists ([] : List (κ × α)) P :=
  ⟨List.Pairwise.nil, fun k a => iff_of_false List.not_mem_nil (h k a)⟩

theorem congr (h : Lists table P) (hPQ : ∀ k a, P k a ↔ Q k a) : Lists table Q :=
  ⟨h.ascending, fun k a => (h.mem_iff k a).trans (hPQ k a)⟩

/-- A single entry, if a condition holds. -/
theorem single (k : κ) (a : α) (b : Bool) :
    Lists (if b then [(k, a)] else []) fun k' a' => (k' = k ∧ a' = a) ∧ b = true := by
  cases b with
  | false => exact nil fun _ _ h => Bool.false_ne_true h.2
  | true => exact ⟨List.pairwise_singleton _ _, fun k' a' => by simp⟩

/-- One listing behind another, if its keys come later. -/
theorem append (h : Lists table P) (h' : Lists table' Q)
    (hlt : ∀ k a k' a', P k a → Q k' a' → k < k') :
    Lists (table ++ table') fun k a => P k a ∨ Q k a := by
  refine ⟨List.pairwise_append.mpr ⟨h.ascending, h'.ascending, ?_⟩, fun k a => ?_⟩
  · intro x hx y hy
    exact hlt _ _ _ _ ((h.mem_iff _ _).mp hx) ((h'.mem_iff _ _).mp hy)
  · rw [List.mem_append, h.mem_iff, h'.mem_iff]

/-- A listing under other keys in the same order. -/
theorem mapKeys {f : κ → κ'} (h : Lists table P) (hf : ∀ k k', k < k' → f k < f k') :
    Lists (table.map fun x => (f x.1, x.2)) fun k a => ∃ k', k = f k' ∧ P k' a := by
  refine ⟨List.pairwise_map.mpr (h.ascending.imp fun hlt => hf _ _ hlt), fun k a => ?_⟩
  rw [List.mem_map]
  constructor
  · rintro ⟨⟨k', a'⟩, hmem, heq⟩
    cases heq
    exact ⟨k', rfl, (h.mem_iff _ _).mp hmem⟩
  · rintro ⟨k', rfl, hP⟩
    exact ⟨(k', a), (h.mem_iff _ _).mpr hP, rfl⟩

omit [LT κ] [LT κ'] in
/-- The entries keep what they are under other keys. -/
theorem map_snd_mapKeys {f : κ → κ'} (table : List (κ × α)) :
    (table.map fun x => (f x.1, x.2)).map Prod.snd = table.map Prod.snd := by
  rw [List.map_map]
  rfl

/-- The entries of a listing are what some key is related to. -/
theorem mem_map_snd_iff (h : Lists table P) (a : α) :
    a ∈ table.map Prod.snd ↔ ∃ k, P k a := by
  rw [List.mem_map]
  constructor
  · rintro ⟨⟨k, a'⟩, hmem, rfl⟩
    exact ⟨k, (h.mem_iff _ _).mp hmem⟩
  · rintro ⟨k, hP⟩
    exact ⟨(k, a), (h.mem_iff _ _).mpr hP, rfl⟩

/-- **An entry occurs as often as there are keys** that it is related to. -/
theorem count_eq [DecidableEq α] (h : Lists table P) (hirrefl : ∀ k : κ, ¬ k < k) (a : α) :
    (table.map Prod.snd).count a = {k | P k a}.ncard := by
  classical
  -- the keys of the entry, each once
  have hnodup : ((table.filter fun x => x.2 = a).map Prod.fst).Nodup := by
    refine List.pairwise_map.mpr ((h.ascending.filter _).imp ?_)
    intro x y hlt heq
    exact hirrefl _ (heq ▸ hlt)
  have hset : {k | P k a} = (((table.filter fun x => x.2 = a).map Prod.fst).toFinset : Set κ) := by
    ext k
    rw [Set.mem_ofPred_eq, ← h.mem_iff]
    simp
  rw [hset, Set.ncard_coe_finset, List.toFinset_card_of_nodup hnodup, List.length_map,
    List.count, List.countP_map, List.countP_eq_length_filter]
  rfl

omit [LT κ'] in
/-- **No entry occurs twice** if each is related to one key at most. -/
theorem nodup (h : Lists table P) (hirrefl : ∀ k : κ, ¬ k < k)
    (hkey : ∀ k k' a, P k a → P k' a → k = k') : (table.map Prod.snd).Nodup := by
  refine List.pairwise_map.mpr (h.ascending.imp_of_mem fun {x y} hx hy hlt heq => ?_)
  have hxP : P x.1 x.2 := (h.mem_iff _ _).mp hx
  have hyP : P y.1 x.2 := (h.mem_iff _ _).mp (heq ▸ hy)
  exact hirrefl _ (hkey _ _ _ hxP hyP ▸ hlt)

omit [LT κ'] in
/-- An entry under a later key is behind the first one. -/
theorem mem_of_mem_cons {k k' : κ} {a b : α} (hirrefl : ∀ k : κ, ¬ k < k) (hlt : k < k')
    (h : (k', b) ∈ (k, a) :: table) : (k', b) ∈ table := by
  rcases List.mem_cons.mp h with heq | hmem
  · cases heq
    exact absurd hlt (hirrefl _)
  · exact hmem

omit [LT κ'] in
/-- Tables with ascending keys, each of which has an entry in both, are related entry by entry. The
first keys are the same, since each is found in the other table and none of them comes later. -/
theorem forall₂_of_ascending {β : Type} {R : α → β → Prop} (hasymm : ∀ k k' : κ, k < k' → ¬ k' < k)
    {table' : List (κ × β)} (h : table.Pairwise fun x y => x.1 < y.1)
    (h' : table'.Pairwise fun x y => x.1 < y.1)
    (hleft : ∀ k a, (k, a) ∈ table → ∃ b, (k, b) ∈ table' ∧ R a b)
    (hright : ∀ k b, (k, b) ∈ table' → ∃ a, (k, a) ∈ table ∧ R a b) :
    List.Forall₂ R (table.map Prod.snd) (table'.map Prod.snd) := by
  have hirrefl : ∀ k : κ, ¬ k < k := fun k hlt => hasymm k k hlt hlt
  induction table generalizing table' with
  | nil =>
    cases table' with
    | nil => exact .nil
    | cons y table' =>
      obtain ⟨a, ha, -⟩ := hright y.1 y.2 List.mem_cons_self
      exact absurd ha List.not_mem_nil
  | cons x table ih =>
    obtain ⟨k, a⟩ := x
    obtain ⟨hk, htable⟩ := List.pairwise_cons.mp h
    obtain ⟨b, hb, hab⟩ := hleft k a List.mem_cons_self
    cases table' with
    | nil => exact absurd hb List.not_mem_nil
    | cons y table' =>
      obtain ⟨k', b'⟩ := y
      obtain ⟨hk', htable'⟩ := List.pairwise_cons.mp h'
      obtain ⟨a', ha', -⟩ := hright k' b' List.mem_cons_self
      have hhead : (k, b) = (k', b') := by
        rcases List.mem_cons.mp hb with heq | hlater
        · exact heq
        · have hlt : k' < k := hk' _ hlater
          rcases List.mem_cons.mp ha' with heq | hlater'
          · cases heq
            exact absurd hlt (hirrefl _)
          · exact absurd (hk _ hlater') (hasymm _ _ hlt)
      cases hhead
      refine .cons hab (ih htable htable' (fun k' a' hmem => ?_) fun k' b' hmem => ?_)
      · obtain ⟨b', hb', hab'⟩ := hleft k' a' (List.mem_cons_of_mem _ hmem)
        exact ⟨b', mem_of_mem_cons hirrefl (hk _ hmem) hb', hab'⟩
      · obtain ⟨a', ha', hab'⟩ := hright k' b' (List.mem_cons_of_mem _ hmem)
        exact ⟨a', mem_of_mem_cons hirrefl (hk' _ hmem) ha', hab'⟩

omit [LT κ'] in
/-- **Listings under the same keys are related entry by entry** where the entries of each key
are. -/
theorem forall₂ {β : Type} {R : α → β → Prop} {Q : κ → β → Prop} {table' : List (κ × β)}
    (hasymm : ∀ k k' : κ, k < k' → ¬ k' < k) (h : Lists table P) (h' : Lists table' Q)
    (hleft : ∀ k a, P k a → ∃ b, Q k b ∧ R a b) (hright : ∀ k b, Q k b → ∃ a, P k a ∧ R a b) :
    List.Forall₂ R (table.map Prod.snd) (table'.map Prod.snd) := by
  refine forall₂_of_ascending hasymm h.ascending h'.ascending (fun k a hmem => ?_)
    fun k b hmem => ?_
  · obtain ⟨b, hb, hab⟩ := hleft k a ((h.mem_iff k a).mp hmem)
    exact ⟨b, (h'.mem_iff k b).mpr hb, hab⟩
  · obtain ⟨a, ha, hab⟩ := hright k b ((h'.mem_iff k b).mp hmem)
    exact ⟨a, (h.mem_iff k a).mpr ha, hab⟩

/-! ### Listings of less -/

omit [LT κ'] in
/-- Only those entries of a listing that pass a test. -/
theorem filter (h : Lists table P) (test : α → Bool) :
    Lists (table.filter fun x => test x.2) fun k a => P k a ∧ test a = true := by
  refine ⟨h.ascending.filter _, fun k a => ?_⟩
  rw [List.mem_filter, h.mem_iff]

omit [LT κ'] in
/-- **A listing of less** is a part of a listing of more, in its order. -/
theorem sublist {table' : List (κ × α)} (hasymm : ∀ k k' : κ, k < k' → ¬ k' < k)
    (h : Lists table P) (h' : Lists table' Q) (hPQ : ∀ k a, P k a → Q k a) :
    table.Sublist table' := by
  have hanti : Std.Antisymm fun x y : κ × α => x.1 < y.1 :=
    ⟨fun x y hxy hyx => absurd hyx (hasymm _ _ hxy)⟩
  have hnodup : table.Nodup := by
    refine h.ascending.imp ?_
    rintro x y hlt rfl
    exact hasymm _ _ hlt hlt
  have hsubset : table ⊆ table' := by
    rintro ⟨k, a⟩ hmem
    exact (h'.mem_iff k a).mpr (hPQ k a ((h.mem_iff k a).mp hmem))
  exact List.sublist_of_subperm_of_pairwise (List.subperm_of_subset hnodup hsubset) h.ascending
    h'.ascending

omit [LT κ'] in
/-- **A relation has one listing.** -/
theorem unique {table' : List (κ × α)} (hasymm : ∀ k k' : κ, k < k' → ¬ k' < k)
    (h : Lists table P) (h' : Lists table' P) : table = table' := by
  have hsub : table.Sublist table' := h.sublist hasymm h' fun _ _ hP => hP
  have hsub' : table'.Sublist table := h'.sublist hasymm h fun _ _ hP => hP
  exact hsub.antisymm hsub'

end Lists

end RecordQuery
