import RecordQuery.Proofs.Session.Chaining
import RecordQuery.Proofs.Session.Independence

/-! # A search distributes over its seeds

A collection can be cut at a place, and its two parts searched one after the other. Together they
give what the whole collection gives, in the same order and equally often, whatever the records have in
common and whatever repeats below them. The same holds for two lists of records and their
concatenation.

* `Slice.items_before`, `Slice.items_from`: an index cuts a sequence at one place.
* `View.find_append`: a locator finds in two lists of seeds what it finds in one and in the other.
* `World.Extends`: a later world in which everything is as it was.
* `Collection.exists_find_slice`: what a selector finds in a slice of a collection.
* `find_distributes`: a collection and its two parts, two lists and both together. -/

namespace RecordQuery

/-! ### Cutting a sequence -/

namespace Slice

variable {α : Type}

/-- Single steps from one place up to another one take what is between them. -/
theorem filterMap_placesFrom (xs : List α) (stop : Nat) {n start : Nat}
    (h : xs.length ≤ start + n) :
    (placesFrom 1 stop n start).filterMap (xs[·]?) = (xs.take stop).drop start := by
  induction n generalizing start with
  | zero =>
    have hlength : (xs.take stop).length ≤ start := by
      rw [List.length_take]
      omega
    rw [List.drop_eq_nil_of_le hlength]
    rfl
  | succ n ih =>
    rw [placesFrom]
    by_cases hstop : start < stop
    · have hrest := @ih (start + 1) (by omega)
      rw [if_pos (by simpa using hstop), Int.toNat_natCast, List.filterMap_cons]
      push_cast at hrest
      rw [hrest]
      by_cases hstart : start < xs.length
      · have htake : start < (xs.take stop).length := by
          rw [List.length_take]
          omega
        rw [List.getElem?_eq_getElem hstart, List.drop_eq_getElem_cons htake, List.getElem_take]
      · -- behind the sequence nothing is taken
        have hlength : (xs.take stop).length ≤ start := by
          rw [List.length_take]
          omega
        rw [List.getElem?_eq_none (Nat.not_lt.mp hstart), List.drop_eq_nil_of_le hlength,
          List.drop_eq_nil_of_le (Nat.le_succ_of_le hlength)]
    · have hlength : (xs.take stop).length ≤ start := by
        rw [List.length_take]
        omega
      rw [if_neg (by simpa using hstop), List.drop_eq_nil_of_le hlength]
      rfl

/-- **Where an index cuts** a sequence of a length: a negative index is counted from the end, and one
outside the sequence cuts at its start or its end. -/
def cut (length : Nat) (index : Int) : Nat := (clamp length 0 length index).toNat

theorem clamp_eq_cut (length : Nat) (index : Int) : clamp length 0 length index = cut length index := by
  rw [cut, clamp]
  split <;> omega

/-- The slice up to an index is what comes before the cut. -/
theorem items_before (index : Int) (xs : List α) :
    ({ stop := index } : Slice).items xs = some (xs.take (cut xs.length index)) := by
  have hplaces := @filterMap_placesFrom α xs (cut xs.length index) xs.length 0 (by omega)
  rw [← clamp_eq_cut] at hplaces
  exact congrArg some hplaces

/-- The slice from an index on is what comes behind the cut. -/
theorem items_from (index : Int) (xs : List α) :
    ({ start := index } : Slice).items xs = some (xs.drop (cut xs.length index)) := by
  have hplaces := @filterMap_placesFrom α xs xs.length xs.length (cut xs.length index) (by omega)
  rw [← clamp_eq_cut, List.take_length] at hplaces
  exact congrArg some hplaces

end Slice

/-! ### Two lists of seeds -/

/-- **A locator finds in two lists of seeds** what it finds in one and then what it finds in the other,
where nothing fails. -/
theorem View.find_append {ρ ε : Type} [DecidableEq ρ] [Hashable ρ] {V : View ρ ε} {xs ys : List ρ}
    (hxs : V.Searchable xs) (hys : V.Searchable ys) (l : Locator) :
    ∃ out out', (V.find l xs).result = .ok out ∧ (V.find l ys).result = .ok out' ∧
      (V.find l (xs ++ ys)).result = .ok (out ++ out') := by
  by_cases hparts : l.parts = []
  · exact ⟨xs, ys, find_of_parts_eq_nil hparts, find_of_parts_eq_nil hparts,
      find_of_parts_eq_nil hparts⟩
  · obtain ⟨out, hout⟩ := exists_finds hparts hxs
    obtain ⟨out', hout'⟩ := exists_finds hparts hys
    exact ⟨out, out', hout.find_eq, hout'.find_eq, (hout.append hxs hys hout').find_eq⟩

/-! ### Later worlds -/

/-- A world and a **later one in which everything is as it was**: there may be new values, and more may
have been told. -/
structure World.Extends (w w' : World) : Prop where
  /-- Nothing that was in the store has changed. -/
  grows : w.store.Grows w'.store
  /-- The store is sound. -/
  sound : w'.store.Sound
  /-- The adapters are the same. -/
  adapters : w'.adapters = w.adapters

/-- A collection is in the store. -/
theorem Store.has_of_look_collection {σ : Store} {c : Ref} {nodes : List Ref} {n : Nat}
    (h : σ.look c = .collection nodes n) : σ.Has c :=
  has_of_look_ne (by rw [h]; exact fun heq => nomatch heq)

theorem Store.recordsOf_eq {σ : Store} {c : Ref} {nodes : List Ref} {n : Nat}
    (h : σ.look c = .collection nodes n) : σ.recordsOf c = nodes.map σ.unwrapped := by
  rw [recordsOf, nodesOf, collectionData, h]

/-- The records of a collection stay the same. -/
theorem Store.Grows.recordsOf {σ σ' : Store} {c : Ref} {nodes : List Ref} {n : Nat}
    (hg : σ.Grows σ') (hσ : σ.Sound) (h : σ.look c = .collection nodes n) :
    σ'.recordsOf c = σ.recordsOf c := by
  have hlook := (hg.look (has_of_look_collection h)).trans h
  have hnodes := hσ.has_refs c
  rw [h] at hnodes
  rw [recordsOf_eq h, recordsOf_eq hlook]
  exact hg.map_unwrapped hnodes

namespace World

variable {w w₁ w' : World} {n : Nat} {c : Ref} {found seeds : List Ref}

theorem Extends.refl (hσ : w.store.Sound) : w.Extends w := ⟨.refl _, hσ, rfl⟩

theorem Extends.trans (h : w.Extends w₁) (h' : w₁.Extends w') : w.Extends w' :=
  ⟨h.grows.trans h'.grows, h'.sound, h'.adapters.trans h.adapters⟩

theorem Collects.extends (h : w.Collects w' n c found) : w.Extends w' :=
  ⟨h.grows, h.sound, h.adapters⟩

/-- **A search in a later world** finds what it finds now. -/
theorem Extends.find_result (h : w.Extends w') {l : Locator}
    (hA : (w.adapterAt n).Covers w.store seeds)
    (hfound : (((w.adapterAt n).view w.store).find l seeds).result = .ok found) :
    (((w'.adapterAt n).view w'.store).find l seeds).result = .ok found := by
  rw [adapterAt_congr h.adapters, hA.find_eq h.grows h.sound l]
  exact hfound

/-- What is collected of records that were there before is collected of them from then on. -/
theorem Extends.collects (h : w.Extends w₁) (hσ : w.store.Sound)
    (hfound : ∀ r ∈ found, w.store.Has r) (hc : w₁.Collects w' n c found) :
    w.Collects w' n c found := by
  have hrecords := hc.records
  rw [h.grows.map_unwrapped hfound] at hrecords
  refine ⟨h.grows.trans hc.grows, hc.sound, hc.adapters.trans h.adapters, hc.collection, ?_⟩
  refine (forall₂_and_left hrecords (hσ.has_map_unwrapped hfound)).imp fun r r' ⟨hr, hhas⟩ => ?_
  exact (Store.Settles.same hhas).trans hr h.grows hc.grows

/-- A collection is still there later. -/
theorem Collects.later (h : w.Collects w₁ n c found) (hext : w₁.Extends w') :
    w.Collects w' n c found := by
  obtain ⟨nodes, hc⟩ := h.collection
  refine ⟨h.grows.trans hext.grows, hext.sound, hext.adapters.trans h.adapters,
    ⟨nodes, (hext.grows.look (Store.has_of_look_collection hc)).trans hc⟩, ?_⟩
  rw [hext.grows.recordsOf h.sound hc]
  exact h.records.imp fun _ _ hr => hr.grow h.grows hext.grows

end World

/-! ### Searching later -/

namespace Collection

open Session

variable {w w₁ : World} {n : Nat} {c : Ref} {nodes taken out : List Ref} {s : String} {l : Locator}
  {part : Slice}

/-- **A slice of a collection** is a collection of the records that it takes. -/
theorem exists_slice (hσ : w.store.Sound) (hc : w.store.look c = .collection nodes n)
    (hitems : part.items nodes = some taken) (htaken : ∀ r ∈ taken, w.store.Has r) :
    ∃ c' w', Leads (slice part c) w (.ok c') w' ∧ w.Extends w' ∧
      (∃ nodes', w'.store.look c' = .collection nodes' n) ∧
      w'.store.recordsOf c' = taken.map w.store.unwrapped := by
  obtain ⟨c', σ', hrun, hg, hσ', hcollection, hrecords⟩ := exists_ofItems n hσ htaken
  refine ⟨c', { w with store := σ' }, leads_store.bind ?_, ⟨hg, hσ', rfl⟩, hcollection, hrecords⟩
  rw [Store.collectionData, hc]
  simp only [hitems]
  exact hrun

/-- **What a selector finds in a slice**, taken later, is what it finds now in the records that the
slice takes. -/
theorem exists_find_slice
    (hA : (w.adapterAt n).Covers w.store ((taken.map w.store.unwrapped).map w.store.unwrapped))
    (hext : w.Extends w₁) (hc : w.store.look c = .collection nodes n)
    (hparse : Locator.parse s = .ok l) (hitems : part.items nodes = some taken)
    (htaken : ∀ r ∈ taken, r ∈ nodes)
    (h : (((w.adapterAt n).view w.store).find l
      ((taken.map w.store.unwrapped).map w.store.unwrapped)).result = .ok out) :
    ∃ c' w₂ c'' w', Leads (slice part c) w₁ (.ok c') w₂ ∧ Leads (find s c') w₂ (.ok c'') w' ∧
      w₁.Extends w' ∧ w.Collects w' n c'' out := by
  have hnodes := hA.sound.has_refs c
  rw [hc] at hnodes
  have hhas : ∀ r ∈ taken, w.store.Has r := fun r hr => hnodes r (htaken r hr)
  have hrecordshas := hA.sound.has_map_unwrapped hhas
  have hc₁ := (hext.grows.look (Store.has_of_look_collection hc)).trans hc
  obtain ⟨c', w₂, hslice, hext₂, ⟨nodes', hc'⟩, hrecords⟩ :=
    exists_slice hext.sound hc₁ hitems fun r hr => hext.grows.has (hhas r hr)
  have hext' := hext.trans hext₂
  have hseeds : (w₂.store.recordsOf c').map w₂.store.unwrapped =
      (taken.map w.store.unwrapped).map w.store.unwrapped := by
    rw [hrecords, hext.grows.map_unwrapped hhas, hext'.grows.map_unwrapped hrecordshas]
  have houthas := hA.has_found h
  have hfind := hext'.find_result hA h
  rw [← hseeds] at hfind
  obtain ⟨c'', w', hrun, hcollects⟩ := exists_find hparse hc' hext'.sound hfind
    fun r hr => hext'.grows.has (houthas r hr)
  exact ⟨c', w₂, c'', w', hslice, hrun, hext₂.trans hcollects.extends,
    hext'.collects hA.sound houthas hcollects⟩

/-- What a selector finds **in a collection, and in its two parts** when an index cuts it. -/
def findCut (s : String) (index : Int) (c : Ref) : Session (Ref × Ref × Ref) := do
  let whole ← find s c
  let before ← slice { stop := index } c
  let foundBefore ← find s before
  let behind ← slice { start := index } c
  let foundBehind ← find s behind
  return (whole, foundBefore, foundBehind)

theorem keepsLasting_findCut (s : String) (index : Int) (c : Ref) :
    KeepsLasting (findCut s index c) :=
  (keepsLasting_find s c).bind fun _ => (keepsLasting_slice _ c).bind fun before =>
    (keepsLasting_find s before).bind fun _ => (keepsLasting_slice _ c).bind fun behind =>
      (keepsLasting_find s behind).bind fun _ => keepsLasting_pure _

/-- **The parts of a collection** are searched independently of each other: what is collected in all
three is what the locator finds in the records before and behind the cut. -/
theorem exists_findCut (hA : (w.adapterAt n).Steady w.store) (hσ : w.store.Sound)
    (hc : w.store.look c = .collection nodes n)
    (h : ((w.adapterAt n).view w.store).Searchable ((w.store.recordsOf c).map w.store.unwrapped))
    (hparse : Locator.parse s = .ok l) (index : Int) :
    ∃ out out' whole before behind w',
      (((w.adapterAt n).view w.store).find l
        (((nodes.take (Slice.cut nodes.length index)).map w.store.unwrapped).map
          w.store.unwrapped)).result = .ok out ∧
      (((w.adapterAt n).view w.store).find l
        (((nodes.drop (Slice.cut nodes.length index)).map w.store.unwrapped).map
          w.store.unwrapped)).result = .ok out' ∧
      Leads (findCut s index c) w (.ok (whole, before, behind)) w' ∧
      List.Forall₂ (w.store.Settles w'.store) ((out ++ out').map w.store.unwrapped)
        (w'.store.recordsOf whole) ∧
      List.Forall₂ (w.store.Settles w'.store) (out.map w.store.unwrapped)
        (w'.store.recordsOf before) ∧
      List.Forall₂ (w.store.Settles w'.store) (out'.map w.store.unwrapped)
        (w'.store.recordsOf behind) := by
  have hrecords := hσ.has_recordsOf hc
  have hseeds := Store.recordsOf_eq hc
  -- the seeds of the whole collection are those of its two parts
  have hparts : (w.store.recordsOf c).map w.store.unwrapped =
      ((nodes.take (Slice.cut nodes.length index)).map w.store.unwrapped).map w.store.unwrapped ++
      ((nodes.drop (Slice.cut nodes.length index)).map w.store.unwrapped).map w.store.unwrapped := by
    rw [hseeds, ← List.map_append, ← List.map_append, List.take_append_drop]
  rw [hparts] at h
  have hbefore := h.of_reaches fun r hr => Graph.reaches_append_iff.mpr (.inl hr)
  have hbehind := h.of_reaches fun r hr => Graph.reaches_append_iff.mpr (.inr hr)
  obtain ⟨out, out', hout, hout', hboth⟩ := View.find_append hbefore hbehind l
  rw [← hparts] at hboth
  have hwholecovers : (w.adapterAt n).Covers w.store _ :=
    ⟨hA, hσ, hσ.has_map_unwrapped hrecords, hparts ▸ h.finite⟩
  obtain ⟨hhasbefore, hhasbehind⟩ := List.forall_mem_append.mp (hparts ▸ hwholecovers.has)
  obtain ⟨whole, w₁, hrun₁, hwhole⟩ :=
    exists_find hparse hc hσ hboth (hwholecovers.has_found hboth)
  obtain ⟨part, w₂, before, w₃, hslice, hrun₃, hlater, hfound⟩ :=
    exists_find_slice ⟨hA, hσ, hhasbefore, hbefore.finite⟩ hwhole.extends hc hparse
      (Slice.items_before index nodes) (fun _ => List.mem_of_mem_take) hout
  obtain ⟨part', w₄, behind, w', hslice', hrun', hlater', hfound'⟩ :=
    exists_find_slice ⟨hA, hσ, hhasbehind, hbehind.finite⟩ hfound.extends hc hparse
      (Slice.items_from index nodes) (fun _ => List.mem_of_mem_drop) hout'
  exact ⟨out, out', whole, before, behind, w', hout, hout',
    hrun₁.bind (hslice.bind (hrun₃.bind (hslice'.bind (hrun'.bind (leads_pure _))))),
    (hwhole.later (hlater.trans hlater')).records, (hfound.later hlater').records, hfound'.records⟩

end Collection

/-! ### Lists of records -/

namespace Session

variable {w w₁ : World} {n : Nat} {xs ys out : List Ref} {l : Locator}

/-- What a locator finds **in two lists together, and in each of them**. -/
def findApart (n : Nat) (l : Locator) (xs ys : List Ref) :
    Session (List Ref × List Ref × List Ref) := do
  let both ← find n l (← alloc (.list (xs ++ ys)))
  let first ← find n l (← alloc (.list xs))
  let second ← find n l (← alloc (.list ys))
  return (both, first, second)

/-- **What a locator finds in a new list**, made later, is what it finds now in its items. -/
theorem exists_find_list (hA : (w.adapterAt n).Covers w.store (xs.map w.store.unwrapped))
    (hext : w.Extends w₁) (hxs : ∀ r ∈ xs, w.store.Has r)
    (h : (((w.adapterAt n).view w.store).find l (xs.map w.store.unwrapped)).result = .ok out) :
    ∃ list w₂ found w', Leads (alloc (.list xs)) w₁ (.ok list) w₂ ∧
      Leads (find n l list) w₂ (.ok found) w' ∧ w₁.Extends w' ∧
      List.Forall₂ (w.store.Settles w'.store) out found := by
  have hg₂ := w₁.store.grows_alloc (.list xs)
  have hext₂ : w₁.Extends { w₁ with store := (w₁.store.alloc (.list xs)).2 } :=
    ⟨hg₂, hext.sound.alloc fun r hr => hext.grows.has (hxs r hr), rfl⟩
  have hext' := hext.trans hext₂
  have hlook := w₁.store.look_alloc_self (.list xs)
  have hseeds : (w₁.store.alloc (.list xs)).2.seedsOf (w₁.store.alloc (.list xs)).1 =
      xs.map w.store.unwrapped := by
    rw [Store.seedsOf, hlook]
    exact hext'.grows.map_unwrapped hxs
  have hdrained := Store.drained_of_not_isStream (r := (w₁.store.alloc (.list xs)).1)
    (σ := (w₁.store.alloc (.list xs)).2) (by rw [hlook]; rfl)
  have hfind := hext'.find_result hA h
  rw [← hseeds] at hfind
  obtain ⟨found, σ', log, hrun, hg, hsound, hsettles⟩ := exists_findFrom hfind
  have houthas := hA.has_found h
  refine ⟨_, _, found, { w₁ with store := σ', log }, leads_alloc _, leads_find ?_,
    ⟨hg₂.trans hg, hsound hext₂.sound, rfl⟩, ?_⟩
  · rw [hdrained]
    exact hrun
  · have hrelated := hsettles fun r hr => hext'.grows.has (houthas r hr)
    refine (forall₂_and_left hrelated houthas).imp ?_
    rintro r r' ⟨hr, hhas⟩
    exact (Store.Settles.same hhas).trans hr hext'.grows hg

theorem keepsLasting_findApart (n : Nat) (l : Locator) (xs ys : List Ref) :
    KeepsLasting (findApart n l xs ys) :=
  (keepsLasting_alloc rfl).bind fun both => (keepsLasting_find n l both).bind fun _ =>
    (keepsLasting_alloc rfl).bind fun first => (keepsLasting_find n l first).bind fun _ =>
      (keepsLasting_alloc rfl).bind fun second => (keepsLasting_find n l second).bind fun _ =>
        keepsLasting_pure _

/-- **Two lists of records** are searched independently of each other: what comes of all three
searches is what the locator finds in the one and in the other. -/
theorem exists_findApart (hA : (w.adapterAt n).Steady w.store) (hσ : w.store.Sound)
    (hxs : ∀ r ∈ xs, w.store.Has r) (hys : ∀ r ∈ ys, w.store.Has r)
    (h : ((w.adapterAt n).view w.store).Searchable (xs.map w.store.unwrapped))
    (h' : ((w.adapterAt n).view w.store).Searchable (ys.map w.store.unwrapped)) (l : Locator) :
    ∃ out out' both first second w',
      (((w.adapterAt n).view w.store).find l (xs.map w.store.unwrapped)).result = .ok out ∧
      (((w.adapterAt n).view w.store).find l (ys.map w.store.unwrapped)).result = .ok out' ∧
      Leads (findApart n l xs ys) w (.ok (both, first, second)) w' ∧
      List.Forall₂ (w.store.Settles w'.store) (out ++ out') both ∧
      List.Forall₂ (w.store.Settles w'.store) out first ∧
      List.Forall₂ (w.store.Settles w'.store) out' second := by
  obtain ⟨out, out', hout, hout', hboth⟩ := View.find_append h h' l
  rw [← List.map_append] at hboth
  have hfinite := h.finite.append h'.finite
  rw [← List.map_append] at hfinite
  have hhas := List.forall_mem_append.mpr ⟨hxs, hys⟩
  obtain ⟨list₁, w₁, both, w₂, hrun₁, hrun₂, hext₂, hrelated⟩ :=
    exists_find_list ⟨hA, hσ, hσ.has_map_unwrapped hhas, hfinite⟩ (.refl hσ) hhas hboth
  obtain ⟨list₃, w₃, first, w₄, hrun₃, hrun₄, hext₄, hrelated₄⟩ :=
    exists_find_list ⟨hA, hσ, hσ.has_map_unwrapped hxs, h.finite⟩ hext₂ hxs hout
  obtain ⟨list₅, w₅, second, w', hrun₅, hrun', hext', hrelated'⟩ :=
    exists_find_list ⟨hA, hσ, hσ.has_map_unwrapped hys, h'.finite⟩ (hext₂.trans hext₄) hys hout'
  refine ⟨out, out', both, first, second, w', hout, hout', ?_, ?_, ?_, hrelated'⟩
  · exact hrun₁.bind (hrun₂.bind (hrun₃.bind (hrun₄.bind (hrun₅.bind (hrun'.bind (leads_pure _))))))
  · exact hrelated.imp fun _ _ hr => hr.grow hext₂.grows (hext₄.trans hext').grows
  · exact hrelated₄.imp fun _ _ hr => hr.grow (hext₂.trans hext₄).grows hext'.grows

end Session

/-- **A search distributes over its seeds**, where no accessor fails and nothing can be taken only once:
what a selector finds in a collection is what it finds in the part before an index and then what it
finds in the part from that index on, for any index; and what it finds in two lists together is what
it finds in one and then what it finds in the other. Afterwards there is still nothing that can be
taken only once. -/
theorem find_distributes (w : World) (n : Nat) (s : String) (l : Locator) (hσ : w.store.Sound)
    (hlasting : w.store.Lasting) (hA : (w.adapterAt n).Steady w.store)
    (hparse : Locator.parse s = .ok l) :
    (∀ (c : Ref) (nodes : List Ref) (index : Int), w.store.look c = .collection nodes n →
      ((w.adapterAt n).view w.store).Searchable ((w.store.recordsOf c).map w.store.unwrapped) →
      ∃ whole before behind w',
        Session.Leads (Collection.findCut s index c) w (.ok (whole, before, behind)) w' ∧
        w'.store.Lasting ∧
        List.Forall₂ (w.store.SameValue w'.store w'.store) (w'.store.recordsOf whole)
          (w'.store.recordsOf before ++ w'.store.recordsOf behind)) ∧
    ∀ xs ys : List Ref, (∀ r ∈ xs, w.store.Has r) → (∀ r ∈ ys, w.store.Has r) →
      ((w.adapterAt n).view w.store).Searchable (xs.map w.store.unwrapped) →
      ((w.adapterAt n).view w.store).Searchable (ys.map w.store.unwrapped) →
      ∃ both first second w', Session.Leads (Session.findApart n l xs ys) w
        (.ok (both, first, second)) w' ∧ w'.store.Lasting ∧
        List.Forall₂ (w.store.SameValue w'.store w'.store) both (first ++ second) := by
  constructor
  · intro c nodes index hc h
    obtain ⟨out, out', whole, before, behind, w', -, -, hrun, hwhole, hbefore, hbehind⟩ :=
      Collection.exists_findCut hA hσ hc h hparse index
    rw [List.map_append] at hwhole
    exact ⟨whole, before, behind, w', hrun,
      (Collection.keepsLasting_findCut s index c).leads hrun hlasting,
      Store.forall₂_sameValue hwhole (List.rel_append hbefore hbehind)⟩
  · intro xs ys hxs hys h h'
    obtain ⟨out, out', both, first, second, w', -, -, hrun, hboth, hfirst, hsecond⟩ :=
      Session.exists_findApart hA hσ hxs hys h h' l
    exact ⟨both, first, second, w', hrun,
      (Session.keepsLasting_findApart n l xs ys).leads hrun hlasting,
      Store.forall₂_sameValue hboth (List.rel_append hfirst hsecond)⟩

/-- Two records that are children of each other, the first one twice in a collection. -/
def keptPartners : World where
  store := {
    objects := partners.objects ++ #[
      .node ⟨.held 0, .null, 0, none⟩,
      .node ⟨.held 2, .null, 0, none⟩,
      .collection [.held 4, .held 5, .held 4] 0] }

theorem keptPartners_sound : keptPartners.store.Sound :=
  Store.sound_of_places (by decide) (by decide)

theorem keptPartners_lasting : keptPartners.store.Lasting := Store.lasting_of_places (by decide)

theorem keptPartners_steady : (keptPartners.adapterAt 0).Steady keptPartners.store :=
  Adapter.usual_steady _

/-- The locator for the name `b`. -/
def locatorB : Locator := ⟨"b", (named "b").map Part.asWritten, by decide⟩

theorem parse_locatorB : Locator.parse "b" = .ok locatorB :=
  Locator.parse_eq_ok (parse_of_laysOut (by decide) (laysOut_named "b" (by decide)))

/-- What is computed is found among the partners. -/
theorem keptPartners_find_eq {seeds out found : List Ref}
    (hfound : (((keptPartners.adapterAt 0).view keptPartners.store).find locatorB seeds).result =
      .ok found)
    (h : (Adapter.usual.view keptPartners.store).findWithin 6 locatorB.parts seeds = some out) :
    found = out :=
  Except.ok.inj (hfound.symm.trans (View.finds_of_findWithin h).find_eq)

/-- Where the second partner was found some times, this is what is collected. -/
theorem keptPartners_eq {σ : Store} {rs : List Ref} (k : Nat)
    (h : List.Forall₂ (keptPartners.store.Settles σ) (List.replicate k (.held 2)) rs) :
    rs = List.replicate k (.held 2) := by
  refine Store.eq_of_settles h fun r hr s => ?_
  rw [List.eq_of_mem_replicate hr]
  exact nofun

/-- The first partner has the second one as its child twice: so this is found below it twice, and
once where it is searched itself. -/
theorem keptPartners_findCut : ∃ whole before behind w',
    Session.Leads (Collection.findCut "b" (-1) (.held 6)) keptPartners
      (.ok (whole, before, behind)) w' ∧
    w'.store.recordsOf whole = List.replicate 5 (.held 2) ∧
    w'.store.recordsOf before = List.replicate 3 (.held 2) ∧
    w'.store.recordsOf behind = List.replicate 2 (.held 2) := by
  obtain ⟨out, out', whole, before, behind, w', hout, hout', hrun, hwhole, hbefore, hbehind⟩ :=
    Collection.exists_findCut (c := .held 6) keptPartners_steady keptPartners_sound rfl
      (Adapter.usual_searchable _ _) parse_locatorB (-1)
  obtain rfl : out = List.replicate 3 (.held 2) := keptPartners_find_eq hout rfl
  obtain rfl : out' = List.replicate 2 (.held 2) := keptPartners_find_eq hout' rfl
  exact ⟨whole, before, behind, w', hrun, keptPartners_eq 5 hwhole, keptPartners_eq 3 hbefore,
    keptPartners_eq 2 hbehind⟩

theorem keptPartners_findApart : ∃ w',
    Session.Leads (Session.findApart 0 locatorB [.held 0] [.held 2, .held 0]) keptPartners
      (.ok (List.replicate 5 (.held 2), List.replicate 2 (.held 2), List.replicate 3 (.held 2)))
      w' := by
  have hxs : ∀ r ∈ [Ref.held 0], keptPartners.store.Has r := by decide
  have hys : ∀ r ∈ [Ref.held 2, .held 0], keptPartners.store.Has r := by decide
  obtain ⟨out, out', both, first, second, w', hout, hout', hrun, hboth, hfirst, hsecond⟩ :=
    Session.exists_findApart keptPartners_steady keptPartners_sound hxs hys
      (Adapter.usual_searchable _ _) (Adapter.usual_searchable _ _) locatorB
  obtain rfl : out = List.replicate 2 (.held 2) := keptPartners_find_eq hout rfl
  obtain rfl : out' = List.replicate 3 (.held 2) := keptPartners_find_eq hout' rfl
  rw [keptPartners_eq 5 hboth, keptPartners_eq 2 hfirst, keptPartners_eq 3 hsecond] at hrun
  exact ⟨w', hrun⟩

/-- The partners are searched for the name `b`: in the collection cut before its last record, and in
two lists that have a record in common. -/
theorem find_distributes_keptPartners :
    keptPartners.store.Sound ∧ keptPartners.store.Lasting ∧
      (keptPartners.adapterAt 0).Steady keptPartners.store ∧ Locator.parse "b" = .ok locatorB ∧
      keptPartners.store.look (.held 6) = .collection [.held 4, .held 5, .held 4] 0 ∧
      ((keptPartners.adapterAt 0).view keptPartners.store).Searchable [.held 0, .held 2, .held 0] ∧
      (∃ whole before behind w',
        Session.Leads (Collection.findCut "b" (-1) (.held 6)) keptPartners
          (.ok (whole, before, behind)) w' ∧
        w'.store.recordsOf whole = List.replicate 5 (.held 2) ∧
        w'.store.recordsOf before = List.replicate 3 (.held 2) ∧
        w'.store.recordsOf behind = List.replicate 2 (.held 2) ∧
        List.Forall₂ (keptPartners.store.SameValue w'.store w'.store) (w'.store.recordsOf whole)
          (w'.store.recordsOf before ++ w'.store.recordsOf behind)) ∧
      ∃ both first second w',
        Session.Leads (Session.findApart 0 locatorB [.held 0] [.held 2, .held 0]) keptPartners
          (.ok (both, first, second)) w' ∧
        both = List.replicate 5 (.held 2) ∧ first = List.replicate 2 (.held 2) ∧
        second = List.replicate 3 (.held 2) ∧
        List.Forall₂ (keptPartners.store.SameValue w'.store w'.store) both (first ++ second) := by
  have hsearch := Adapter.usual_searchable keptPartners.store
  obtain ⟨hcut, hapart⟩ := find_distributes keptPartners 0 "b" locatorB keptPartners_sound
    keptPartners_lasting keptPartners_steady parse_locatorB
  refine ⟨keptPartners_sound, keptPartners_lasting, keptPartners_steady, parse_locatorB, rfl,
    hsearch _, ?_, ?_⟩
  · obtain ⟨whole, before, behind, w', hrun, hwhole, hbefore, hbehind⟩ := keptPartners_findCut
    obtain ⟨_, _, _, _, hrun', -, hsame⟩ := hcut (.held 6) _ (-1) rfl (hsearch _)
    obtain ⟨heq, rfl⟩ := hrun.unique hrun'
    cases heq
    exact ⟨_, _, _, _, hrun, hwhole, hbefore, hbehind, hsame⟩
  · obtain ⟨w', hrun⟩ := keptPartners_findApart
    obtain ⟨_, _, _, _, hrun', -, hsame⟩ :=
      hapart [.held 0] [.held 2, .held 0] (by decide) (by decide) (hsearch _) (hsearch _)
    obtain ⟨heq, rfl⟩ := hrun.unique hrun'
    cases heq
    exact ⟨_, _, _, _, hrun, rfl, rfl, rfl, hsame⟩

end RecordQuery
