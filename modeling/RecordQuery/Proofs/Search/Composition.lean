import RecordQuery.Proofs.Search.Matches
import RecordQuery.Proofs.Selector.Writing
import RecordQuery.Wrapped.Collection

/-! # One search behind another

A selector written behind another one searches the children of what the other one finds. So a long
selector can be cut at any blank between two parts, and the pieces applied one after the other.

* `View.Finds.reaches`: what parts lead to is reached.
* `View.Finds.append_parts`: further parts search the children of what parts before them lead to.
* `Store.seedsOf_alloc_list`: a new list of records stands for its items.
* `View.find_juxtaposed`: two selectors with a blank between them. -/

namespace RecordQuery

/-! ### The children of what is found -/

/-- The children of records that can all be read are read. -/
theorem Graph.exists_expand {ρ ε : Type} {G : Graph ρ ε} {xs : List ρ}
    (h : ∀ r ∈ xs, ∃ cs, G.children r = .ok cs) : ∃ next, G.expand xs = .ok next := by
  induction xs with
  | nil => exact ⟨[], rfl⟩
  | cons r xs ih =>
    obtain ⟨⟨cs, hcs⟩, hxs⟩ := List.forall_mem_cons.mp h
    obtain ⟨next, hnext⟩ := ih hxs
    exact ⟨cs ++ next, expand_cons hcs hnext⟩

namespace View

variable {ρ ε : Type} [DecidableEq ρ] [Hashable ρ] {V : View ρ ε} {ps qs : List Part}
  {candidates found next out : List ρ}

/-- Parts lead to records, where nothing fails. -/
theorem exists_finds (hps : ps ≠ []) (h : V.Searchable candidates) :
    ∃ out, V.Finds ps candidates out := by
  obtain ⟨table, hfinds, -⟩ := exists_chain_listing hps h
  exact ⟨_, hfinds⟩

/-- What parts lead to is reached. -/
theorem Finds.reaches (h : V.Finds ps candidates out) (hsearch : V.Searchable candidates) :
    ∀ r ∈ out, V.Reaches candidates r :=
  h.reaches_of_finiteBelow hsearch.finite

/-- **Further parts search the children** of what the parts before them lead to. -/
theorem Finds.append_parts (h : V.Finds ps candidates found) (hnext : V.expand found = .ok next)
    (hrest : V.Finds qs next out) : V.Finds (ps ++ qs) candidates out := by
  induction h with
  | last hfound => exact .more hfound hnext hrest
  | more hfound hchildren _ ih => exact .more hfound hchildren (ih hnext)

end View

/-! ### A list of records as a start -/

namespace Store

variable {σ : Store} {r : Ref}

/-- A record that is no wrapped record stands for itself. -/
theorem unwrapped_of_not_isNode (h : σ.isNode r = false) : σ.unwrapped r = r := by
  rw [isNode] at h
  rw [unwrapped]
  split
  · rename_i data hdata
    rw [hdata] at h
    cases h
  · rfl

theorem map_unwrapped_of_not_isNode {items : List Ref} (h : ∀ r ∈ items, σ.isNode r = false) :
    items.map σ.unwrapped = items :=
  (List.map_congr_left fun r hr => unwrapped_of_not_isNode (h r hr)).trans (List.map_id items)

/-- A new list wraps no record. -/
theorem isNode_alloc_list (items : List Ref) (h : σ.isNode r = false) :
    (σ.alloc (.list items)).2.isNode r = false := by
  cases r with
  | plain s => rfl
  | fresh s => rfl
  | noItems => rfl
  | held place =>
    rcases Nat.lt_trichotomy place σ.size with hlt | rfl | hgt
    · rw [isNode, look_alloc_of_lt σ _ hlt]
      exact h
    · have hnew : (σ.alloc (.list items)).2.look (.held σ.size) = .list items :=
        look_alloc_self σ (.list items)
      rw [isNode, hnew]
    · -- behind the new place there is nothing
      have hnone : (σ.objects.push (.list items))[place]? = none := by
        rw [Array.getElem?_eq_none_iff, Array.size_push]
        exact hgt
      rw [isNode, alloc, look, hnone]
      rfl

/-- **A new list of records stands for its items** as the start of a search, if none of them is a
wrapped record. -/
theorem seedsOf_alloc_list {items : List Ref} (h : ∀ r ∈ items, σ.isNode r = false) :
    (σ.alloc (.list items)).2.seedsOf (σ.alloc (.list items)).1 = items := by
  rw [seedsOf, look_alloc_self]
  exact map_unwrapped_of_not_isNode fun r hr => isNode_alloc_list items (h r hr)

end Store

/-- **A selector behind another one searches the children of what the other one finds**: where
nothing fails and no record is a wrapped one, two selectors with a blank between them find what the
second finds from a new list of these children, in the same order. This holds for a second selector
that starts with a combinator, too; the first one must not end with a combinator that waits for a
part. -/
theorem View.find_juxtaposed (V : View Ref Failure) (σ : Store) (s₁ s₂ : String) (l₁ l₂ : Locator)
    (h₁ : Locator.parse s₁ = .ok l₁) (h₂ : Locator.parse s₂ = .ok l₂) (hne₁ : l₁.parts ≠ [])
    (hne₂ : l₂.parts ≠ []) (hend : ¬ EndsPending s₁) (target : Ref)
    (h : V.Searchable (σ.seedsOf target))
    (hplain : ∀ r, V.Reaches (σ.seedsOf target) r → σ.isNode r = false) :
    ∃ l found next out, Locator.parse (s₁ ++ " " ++ s₂) = .ok l ∧
      (V.find l₁ (σ.seedsOf target)).result = .ok found ∧
      V.expand found = .ok next ∧
      (V.find l₂ ((σ.alloc (.list next)).2.seedsOf (σ.alloc (.list next)).1)).result = .ok out ∧
      (V.find l (σ.seedsOf target)).result = .ok out := by
  have hblank : ∀ c ∈ " ".toList, isBlank c := List.all_eq_true.mp (by decide)
  have hparse : RecordQuery.parse (s₁ ++ " " ++ s₂) = .ok (l₁.parts ++ l₂.parts) :=
    parse_juxtaposed (Locator.parse_parts h₁) (Locator.parse_parts h₂) hend hblank (by decide)
  obtain ⟨found, hfound⟩ := exists_finds hne₁ h
  have hreach : ∀ r ∈ found, V.Reaches (σ.seedsOf target) r := hfound.reaches h
  obtain ⟨next, hnext⟩ := Graph.exists_expand fun r hr => h.children r (hreach r hr)
  have hnextreach : ∀ r, V.Reaches next r → V.Reaches (σ.seedsOf target) r := fun r hr =>
    Graph.reaches_of_expand hreach hnext hr
  obtain ⟨out, hout⟩ := exists_finds hne₂ (h.of_reaches hnextreach)
  have hseeds := Store.seedsOf_alloc_list fun r hr =>
    hplain r (hnextreach r (Graph.reaches_of_mem hr))
  have hboth := hfound.append_parts hnext hout
  refine ⟨_, found, next, out, Locator.parse_eq_ok hparse, hfound.find_eq, hnext, ?_,
    hboth.find_eq (l := ⟨_, l₁.parts ++ l₂.parts, _⟩)⟩
  rw [hseeds]
  exact hout.find_eq

/-! ### Two records that are children of each other -/

/-- Two records, each the child of the other one, the second one twice. -/
def partners : Store where
  objects := #[
    .attributes [("name", .text "a"), ("children", .held 1)],
    .list [.held 2, .held 2],
    .attributes [("name", .text "b"), ("children", .held 3)],
    .list [.held 0]]

theorem partners_reaches : ∀ r, (Adapter.usual.view partners).Reaches [.held 0] r →
    r ∈ [Ref.held 0, .held 2] := by
  have hclosed : Closed (Adapter.usual.view partners).children [.held 0, .held 2] :=
    forall_child_of_readable (by decide)
  rintro r ⟨x, hx, hr⟩
  exact hr.mem_of_closed (List.mem_singleton.mp hx ▸ List.mem_cons_self) hclosed

theorem partners_searchable : (Adapter.usual.view partners).Searchable [.held 0] := by
  refine ⟨⟨_, partners_reaches⟩, fun r hr => ?_, fun r hr kind => ?_⟩
  · have hr := partners_reaches r hr
    simp only [List.mem_cons, List.not_mem_nil, or_false] at hr
    rcases hr with rfl | rfl <;> exact ⟨_, rfl⟩
  · have hr := partners_reaches r hr
    simp only [List.mem_cons, List.not_mem_nil, or_false] at hr
    rcases hr with rfl | rfl <;> cases kind <;> exact ⟨_, rfl⟩

theorem partners_plain : ∀ r, (Adapter.usual.view partners).Reaches [.held 0] r →
    partners.isNode r = false := by
  have hplain : ∀ r ∈ [Ref.held 0, .held 2], partners.isNode r = false := by decide
  exact fun r hr => hplain r (partners_reaches r hr)

/-- The name `a`, and below it the name `b`. -/
def namesBelow : List Part := [{ kind := .name, value := "a" }, { kind := .name, value := "b" }]

/-- The name `a` among what is given. -/
def nameHere : List Part := [{ kind := .name, value := "a", direct := true }]

theorem laysOut_namesBelow : LaysOut false namesBelow "a b".toList := by
  have hnil : ∀ c ∈ ([] : List Char), isBlank c := List.forall_mem_nil _
  have hblank : ∀ c ∈ [' '], isBlank c := List.all_eq_true.mp rfl
  have hbehind : LaysOut true (namesBelow.drop 1) " b".toList :=
    .part [' '] rfl hblank (fun _ => List.cons_ne_nil _ _) (.done [] hnil)
  exact .part [] rfl hnil (fun h => nomatch h) hbehind

theorem laysOut_nameHere : LaysOut false nameHere "> a".toList := by
  have hnil : ∀ c ∈ ([] : List Char), isBlank c := List.forall_mem_nil _
  have hblank : ∀ c ∈ [' '], isBlank c := List.all_eq_true.mp rfl
  exact .child [] [' '] rfl hnil hblank (.done [] hnil)

/-- The partners are searched for a name among the children of what another search finds. -/
theorem find_juxtaposed_partners :
    ∃ l₁ l₂, Locator.parse "a b" = .ok l₁ ∧ Locator.parse "> a" = .ok l₂ ∧ l₁.parts ≠ [] ∧
      l₂.parts ≠ [] ∧ ¬ EndsPending "a b" ∧
      (Adapter.usual.view partners).Searchable (partners.seedsOf (.held 0)) ∧
      (∀ r, (Adapter.usual.view partners).Reaches (partners.seedsOf (.held 0)) r →
        partners.isNode r = false) ∧
      ∃ l found next out, Locator.parse ("a b" ++ " " ++ "> a") = .ok l ∧
        ((Adapter.usual.view partners).find l₁ (partners.seedsOf (.held 0))).result = .ok found ∧
        (Adapter.usual.view partners).expand found = .ok next ∧
        ((Adapter.usual.view partners).find l₂ ((partners.alloc (.list next)).2.seedsOf
          (partners.alloc (.list next)).1)).result = .ok out ∧
        ((Adapter.usual.view partners).find l (partners.seedsOf (.held 0))).result = .ok out ∧
        found = [.held 2, .held 2] ∧ next = [.held 0, .held 0] ∧ out = [.held 0, .held 0] := by
  have hwritable₁ : ∀ p ∈ namesBelow, p.Writable := by decide
  have hwritable₂ : ∀ p ∈ nameHere, p.Writable := by decide
  have h₁ := Locator.parse_eq_ok (parse_of_laysOut hwritable₁ laysOut_namesBelow)
  have h₂ := Locator.parse_eq_ok (parse_of_laysOut hwritable₂ laysOut_nameHere)
  have hne₁ : namesBelow.map Part.asWritten ≠ [] := List.cons_ne_nil _ _
  have hne₂ : nameHere.map Part.asWritten ≠ [] := List.cons_ne_nil _ _
  have hend := not_endsPending_of_laysOut hwritable₁ laysOut_namesBelow
  have hfinds : (Adapter.usual.view partners).Finds (namesBelow.map Part.asWritten) [.held 0]
      [.held 2, .held 2] := View.finds_of_findWithin (n := 6) rfl
  have hhere : (Adapter.usual.view partners).Finds (nameHere.map Part.asWritten)
      [.held 0, .held 0] [.held 0, .held 0] := View.finds_of_findWithin (n := 3) rfl
  obtain ⟨l, found, next, out, hparse, hfound, hnext, hout, hcombined⟩ :=
    View.find_juxtaposed (Adapter.usual.view partners) partners "a b" "> a" _ _ h₁ h₂ hne₁ hne₂ hend
      (.held 0) partners_searchable partners_plain
  obtain rfl : found = [.held 2, .held 2] := Except.ok.inj (hfound.symm.trans hfinds.find_eq)
  obtain rfl : next = [.held 0, .held 0] := Except.ok.inj (hnext.symm.trans rfl)
  obtain rfl : out = [.held 0, .held 0] := Except.ok.inj (hout.symm.trans hhere.find_eq)
  exact ⟨_, _, h₁, h₂, hne₁, hne₂, hend, partners_searchable, partners_plain, l, _, _, _, hparse,
    hfound, hnext, hout, hcombined, rfl, rfl, rfl⟩

end RecordQuery
