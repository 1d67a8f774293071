import RecordQuery.Proofs.Search.Composition
import RecordQuery.Proofs.Search.Locality
import RecordQuery.Proofs.Search.Reachable
import RecordQuery.Proofs.Search.Representation

/-! # Searching in what was found

What one selector finds can be searched with another. A longer selector goes on with the children of
the records found, a second search with these records themselves. So the second search may find more,
and it finds everything that the longer selector finds: without cycles in the same order and at least
as often, and in any case each record.

* `View.sublist_searchPart_of_expand`: a part finds below records what it finds below their children.
* `View.Finds.sublist`: fewer candidates lead to fewer records.
* `View.Selects.of_expand`: what is selected from children is selected from their parents.
* `View.find_chained`: one selector, another in what was found, and both in one.
* `View.Agree.exists_mem_find`: views that agree find related records, whatever repeats. -/

namespace RecordQuery

namespace Graph

variable {ρ ε : Type} {G : Graph ρ ε} {xs ys next next' : List ρ}

theorem Reaches.of_singleton {r x : ρ} {rs : List ρ} (h : G.Reaches [r] x) :
    G.Reaches (r :: rs) x :=
  h.of_reached (List.forall_mem_singleton.mpr (reaches_of_mem List.mem_cons_self))

/-- Fewer records have fewer children. -/
theorem expand_sublist (hsub : xs.Sublist ys) (h : G.expand xs = .ok next)
    (h' : G.expand ys = .ok next') : next.Sublist next' := by
  induction hsub generalizing next next' with
  | slnil =>
    rw [h, Except.ok.injEq] at h'
    rw [h']
  | cons r _ ih =>
    obtain ⟨cs, rest, -, hrest, rfl⟩ := expand_cons_eq_ok h'
    exact (ih h hrest).trans (List.sublist_append_right cs rest)
  | cons_cons r _ ih =>
    obtain ⟨cs, rest, hcs, hrest, rfl⟩ := expand_cons_eq_ok h
    obtain ⟨cs', rest', hcs', hrest', rfl⟩ := expand_cons_eq_ok h'
    rw [hcs, Except.ok.injEq] at hcs'
    subst hcs'
    exact (List.Sublist.refl cs).append (ih hrest hrest')

end Graph

namespace View

variable {ρ ε : Type} [DecidableEq ρ] [Hashable ρ] {V : View ρ ε} {p : Part} {ps qs : List Part}
  {candidates xs ys found next out out' inner : List ρ} {r : ρ}

/-! ### What a part finds below records and below their children -/

theorem searchPart_cons {rs : List ρ} (hr : V.FiniteBelow [r]) (hrs : V.FiniteBelow rs) :
    V.searchPart p (r :: rs) = (V.searchPart p [r]).andThen (V.searchPart p rs) := by
  rw [← searchPart_append hr hrs, List.singleton_append]

/-- A part that is not direct finds below one record what it finds below its children: without a
cycle it does not matter to these that the record is open. -/
theorem sublist_searchPart_of_children (hp : p.direct = false) (h : V.Searchable [r])
    (hacyclic : V.Acyclic [r]) {cs : List ρ} (hcs : V.children r = .ok cs)
    (hinner : (V.searchPart p cs).result = .ok inner)
    (hout : (V.searchPart p [r]).result = .ok out) : inner.Sublist out := by
  have hr : V.Reaches [r] r := Graph.reaches_of_mem List.mem_cons_self
  obtain ⟨passed, hpassed⟩ := h.exists_satisfies p hr
  have hbelow : V.Visits (V.satisfies p) [r] cs (V.searchPart p cs) := by
    have hvisits := visits_searchPart (h.of_children hr hcs).finite p
    rw [scope_of_not_direct hp] at hvisits
    refine hvisits.congr (fun _ _ => ⟨rfl, rfl⟩) fun x hx => ?_
    -- a record that is reached from the children is not the one above them
    refine iff_of_false (fun hmem => ?_) List.not_mem_nil
    rw [List.mem_singleton] at hmem
    exact hacyclic r hr ⟨cs, hcs, hmem ▸ hx⟩
  have hwhole := visits_searchPart h.finite p
  rw [scope_of_not_direct hp] at hwhole
  have henter := Graph.Visits.enter List.not_mem_nil hpassed hcs hbelow .nil
  rw [← hwhole.search_eq, henter.search_eq] at hout
  obtain ⟨own, below, -, hbelow', rfl⟩ := Outcome.andThen_result_eq_ok_iff.mp hout
  obtain ⟨here, there, hhere, hthere, rfl⟩ := Outcome.andThen_result_eq_ok_iff.mp hbelow'
  rw [hinner, Except.ok.injEq] at hhere
  subst hhere
  have hfirst : inner.Sublist (inner ++ there) := List.sublist_append_left inner there
  exact hfirst.trans (List.sublist_append_right own _)

/-- **A part that is not direct finds below records what it finds below their children**, without
cycles. -/
theorem sublist_searchPart_of_expand (hp : p.direct = false) (h : V.Searchable xs)
    (hacyclic : V.Acyclic xs) (hnext : V.expand xs = .ok next)
    (hinner : (V.searchPart p next).result = .ok inner)
    (hout : (V.searchPart p xs).result = .ok out) : inner.Sublist out := by
  induction xs generalizing next inner out with
  | nil =>
    cases hnext
    rw [hinner, Except.ok.injEq] at hout
    rw [hout]
  | cons r xs ih =>
    have hhead : ∀ x, V.Reaches [r] x → V.Reaches (r :: xs) x := fun x hx => hx.of_singleton
    have htail : ∀ x, V.Reaches xs x → V.Reaches (r :: xs) x := fun x hx => hx.cons r
    have hr : V.Reaches (r :: xs) r := Graph.reaches_of_mem List.mem_cons_self
    obtain ⟨cs, rest, hcs, hrest, rfl⟩ := Graph.expand_cons_eq_ok hnext
    have hsearch := h.of_reaches htail
    have hfinite : V.FiniteBelow rest := by
      obtain ⟨bound, hbound⟩ := hsearch.finite
      exact ⟨bound, fun x hx => hbound x
        (Graph.reaches_of_expand (fun y hy => Graph.reaches_of_mem hy) hrest hx)⟩
    rw [searchPart_append (h.of_children hr hcs).finite hfinite] at hinner
    rw [searchPart_cons (h.of_reaches hhead).finite hsearch.finite] at hout
    obtain ⟨here, there, hhere, hthere, rfl⟩ := Outcome.andThen_result_eq_ok_iff.mp hinner
    obtain ⟨here', there', hhere', hthere', rfl⟩ := Outcome.andThen_result_eq_ok_iff.mp hout
    have hfirst := sublist_searchPart_of_children hp (h.of_reaches hhead)
      (hacyclic.of_reaches hhead) hcs hhere hhere'
    exact hfirst.append (ih hsearch (hacyclic.of_reaches htail) hrest hthere hthere')

/-! ### Fewer candidates -/

/-- **Fewer candidates lead to fewer records**, in the same order. -/
theorem Finds.sublist (hsub : xs.Sublist ys) (hsearch : V.Searchable ys) (h : V.Finds ps xs out)
    (h' : V.Finds ps ys out') : out.Sublist out' := by
  -- what one more candidate leads to comes before what the later ones lead to
  have hsplit {r : ρ} {zs all : List ρ} (hzs : V.Searchable (r :: zs))
      (hall : V.Finds ps (r :: zs) all) :
      ∃ first rest, V.Finds ps [r] first ∧ V.Finds ps zs rest ∧ all = first ++ rest := by
    have hhead : V.Searchable [r] := hzs.of_reaches fun x hx => hx.of_singleton
    have htail : V.Searchable zs := hzs.of_reaches fun x hx => hx.cons r
    obtain ⟨first, hfirst⟩ := exists_finds hall.parts_ne_nil hhead
    obtain ⟨rest, hrest⟩ := exists_finds hall.parts_ne_nil htail
    exact ⟨first, rest, hfirst, hrest, hall.unique (hfirst.append hhead htail hrest)⟩
  induction hsub generalizing out out' with
  | slnil => rw [h.unique h']
  | cons r _ ih =>
    obtain ⟨first, rest, -, hrest, rfl⟩ := hsplit hsearch h'
    have hlater := ih (hsearch.of_reaches fun x hx => hx.cons r) h hrest
    exact hlater.trans (List.sublist_append_right first rest)
  | @cons_cons zs ys r hsub ih =>
    have hzs : V.Searchable (r :: zs) := hsearch.of_reaches fun x ⟨y, hy, hx⟩ =>
      ⟨y, (hsub.cons_cons r).subset hy, hx⟩
    obtain ⟨first, rest, hfirst, hrest, rfl⟩ := hsplit hzs h
    obtain ⟨first', rest', hfirst', hrest', rfl⟩ := hsplit hsearch h'
    have hlater := ih (hsearch.of_reaches fun x hx => hx.cons r) hrest hrest'
    rw [hfirst.unique hfirst']
    exact (List.Sublist.refl first').append hlater

/-! ### Children and their parents -/

/-- **Parts lead from records to everything that they lead to from their children**, without cycles
and unless the first part is direct. -/
theorem Finds.sublist_of_expand (hfirst : ∀ p ∈ qs.head?, p.direct = false) (h : V.Searchable found)
    (hacyclic : V.Acyclic found) (hnext : V.expand found = .ok next) (hout : V.Finds qs next out)
    (hout' : V.Finds qs found out') : out.Sublist out' := by
  have hbelow : ∀ r, V.Reaches next r → V.Reaches found r := fun r hr =>
    Graph.reaches_of_expand (fun x hx => Graph.reaches_of_mem hx) hnext hr
  cases hout with
  | last hinner =>
    cases hout' with
    | last houter => exact sublist_searchPart_of_expand (hfirst _ rfl) h hacyclic hnext hinner houter
    | more _ _ hnil => exact absurd rfl hnil.parts_ne_nil
  | more hinner hchildren hrest =>
    cases hout' with
    | last _ => exact absurd rfl hrest.parts_ne_nil
    | more houter hchildren' hrest' =>
      have hsub := sublist_searchPart_of_expand (hfirst _ rfl) h hacyclic hnext hinner houter
      exact hrest.sublist (Graph.expand_sublist hsub hchildren hchildren')
        (h.of_searchPart houter hchildren') hrest'

omit [DecidableEq ρ] [Hashable ρ] in
/-- **What is selected from children is selected from their parents**, unless the first part is
direct. Here cycles do not matter. -/
theorem Selects.of_expand (h : V.Selects qs next r) (hfirst : ∀ p ∈ qs.head?, p.direct = false)
    (hnext : V.expand found = .ok next) : V.Selects qs found r := by
  have hwithin {p : Part} {x : ρ} (hp : p.direct = false) (hx : V.Within p next x) :
      V.Within p found x := by
    rw [Within, hp, if_neg Bool.false_ne_true] at hx ⊢
    exact Graph.reaches_of_expand (fun y hy => Graph.reaches_of_mem hy) hnext hx
  cases h with
  | last hx hfits => exact .last (hwithin (hfirst _ rfl) hx) hfits
  | more hx hfits hcs hrest => exact .more (hwithin (hfirst _ rfl) hx) hfits hcs hrest

/-- Where nothing fails, every locator with the same parts finds the same. -/
theorem exists_find {seeds : List ρ} (h : V.Searchable seeds) (ps : List Part) :
    ∃ out, ∀ l : Locator, l.parts = ps → (V.find l seeds).result = .ok out := by
  by_cases hps : ps = []
  · exact ⟨seeds, fun l hl => find_of_parts_eq_nil (hl.trans hps)⟩
  · obtain ⟨out, hout⟩ := exists_finds hps h
    refine ⟨out, fun l hl => ?_⟩
    subst hl
    exact hout.find_eq

/-- **One selector, another in what was found, and both in one**: where nothing fails and the second
one does not start with a direct part, each record that both in one find is found by the second in
what the first found, and without cycles all of them are found there in the same order. -/
theorem find_chained (l₁ l₂ l : Locator) (hparts : l.parts = l₁.parts ++ l₂.parts)
    (hfirst : ∀ p ∈ l₂.parts.head?, p.direct = false) {seeds : List ρ} (h : V.Searchable seeds) :
    ∃ found chained combined, (V.find l₁ seeds).result = .ok found ∧
      (∀ r ∈ found, V.Reaches seeds r) ∧ (V.find l₂ found).result = .ok chained ∧
      (V.find l seeds).result = .ok combined ∧ (V.Acyclic seeds → combined.Sublist chained) ∧
      ∀ r ∈ combined, r ∈ chained := by
  by_cases h₁ : l₁.parts = []
  · -- nothing is left out before the second selector
    rw [h₁, List.nil_append] at hparts
    obtain ⟨out, hout⟩ := exists_find h l₂.parts
    exact ⟨seeds, out, out, find_of_parts_eq_nil h₁, fun r hr => Graph.reaches_of_mem hr,
      hout l₂ rfl, hout l hparts, fun _ => List.Sublist.refl out, fun _ hr => hr⟩
  · obtain ⟨found, hfound⟩ := exists_finds h₁ h
    have hreach := hfound.reaches h
    have hbelow : ∀ r, V.Reaches found r → V.Reaches seeds r := fun r hr => hr.of_reached hreach
    by_cases h₂ : l₂.parts = []
    · rw [h₂, List.append_nil] at hparts
      exact ⟨found, found, found, hfound.find_eq, hreach, find_of_parts_eq_nil h₂,
        (hparts ▸ hfound : V.Finds l.parts seeds found).find_eq, fun _ => List.Sublist.refl found,
        fun _ hr => hr⟩
    · have hsearch := h.of_reaches hbelow
      obtain ⟨chained, hchained⟩ := exists_finds h₂ hsearch
      obtain ⟨next, hnext⟩ := Graph.exists_expand fun r hr => h.children r (hreach r hr)
      have hsearchnext : V.Searchable next := hsearch.of_reaches fun r hr =>
        Graph.reaches_of_expand (fun x hx => Graph.reaches_of_mem hx) hnext hr
      obtain ⟨combined, hcombined⟩ := exists_finds h₂ hsearchnext
      have hboth : V.Finds l.parts seeds combined := hparts ▸ hfound.append_parts hnext hcombined
      refine ⟨found, chained, combined, hfound.find_eq, hreach, hchained.find_eq, hboth.find_eq,
        fun hacyclic => ?_, fun r hr => ?_⟩
      · exact Finds.sublist_of_expand hfirst hsearch (hacyclic.of_reaches hbelow) hnext hcombined
          hchained
      · have hselects := (hcombined.mem_iff_selects hsearchnext r).mp hr
        exact (hchained.mem_iff_selects hsearch r).mpr (hselects.of_expand hfirst hnext)

/-! ### Related records where records repeat differently -/

section

variable {ρ' ε' : Type} {W : View ρ' ε'} {R : ρ → ρ' → Prop} {parts : List Part}
  {seeds : List ρ} {seeds' : List ρ'}

omit [DecidableEq ρ] [Hashable ρ] in
theorem Agree.within (h : V.Agree W parts R) (hseeds : List.Forall₂ R seeds seeds')
    (hr : V.Within p seeds r) : ∃ r', W.Within p seeds' r' ∧ R r r' := by
  rw [Within] at hr
  by_cases hp : p.direct = true
  · rw [if_pos hp] at hr
    obtain ⟨r', hr', hrelated⟩ := exists_related_of_mem hseeds hr
    exact ⟨r', by rwa [Within, if_pos hp], hrelated⟩
  · rw [if_neg hp] at hr
    obtain ⟨r', hr', hrelated⟩ := h.reaches hseeds hr
    exact ⟨r', by rwa [Within, if_neg hp], hrelated⟩

omit [DecidableEq ρ] [Hashable ρ] in
/-- Parts select related records. -/
theorem Agree.selects (h : V.Agree W parts R) (hqs : ∀ p ∈ qs, p ∈ parts)
    (hseeds : List.Forall₂ R seeds seeds') (hr : V.Selects qs seeds r) :
    ∃ r', W.Selects qs seeds' r' ∧ R r r' := by
  induction hr generalizing seeds' with
  | last hwithin hfits =>
    obtain ⟨r', hr', hrelated⟩ := h.within hseeds hwithin
    exact ⟨r', .last hr' (h.fits (hqs _ List.mem_cons_self) hrelated hfits), hrelated⟩
  | more hwithin hfits hcs _ ih =>
    obtain ⟨hp, hqs⟩ := List.forall_mem_cons.mp hqs
    obtain ⟨m', hm', hrelated⟩ := h.within hseeds hwithin
    obtain ⟨cs, cs', hcs₁, hcs', hchildren⟩ := h.children _ m' hrelated
    rw [hcs, Except.ok.injEq] at hcs₁
    subst hcs₁
    obtain ⟨r', hr', hrelated'⟩ := ih hqs hchildren
    exact ⟨r', .more hm' (h.fits hp hrelated hfits) hcs' hr', hrelated'⟩

/-- **Views that agree find related records**, each at least once. How often may differ where trails
repeat records in one view and not in the other. -/
theorem Agree.exists_mem_find [DecidableEq ρ'] [Hashable ρ'] (l : Locator)
    (h : V.Agree W l.parts R) (hseeds : List.Forall₂ R seeds seeds') (hfinite : V.FiniteBelow seeds)
    (hfinite' : W.FiniteBelow seeds') :
    ∃ found found', (V.find l seeds).result = .ok found ∧ (W.find l seeds').result = .ok found' ∧
      ∀ r ∈ found, ∃ r' ∈ found', R r r' := by
  by_cases hparts : l.parts = []
  · exact ⟨seeds, seeds', find_of_parts_eq_nil hparts, find_of_parts_eq_nil hparts,
      fun r hr => exists_related_of_mem hseeds hr⟩
  · have hsearch : V.Searchable seeds := h.searchable hseeds hfinite
    have hsearch' : W.Searchable seeds' := h.symm.searchable hseeds.flip hfinite'
    obtain ⟨found, hfound⟩ := exists_finds hparts hsearch
    obtain ⟨found', hfound'⟩ := exists_finds hparts hsearch'
    refine ⟨found, found', hfound.find_eq, hfound'.find_eq, fun r hr => ?_⟩
    have hselects := (hfound.mem_iff_selects hsearch r).mp hr
    obtain ⟨r', hr', hrelated⟩ := h.selects (fun _ hp => hp) hseeds hselects
    exact ⟨r', (hfound'.mem_iff_selects hsearch' r').mpr hr', hrelated⟩

end

end View

end RecordQuery
