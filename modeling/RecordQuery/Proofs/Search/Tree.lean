import RecordQuery.Proofs.Search.Reachable

/-! # On a tree nothing is found twice

Results are not made unique anywhere. Where each record is reached in one way only, a record that is
found twice would be found by two match chains with the same positions in all. With at most one part
that is not direct, the lengths of the segments are known but for one of them, so the positions say
where each segment ends, and the two chains are the same.

* `Graph.TreeBelow`: each record is reached along one trail only.
* `View.Chain.exists_trail`: the segments of a match chain, one behind the other, are a trail.
* `View.Chain.unique`: on a tree one match chain leads to a record, with at most one indirect part.
* `View.find_nodup`: on a tree a locator with at most one indirect part finds no record twice. -/

namespace RecordQuery

namespace Graph

variable {ρ ε : Type} {G : Graph ρ ε} {candidates : List ρ} {s : List Nat} {path : List ρ}

/-- Below the given records there is a **tree**, or several: each record that is reached is reached
along one trail only, from one of the given records and along one sequence of child positions. -/
def TreeBelow (G : Graph ρ ε) (rs : List ρ) : Prop :=
  ∀ s s' path path' r, G.Trail rs s (path ++ [r]) → G.Trail rs s' (path' ++ [r]) → s = s'

/-- A trail has one position for each of its records. -/
theorem Trail.length_eq (h : G.Trail candidates s path) : s.length = path.length := by
  induction h with
  | stop _ => rfl
  | step _ _ _ ih => rw [List.length_cons, List.length_cons, ih]

/-- **Records that know their positions** form a tree: the children of each have its positions and
their own place behind. -/
theorem treeBelow_of_positions (positions : ρ → List Nat) {rs : List ρ}
    (hrs : ∀ i r, rs[i]? = some r → positions r = [i])
    (hchildren : ∀ r cs, G.children r = .ok cs →
      ∀ i c, cs[i]? = some c → positions c = positions r ++ [i]) : G.TreeBelow rs := by
  have hpositions : ∀ {candidates s records}, G.Trail candidates s records → ∀ before : List Nat,
      (∀ i r, candidates[i]? = some r → positions r = before ++ [i]) →
      ∀ path r, records = path ++ [r] → positions r = before ++ s := by
    intro candidates s records h
    induction h with
    | stop hr =>
      intro before hbefore path r hrecords
      obtain ⟨-, hx⟩ := List.append_inj' ((List.nil_append _).trans hrecords) rfl
      cases hx
      exact hbefore _ _ hr
    | @step candidates cs i x s records hx hcs rest ih =>
      intro before hbefore path r hrecords
      cases path with
      | nil =>
        cases hrecords
        exact absurd rfl rest.path_ne_nil
      | cons y path =>
        rw [List.cons_append, List.cons.injEq] at hrecords
        have hlast := ih (before ++ [i]) (fun j c hc => ?_) path r hrecords.2
        · rw [hlast, List.append_assoc, List.singleton_append]
        · rw [hchildren x cs hcs j c hc, hbefore i x hx]
  intro s s' path path' r h h'
  have hs := hpositions h [] hrs path r rfl
  exact hs.symm.trans (hpositions h' [] hrs path' r rfl)

/-- The given records of a tree are all different. -/
theorem TreeBelow.nodup {rs : List ρ} (h : G.TreeBelow rs) : rs.Nodup := by
  rw [List.nodup_iff_getElem?_ne_getElem?]
  intro i j hij hj heq
  have hr : rs[j]? = some rs[j] := List.getElem?_eq_getElem hj
  have hsame := h [i] [j] [] [] rs[j] (.stop (heq.trans hr)) (.stop hr)
  exact Nat.ne_of_lt hij (List.cons.inj hsame).1

end Graph

namespace View

variable {ρ ε : Type} {V : View ρ ε} {p : Part} {ps : List Part} {seeds candidates : List ρ}
  {s : List Nat} {chain chain' : List (List Nat)} {r : ρ}

/-! ### The positions of a match chain -/

/-- **The segments of a match chain**, one behind the other, are a trail to the record where the chain
ends. -/
theorem Chain.exists_trail (h : V.Chain ps candidates chain r) :
    ∃ path, V.Trail candidates chain.flatten (path ++ [r]) := by
  induction h with
  | last hs =>
    obtain ⟨path, htrail, -⟩ := hs
    exact ⟨path, by rwa [List.flatten_singleton]⟩
  | @more _ _ _ _ _ _ m _ hs hcs _ ih =>
    obtain ⟨path, htrail, -⟩ := hs
    obtain ⟨path', htrail'⟩ := ih
    refine ⟨path ++ [m] ++ path', ?_⟩
    rw [List.flatten_cons, List.append_assoc _ path']
    exact htrail.append hcs htrail'

/-- A segment of a direct part has one position. -/
theorem Segment.length_eq_one (h : V.Segment p candidates s r) (hp : p.direct = true) :
    s.length = 1 := by
  obtain ⟨path, htrail, -, hpath, -⟩ := h
  rw [htrail.length_eq, hpath hp]
  rfl

/-- A match chain has one position for each part that is direct. -/
theorem Chain.single_positions (h : V.Chain ps candidates chain r) :
    List.Forall₂ (fun p s => p.direct = true → s.length = 1) ps chain := by
  induction h with
  | last hs => exact .cons hs.length_eq_one .nil
  | more hs _ _ ih => exact .cons hs.length_eq_one ih

end View

/-- Segments of which **all have one position** have as many positions in all as there are parts. -/
theorem length_flatten_of_direct {ps : List Part} {chain : List (List Nat)}
    (h : List.Forall₂ (fun p s => p.direct = true → s.length = 1) ps chain)
    (hdirect : ∀ p ∈ ps, p.direct = true) : chain.flatten.length = ps.length := by
  induction h with
  | nil => rfl
  | cons hs _ ih =>
    obtain ⟨hp, hps⟩ := List.forall_mem_cons.mp hdirect
    rw [List.flatten_cons, List.length_append, hs hp, ih hps, List.length_cons, Nat.add_comm]

/-- **Positions in all say where each segment ends**, if the segments have one position each but for
one of them at most. -/
theorem eq_of_flatten_eq {ps : List Part} {chain chain' : List (List Nat)}
    (h : List.Forall₂ (fun p s => p.direct = true → s.length = 1) ps chain)
    (h' : List.Forall₂ (fun p s => p.direct = true → s.length = 1) ps chain')
    (hcount : ps.countP (fun p => !p.direct) ≤ 1) (heq : chain.flatten = chain'.flatten) :
    chain = chain' := by
  induction h generalizing chain' with
  | nil =>
    cases h'
    rfl
  | @cons p s ps chain hs hrest ih =>
    cases h' with
    | @cons _ s' _ chain' hs' hrest' =>
      rw [List.flatten_cons, List.flatten_cons] at heq
      cases hp : p.direct with
      | true =>
        rw [List.countP_cons_of_neg (by rw [hp]; decide)] at hcount
        obtain ⟨rfl, hflatten⟩ := List.append_inj heq ((hs hp).trans (hs' hp).symm)
        rw [ih hrest' hcount hflatten]
      | false =>
        -- all further parts are direct, so the number of their positions is known
        rw [List.countP_cons_of_pos (by rw [hp]; decide)] at hcount
        have hnone : ps.countP (fun p => !p.direct) = 0 := by omega
        have hdirect : ∀ q ∈ ps, q.direct = true := by
          intro q hq
          simpa using List.countP_eq_zero.mp hnone q hq
        have hlength := (length_flatten_of_direct hrest hdirect).trans
          (length_flatten_of_direct hrest' hdirect).symm
        obtain ⟨rfl, hflatten⟩ := List.append_inj' heq hlength
        rw [ih hrest' (by omega) hflatten]

namespace View

variable {ρ ε : Type} {V : View ρ ε} {ps : List Part} {seeds : List ρ} {chain chain' : List (List Nat)}
  {r : ρ}

/-- **On a tree one match chain leads to a record**, if at most one part is not direct. -/
theorem Chain.unique (h : V.Chain ps seeds chain r) (h' : V.Chain ps seeds chain' r)
    (htree : V.TreeBelow seeds) (hcount : ps.countP (fun p => !p.direct) ≤ 1) : chain = chain' := by
  obtain ⟨path, htrail⟩ := h.exists_trail
  obtain ⟨path', htrail'⟩ := h'.exists_trail
  exact eq_of_flatten_eq h.single_positions h'.single_positions hcount
    (htree _ _ path path' r htrail htrail')

/-- **On a tree no record is found twice**, if nothing fails and at most one part of the locator is not
direct, wherever it stands. -/
theorem find_nodup [DecidableEq ρ] [Hashable ρ] (V : View ρ ε) (l : Locator) (seeds : List ρ)
    (h : V.Searchable seeds) (htree : V.TreeBelow seeds)
    (hcount : l.parts.countP (fun p => !p.direct) ≤ 1) :
    ∃ found, (V.find l seeds).result = .ok found ∧ found.Nodup := by
  by_cases hparts : l.parts = []
  · exact ⟨seeds, find_of_parts_eq_nil hparts, htree.nodup⟩
  · obtain ⟨table, hfinds, htable⟩ := exists_chain_listing hparts h
    refine ⟨table.map Prod.snd, hfinds.find_eq, ?_⟩
    exact htable.nodup (fun _ => List.lt_irrefl _) fun _ _ _ hchain hchain' =>
      hchain.unique hchain' htree hcount

end View

/-! ### A tree -/

/-- A record with two children, the first of which has one child and the second two, all of one
name. -/
def family : View Nat String where
  children
    | 0 => .ok [1, 2]
    | 1 => .ok [3]
    | 2 => .ok [4, 5]
    | _ => .ok []
  label
    | .name, _ => .ok (some "a")
    | _, _ => .ok none
  property _ _ := none

/-- All records below the children of those that are given, and the children of these. -/
def innerStep : Locator where
  source := "> a a > a"
  parts := [{ kind := .name, value := "a", direct := true }, { kind := .name, value := "a" },
    { kind := .name, value := "a", direct := true }]
  supported := by simp [Part.Supported]

theorem family_searchable : family.Searchable [0] := by
  have hclosed : Closed family.children [0, 1, 2, 3, 4, 5] := forall_child_of_readable (by decide)
  refine ⟨Graph.finiteBelow_of_closed (by simp) hclosed, fun r _ => ?_, fun r _ kind => ?_⟩
  · rcases r with _ | _ | _ | _ <;> exact ⟨_, rfl⟩
  · cases kind <;> exact ⟨_, rfl⟩

/-- Where the records of the family stand. -/
def familyPositions : Nat → List Nat
  | 0 => [0]
  | 1 => [0, 0]
  | 2 => [0, 1]
  | 3 => [0, 0, 0]
  | 4 => [0, 1, 0]
  | _ => [0, 1, 1]

theorem family_treeBelow : family.TreeBelow [0] := by
  refine Graph.treeBelow_of_positions familyPositions (fun i r hr => ?_) fun r cs hcs i c hc => ?_
  · rcases i with _ | i <;> cases hr
    rfl
  · rcases r with _ | _ | _ | r <;> cases hcs <;> rcases i with _ | _ | i <;> cases hc <;> rfl

/-- In the family the three grandchildren are found, none of them twice, with an indirect part between
two direct ones. -/
theorem find_nodup_family :
    family.Searchable [0] ∧ family.TreeBelow [0] ∧
      innerStep.parts.countP (fun p => !p.direct) ≤ 1 ∧
      ∃ found, (family.find innerStep [0]).result = .ok found ∧ found = [3, 4, 5] ∧
        found.Nodup := by
  have hcount : innerStep.parts.countP (fun p => !p.direct) ≤ 1 := by decide
  have hfinds : family.Finds innerStep.parts [0] [3, 4, 5] := View.finds_of_findWithin (n := 6) rfl
  obtain ⟨found, hfound, hnodup⟩ :=
    View.find_nodup family innerStep [0] family_searchable family_treeBelow hcount
  exact ⟨family_searchable, family_treeBelow, hcount, found, hfound,
    Except.ok.inj (hfound.symm.trans hfinds.find_eq), hnodup⟩

end RecordQuery
