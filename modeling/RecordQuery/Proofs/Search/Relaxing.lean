import RecordQuery.Proofs.Search.Matches

/-! # Relaxed selectors

A part is relaxed when its condition is dropped or when it looks at all records below and not only
at those it is given. Every match chain of a selector is one of the relaxed selector, under the same
positions, so relaxing loses nothing, keeps the order, and finds each record at least as often. This
holds where records lie below themselves, too: a chain is cut only within a segment, and a direct
segment has one record.

* `Part.Relaxes`: a part and a relaxed form of it.
* `View.Chain.relax`: match chains of a selector are match chains of a relaxed one.
* `View.chain_snoc_iff`: the match chains that a condition of the last part leaves.
* `View.find_relaxed`: what a locator finds is a part of what a relaxed one finds. -/

namespace RecordQuery

/-- A part and a **relaxed** form of it: it compares the same label with the same text, has the same
condition or none, and is direct only if the other is. -/
structure Part.Relaxes (p q : Part) : Prop where
  /-- The label is the same one. -/
  kind : q.kind = p.kind
  /-- The text that the label must have is the same. -/
  value : q.value = p.value
  /-- The condition is the same, or is dropped. -/
  condition : q.condition = p.condition ∨ q.condition = none
  /-- No part becomes direct. -/
  direct : q.direct = true → p.direct = true

/-- A part **without its condition**, written in some way. -/
def Part.unconditional (p : Part) (source : String) : Part := { p with condition := none, source }

namespace View

variable {ρ ε : Type} {V : View ρ ε} {p q : Part} {ps qs : List Part} {seeds candidates : List ρ}
  {s : List Nat} {chain : List (List Nat)} {r : ρ}

/-! ### Match chains of a relaxed selector -/

theorem Fits.relax (h : V.Fits p r) (hpq : p.Relaxes q) : V.Fits q r := by
  obtain ⟨hlabel, hcondition⟩ := h
  refine ⟨by rw [hpq.kind, hpq.value]; exact hlabel, ?_⟩
  intro c hc
  rcases hpq.condition with hsame | hnone
  · exact hcondition c (hsame ▸ hc)
  · rw [hnone] at hc
    cases hc

/-- A segment of a part is one of a relaxed part, which is free to make no step. -/
theorem Segment.relax (h : V.Segment p candidates s r) (hpq : p.Relaxes q) :
    V.Segment q candidates s r := by
  obtain ⟨path, htrail, hnodup, hdirect, hfits⟩ := h
  exact ⟨path, htrail, hnodup, fun hq => hdirect (hpq.direct hq), hfits.relax hpq⟩

/-- **A match chain stays one** when the parts are relaxed. -/
theorem Chain.relax (h : V.Chain ps candidates chain r) (hpq : List.Forall₂ Part.Relaxes ps qs) :
    V.Chain qs candidates chain r := by
  induction h generalizing qs with
  | last hs =>
    obtain ⟨q, _, hq, hnil, rfl⟩ := List.forall₂_cons_left_iff.mp hpq
    rw [List.forall₂_nil_left_iff.mp hnil]
    exact .last (hs.relax hq)
  | more hs hcs _ ih =>
    obtain ⟨q, qs, hq, hqs, rfl⟩ := List.forall₂_cons_left_iff.mp hpq
    exact .more (hs.relax hq) hcs (ih hqs)

/-! ### The condition of the last part -/

theorem fits_iff_meets {c : Condition} (hc : p.condition = some c) (source : String) :
    V.Fits p r ↔ V.Fits (p.unconditional source) r ∧ V.meets c r = true := by
  show (V.label p.kind r = .ok (some p.value) ∧ _) ↔
    (V.label p.kind r = .ok (some p.value) ∧ ∀ c ∈ (none : Option Condition), _) ∧ _
  rw [hc, meets, beq_iff_eq]
  simp

theorem segment_iff_meets {c : Condition} (hc : p.condition = some c) (source : String) :
    V.Segment p candidates s r ↔
      V.Segment (p.unconditional source) candidates s r ∧ V.meets c r = true := by
  constructor
  · rintro ⟨path, htrail, hnodup, hdirect, hfits⟩
    obtain ⟨hfits', hmeets⟩ := (fits_iff_meets hc source).mp hfits
    exact ⟨⟨path, htrail, hnodup, hdirect, hfits'⟩, hmeets⟩
  · rintro ⟨⟨path, htrail, hnodup, hdirect, hfits'⟩, hmeets⟩
    exact ⟨path, htrail, hnodup, hdirect, (fits_iff_meets hc source).mpr ⟨hfits', hmeets⟩⟩

/-- **A condition of the last part** leaves the match chains whose last record meets it. -/
theorem chain_snoc_iff {c : Condition} (hc : p.condition = some c) (source : String) :
    V.Chain (ps ++ [p]) candidates chain r ↔
      V.Chain (ps ++ [p.unconditional source]) candidates chain r ∧ V.meets c r = true := by
  induction ps generalizing candidates chain with
  | nil =>
    rw [List.nil_append, List.nil_append, chain_singleton_iff, chain_singleton_iff]
    simp only [segment_iff_meets hc source]
    grind
  | cons p' ps ih =>
    have hne : ∀ q : Part, ps ++ [q] ≠ [] := fun q =>
      List.append_ne_nil_of_right_ne_nil _ (List.cons_ne_nil _ _)
    rw [List.cons_append, List.cons_append, chain_cons_iff (hne _), chain_cons_iff (hne _)]
    simp only [ih]
    grind

variable [DecidableEq ρ] [Hashable ρ]

/-- **Relaxing a selector loses nothing**: where nothing fails, what a locator finds is a part of what
a relaxed one finds, in its order and with its repetitions. If only the condition of the last part is
dropped, it is the part that meets this condition. -/
theorem find_relaxed (V : View ρ ε) (l l' : Locator) (seeds : List ρ)
    (hrelax : List.Forall₂ Part.Relaxes l.parts l'.parts) (h : V.Searchable seeds) :
    ∃ found found', (V.find l seeds).result = .ok found ∧ (V.find l' seeds).result = .ok found' ∧
      found.Sublist found' ∧
      ∀ ps p c source, l.parts = ps ++ [p] → p.condition = some c →
        l'.parts = ps ++ [p.unconditional source] → found = found'.filter (V.meets c) := by
  by_cases hparts : l.parts = []
  · have hparts' : l'.parts = [] := by
      rw [hparts] at hrelax
      exact List.forall₂_nil_left_iff.mp hrelax
    refine ⟨seeds, seeds, find_of_parts_eq_nil hparts, find_of_parts_eq_nil hparts',
      List.Sublist.refl seeds, ?_⟩
    intro ps p c source hl
    exact absurd (hparts.symm.trans hl).symm
      (List.append_ne_nil_of_right_ne_nil _ (List.cons_ne_nil _ _))
  · have hparts' : l'.parts ≠ [] := by
      intro hnil
      rw [hnil] at hrelax
      exact hparts (List.forall₂_nil_right_iff.mp hrelax)
    obtain ⟨table, hfinds, htable⟩ := exists_chain_listing hparts h
    obtain ⟨table', hfinds', htable'⟩ := exists_chain_listing hparts' h
    have hasymm : ∀ k k' : List (List Nat), k < k' → ¬ k' < k := fun k k' hlt =>
      List.lt_asymm hlt
    refine ⟨_, _, hfinds.find_eq, hfinds'.find_eq, ?_, ?_⟩
    · have hsub : table.Sublist table' :=
        htable.sublist hasymm htable' fun chain r hchain => hchain.relax hrelax
      exact hsub.map Prod.snd
    · intro ps p c source hl hc hl'
      -- both tables list the chains of the relaxed selector that end in a record with the attribute
      have hfilter : table = table'.filter fun x => V.meets c x.2 := by
        refine htable.unique hasymm ((htable'.filter (V.meets c)).congr fun chain r => ?_)
        rw [hl, hl']
        exact (chain_snoc_iff hc source).symm
      rw [hfilter, List.filter_map]
      rfl

end View

/-! ### Records with an attribute in the tangle -/

/-- The tangle, where two of the records have an attribute. -/
def markedTangle : View Nat String where
  toGraph := tangle.toGraph
  label := tangle.label
  property name r := if name = "k" && r != 2 then some "4" else none

/-- The children with the attribute, below any record. -/
def markedChildren : Locator where
  source := "a > a[k=\"4\"]"
  parts := [{ kind := .name, value := "a" },
    { kind := .name, value := "a", direct := true, condition := some ⟨"k", "4", "="⟩ }]
  supported := by simp [Part.Supported, Condition.Supported, Condition.equality]

theorem markedTangle_searchable : markedTangle.Searchable [0] where
  finite := tangle_searchable.finite
  children := tangle_searchable.children
  label := tangle_searchable.label

/-- The children with the attribute are those of all children that have it. -/
theorem find_relaxed_tangle :
    List.Forall₂ Part.Relaxes markedChildren.parts twoSteps.parts ∧ markedTangle.Searchable [0] ∧
      ∃ found found', (markedTangle.find markedChildren [0]).result = .ok found ∧
        (markedTangle.find twoSteps [0]).result = .ok found' ∧
        found = [1, 1, 0, 1, 0, 1, 0] ∧ found' = [1, 2, 2, 2, 1, 0, 1, 0, 1, 0, 2, 2] ∧
        found.Sublist found' ∧ found = found'.filter (markedTangle.meets ⟨"k", "4", "="⟩) := by
  have hrelax : List.Forall₂ Part.Relaxes markedChildren.parts twoSteps.parts := by
    refine .cons ?_ (.cons ?_ .nil)
    · exact ⟨rfl, rfl, .inl rfl, id⟩
    · exact ⟨rfl, rfl, .inr rfl, id⟩
  obtain ⟨found, found', hfound, hfound', hsub, hlast⟩ :=
    View.find_relaxed markedTangle markedChildren twoSteps [0] hrelax markedTangle_searchable
  have hmarked : markedTangle.Finds markedChildren.parts [0] [1, 1, 0, 1, 0, 1, 0] :=
    View.finds_of_findWithin (n := 13) rfl
  have hall : markedTangle.Finds twoSteps.parts [0] [1, 2, 2, 2, 1, 0, 1, 0, 1, 0, 2, 2] :=
    View.finds_of_findWithin (n := 13) rfl
  refine ⟨hrelax, markedTangle_searchable, found, found', hfound, hfound', ?_, ?_, hsub,
    hlast [{ kind := .name, value := "a" }] _ _ "" rfl rfl rfl⟩
  · exact Except.ok.inj (hfound.symm.trans hmarked.find_eq)
  · exact Except.ok.inj (hfound'.symm.trans hall.find_eq)

end RecordQuery
