import RecordQuery.Proofs.Search.Follow

/-! # A search depends only on what it reaches

Two views that agree on every record that is reached from the seeds give the same result of every
search: the same records, the same failure, and the same events on the way. What they show of other
records does not matter.

* `View.SameBelow`: two views agree on what is reached.
* `Graph.Visits.congr`: a visit depends only on what it reaches.
* `View.SameBelow.find_eq`: a locator finds the same in both. -/

namespace RecordQuery

namespace Graph

variable {ρ ε : Type} {G H : Graph ρ ε} {test test' : ρ → Except ε Bool} {opened rs : List ρ}
  {o : Outcome ρ ε} {r : ρ}

/-- Records are reached alike where the children of reached records are the same. -/
theorem Reaches.congr (hsame : ∀ x, G.Reaches rs x → H.children x = G.children x)
    (h : H.Reaches rs r) : G.Reaches rs r := by
  obtain ⟨x, hx, hbelow⟩ := h
  induction hbelow with
  | here => exact reaches_of_mem hx
  | step _ hcs hc ih =>
    rw [hsame _ ih] at hcs
    exact ih.of_children hcs (reaches_of_mem hc)

/-- **A visit depends only on what it reaches**: the children and the test of each record there, and
whether the record is open. -/
theorem Visits.congr {opened' : List ρ} (h : G.Visits test opened rs o)
    (hsame : ∀ x, G.Reaches rs x → H.children x = G.children x ∧ test' x = test x)
    (hopened : ∀ x, G.Reaches rs x → (x ∈ opened' ↔ x ∈ opened)) : H.Visits test' opened' rs o := by
  induction h generalizing opened' with
  | nil => exact .nil
  | @again opened rs r o hopen _ ih =>
    have hr : G.Reaches (r :: rs) r := reaches_of_mem List.mem_cons_self
    exact .again ((hopened r hr).mpr hopen)
      (ih (fun x hx => hsame x (hx.cons r)) fun x hx => hopened x (hx.cons r))
  | @testFails opened rs r e hopen ht =>
    have hr : G.Reaches (r :: rs) r := reaches_of_mem List.mem_cons_self
    obtain ⟨-, htest⟩ := hsame r hr
    exact .testFails (mt (hopened r hr).mp hopen) (htest.trans ht)
  | @childrenFail opened rs r passed e hopen ht hcs =>
    have hr : G.Reaches (r :: rs) r := reaches_of_mem List.mem_cons_self
    obtain ⟨hchildren, htest⟩ := hsame r hr
    exact .childrenFail (mt (hopened r hr).mp hopen) (htest.trans ht) (hchildren.trans hcs)
  | @enter opened rs cs r passed o o' hopen ht hcs _ _ ihcs ihrs =>
    have hr : G.Reaches (r :: rs) r := reaches_of_mem List.mem_cons_self
    obtain ⟨hchildren, htest⟩ := hsame r hr
    have hbelow : ∀ x, G.Reaches cs x → G.Reaches (r :: rs) x := fun x hx => hr.of_children hcs hx
    have hopen' : ∀ x, G.Reaches cs x → (x ∈ r :: opened' ↔ x ∈ r :: opened) := by
      intro x hx
      rw [List.mem_cons, List.mem_cons, hopened x (hbelow x hx)]
    exact .enter (mt (hopened r hr).mp hopen) (htest.trans ht) (hchildren.trans hcs)
      (ihcs (fun x hx => hsame x (hbelow x hx)) hopen')
      (ihrs (fun x hx => hsame x (hx.cons r)) fun x hx => hopened x (hx.cons r))

theorem expand_congr {xs : List ρ} (hsame : ∀ x ∈ xs, H.children x = G.children x) :
    H.expand xs = G.expand xs := by
  induction xs with
  | nil => rfl
  | cons r xs ih =>
    obtain ⟨hr, hxs⟩ := List.forall_mem_cons.mp hsame
    rw [expand, expand, hr, ih hxs]

end Graph

/-- What comes after a computation matters only for the results that it has. -/
theorem Traced.bind_congr {ρ ε α β : Type} {x : Traced ρ ε α} {f g : α → Traced ρ ε β}
    (h : ∀ a, x.result = .ok a → f a = g a) : x >>= f = x >>= g := by
  show x.bind f = x.bind g
  rw [Traced.bind, Traced.bind]
  cases hx : x.result with
  | error e => rfl
  | ok a =>
    show (⟨_, _⟩ : Traced ρ ε β) = ⟨_, _⟩
    rw [h a hx]

namespace View

variable {ρ ε : Type} {V W : View ρ ε} {seeds candidates : List ρ}

/-- Two views **agree on what is reached** from given records. -/
structure SameBelow (V W : View ρ ε) (seeds : List ρ) : Prop where
  /-- The children are the same, or the failure to read them. -/
  children : ∀ r, V.Reaches seeds r → W.children r = V.children r
  /-- The labels are the same, or the failure to read them. -/
  label : ∀ r, V.Reaches seeds r → ∀ kind, W.label kind r = V.label kind r
  /-- The attributes are the same. -/
  property : ∀ r, V.Reaches seeds r → ∀ name, W.property name r = V.property name r

theorem SameBelow.of_reaches (h : V.SameBelow W seeds)
    (hreach : ∀ r, V.Reaches candidates r → V.Reaches seeds r) : V.SameBelow W candidates :=
  ⟨fun r hr => h.children r (hreach r hr), fun r hr => h.label r (hreach r hr),
    fun r hr => h.property r (hreach r hr)⟩

theorem SameBelow.satisfies_eq (h : V.SameBelow W seeds) (p : Part) {r : ρ}
    (hr : V.Reaches seeds r) : W.satisfies p r = V.satisfies p r := by
  have hmeets : (W.meets · r) = (V.meets · r) := by
    funext c
    rw [meets, meets, h.property r hr]
  rw [satisfies, satisfies, h.label r hr, hmeets]

theorem SameBelow.finiteBelow (h : V.SameBelow W seeds) (hfinite : V.FiniteBelow seeds) :
    W.FiniteBelow seeds := by
  obtain ⟨bound, hbound⟩ := hfinite
  exact ⟨bound, fun r hr => hbound r (hr.congr h.children)⟩

variable [DecidableEq ρ] [Hashable ρ]

/-- One part finds the same in both views. -/
theorem SameBelow.searchPart_eq (h : V.SameBelow W candidates)
    (hfinite : V.FiniteBelow candidates) (p : Part) :
    W.searchPart p candidates = V.searchPart p candidates := by
  have hvisits : (W.scope p).Visits (W.satisfies p) [] candidates (V.searchPart p candidates) := by
    refine (visits_searchPart hfinite p).congr (fun r hr => ?_) fun r _ => Iff.rfl
    refine ⟨?_, h.satisfies_eq p (reaches_of_scope hr)⟩
    -- a part looks at the children in the view, or at none at all
    by_cases hp : p.direct = true
    · rw [scope_of_direct hp, scope_of_direct hp]
    · rw [scope_of_not_direct (eq_false_of_ne_true hp), scope_of_not_direct (eq_false_of_ne_true hp)]
      exact h.children r (reaches_of_scope hr)
  rw [← (visits_searchPart (h.finiteBelow hfinite) p).search_eq, hvisits.search_eq]

/-- Parts lead to the same in both views. -/
theorem SameBelow.follow_eq (ps : List Part) (source : String) (index : Nat)
    (h : V.SameBelow W candidates) (hfinite : V.FiniteBelow candidates) :
    W.follow source index ps candidates = V.follow source index ps candidates := by
  induction ps generalizing index candidates with
  | nil => rfl
  | cons p ps ih =>
    rw [follow, follow, h.searchPart_eq hfinite p]
    apply Traced.bind_congr
    intro found hfound
    have hreach := reaches_of_searchPart hfinite hfound
    apply Traced.bind_congr
    intro _ _
    by_cases hps : ps.isEmpty
    · rw [if_pos hps, if_pos hps]
    · rw [if_neg hps, if_neg hps, Graph.expand_congr fun r hr => h.children r (hreach r hr)]
      apply Traced.bind_congr
      intro next hnext
      have hbelow : ∀ r, V.Reaches next r → V.Reaches candidates r := fun r hr =>
        Graph.reaches_of_expand hreach hnext hr
      obtain ⟨bound, hbound⟩ := hfinite
      exact ih (index + 1) (h.of_reaches hbelow) ⟨bound, fun r hr => hbound r (hbelow r hr)⟩

/-- **A locator finds the same in two views** that agree on what is reached, with the same events on
the way. -/
theorem SameBelow.find_eq (h : V.SameBelow W seeds) (hfinite : V.FiniteBelow seeds) (l : Locator) :
    W.find l seeds = V.find l seeds := by
  rw [find, find]
  by_cases hparts : l.parts.isEmpty
  · rw [if_pos hparts, if_pos hparts]
  · rw [if_neg hparts, if_neg hparts]
    exact h.follow_eq l.parts l.source 0 hfinite

end View

end RecordQuery
