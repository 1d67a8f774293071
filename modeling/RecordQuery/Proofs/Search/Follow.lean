import RecordQuery.Proofs.Adapter.Finite
import RecordQuery.Proofs.Search.Chain

/-! # Following parts where no accessor fails

Where finitely many records are reached and all of them can be read, every part finds its records
without a failure, and what is found from some candidates does not depend on the candidates beside
them.

* `View.Searchable`: finitely many records are reached, and all of them can be read.
* `Adapter.view_searchable`: an adapter whose accessors do not fail shows such records.
* `View.scope`: the graph that a part looks at; `View.searchPart` is a visit to it.
* `View.exists_segment_listing`: what one part finds is listed by its segments.
* `View.Finds`: what parts lead to from candidates; `View.findWithin`: the same as it is computed.
* `View.Finds.append`: candidates are searched independently of one another. -/

namespace RecordQuery

namespace View

variable {ρ ε : Type} {V : View ρ ε} {p : Part} {ps : List Part} {seeds candidates : List ρ}

/-- Records can be **searched from**: finitely many are reached, and no accessor fails on any of
these. -/
structure Searchable (V : View ρ ε) (seeds : List ρ) : Prop where
  /-- Finitely many records are reached. -/
  finite : V.FiniteBelow seeds
  /-- The children of each can be read. -/
  children : ∀ r, V.Reaches seeds r → ∃ cs, V.children r = .ok cs
  /-- The labels of each can be read. -/
  label : ∀ r, V.Reaches seeds r → ∀ kind, ∃ text, V.label kind r = .ok text

/-- Records can be searched from if what they reach is reached from others of that sort. -/
theorem Searchable.of_reaches (h : V.Searchable seeds)
    (hreach : ∀ r, V.Reaches candidates r → V.Reaches seeds r) : V.Searchable candidates := by
  obtain ⟨bound, hbound⟩ := h.finite
  exact ⟨⟨bound, fun r hr => hbound r (hreach r hr)⟩, fun r hr => h.children r (hreach r hr),
    fun r hr => h.label r (hreach r hr)⟩

/-- The children of a reached record can be searched from. -/
theorem Searchable.of_children (h : V.Searchable seeds) {r : ρ} {cs : List ρ}
    (hr : V.Reaches seeds r) (hcs : V.children r = .ok cs) : V.Searchable cs :=
  h.of_reaches fun _ hx => hr.of_children hcs hx

theorem Searchable.append {xs ys : List ρ} (hxs : V.Searchable xs) (hys : V.Searchable ys) :
    V.Searchable (xs ++ ys) := by
  refine ⟨hxs.finite.append hys.finite, fun r hr => ?_, fun r hr => ?_⟩
  · rcases Graph.reaches_append_iff.mp hr with hr | hr
    · exact hxs.children r hr
    · exact hys.children r hr
  · rcases Graph.reaches_append_iff.mp hr with hr | hr
    · exact hxs.label r hr
    · exact hys.label r hr

theorem Searchable.exists_satisfies (h : V.Searchable seeds) (p : Part) {r : ρ}
    (hr : V.Reaches seeds r) : ∃ passed, V.satisfies p r = .ok passed := by
  obtain ⟨text, htext⟩ := h.label r hr p.kind
  rw [satisfies, htext]
  exact ⟨_, rfl⟩

end View

/-- **An adapter whose accessors do not fail** shows records that can be searched from, if finitely many
are reached. -/
theorem Adapter.view_searchable {A : Adapter} {σ : Store} {seeds : List Ref}
    (hfinite : (A.view σ).FiniteBelow seeds)
    (hlabel : ∀ kind r, (A.view σ).Reaches seeds r →
      ∃ reading, (A.accessor kind).read σ r = .ok reading)
    (hchildren : ∀ r, (A.view σ).Reaches seeds r → ∃ reading, A.children.read σ r = .ok reading) :
    (A.view σ).Searchable seeds := by
  refine ⟨hfinite, fun r hr => ?_, fun r hr kind => ?_⟩
  · obtain ⟨reading, hreading⟩ := hchildren r hr
    refine ⟨reading.children σ, ?_⟩
    show A.childrenOf σ r = _
    rw [Adapter.childrenOf, Accessor.children, childrenThrough, hreading]
  · obtain ⟨reading, hreading⟩ := hlabel kind r hr
    refine ⟨reading.comparisonText σ, ?_⟩
    show A.labelText σ kind r = _
    rw [Adapter.labelText, hreading]

/-- With the usual adapter all records can be searched from. -/
theorem Adapter.usual_searchable (σ : Store) (seeds : List Ref) :
    (Adapter.usual.view σ).Searchable seeds := by
  refine view_searchable (usual_finiteBelow σ seeds) (fun kind r _ => ?_) fun r _ => ⟨_, rfl⟩
  cases kind <;> exact ⟨_, rfl⟩

namespace View

variable {ρ ε : Type} {V : View ρ ε} {p : Part} {ps : List Part} {seeds candidates : List ρ}

/-! ### One part -/

/-- The graph that a part **looks at**: records have no children for a direct part. -/
def scope (V : View ρ ε) (p : Part) : Graph ρ ε :=
  if p.direct then ⟨fun _ => .ok []⟩ else V.toGraph

theorem scope_of_direct (h : p.direct = true) : V.scope p = ⟨fun _ => .ok []⟩ := if_pos h

theorem scope_of_not_direct (h : p.direct = false) : V.scope p = V.toGraph :=
  if_neg (ne_true_of_eq_false h)

/-- A record that a part's graph leads to is one that the whole graph leads to. -/
theorem reaches_of_scope {r : ρ} (h : (V.scope p).Reaches candidates r) :
    V.Reaches candidates r := by
  cases hp : p.direct with
  | false => rwa [scope_of_not_direct hp] at h
  | true =>
    rw [scope_of_direct hp] at h
    obtain ⟨x, hx, hbelow⟩ := h
    cases hbelow with
    | here => exact Graph.reaches_of_mem hx
    | step _ hcs hc =>
      cases hcs
      exact absurd hc List.not_mem_nil

/-- Keeping the records that pass a test is a visit to records without children. -/
theorem visits_keep (test : ρ → Except ε Bool) (records : List ρ) :
    Graph.Visits ⟨fun _ => .ok []⟩ test [] records ⟨[], keep test records⟩ := by
  induction records with
  | nil => exact .nil
  | cons r rs ih =>
    cases ht : test r with
    | error e =>
      rw [show keep test (r :: rs) = .error e by rw [keep, ht]; rfl]
      exact .testFails List.not_mem_nil ht
    | ok passed =>
      have henter := Graph.Visits.enter List.not_mem_nil ht rfl .nil ih
      rw [Outcome.of_nil_andThen] at henter
      have hkeep : (Outcome.of [] (if passed then [r] else [])).andThen ⟨[], keep test rs⟩ =
          ⟨[], keep test (r :: rs)⟩ := by
        rw [keep, ht]
        cases keep test rs <;> cases passed <;> rfl
      rwa [hkeep] at henter

/-- **The search of one part is a visit** to the graph that the part looks at. -/
theorem visits_searchPart [DecidableEq ρ] [Hashable ρ] (h : V.FiniteBelow candidates) (p : Part) :
    (V.scope p).Visits (V.satisfies p) [] candidates (V.searchPart p candidates) := by
  cases hp : p.direct with
  | false =>
    rw [scope_of_not_direct hp, searchPart, hp]
    exact h.visits_search _
  | true =>
    rw [scope_of_direct hp, searchPart, hp, Graph.search]
    exact visits_keep _ _

/-- A segment is a trail in the graph that its part looks at. -/
theorem segment_iff_fresh {s : List Nat} {r : ρ} :
    V.Segment p candidates s r ↔
      (V.scope p).Fresh [] candidates s r ∧ V.satisfies p r = .ok true := by
  rw [satisfies_eq_ok_true_iff]
  cases hp : p.direct with
  | false =>
    rw [scope_of_not_direct hp, Segment, hp]
    constructor
    · rintro ⟨path, htrail, hnodup, -, hr⟩
      exact ⟨⟨path, htrail, hnodup, fun _ _ => List.not_mem_nil⟩, hr⟩
    · rintro ⟨⟨path, htrail, hnodup, -⟩, hr⟩
      exact ⟨path, htrail, hnodup, fun h => absurd h Bool.false_ne_true, hr⟩
  | true =>
    rw [scope_of_direct hp, Segment, hp]
    constructor
    · -- a direct segment makes no step, so it is a trail in the graph without children too
      rintro ⟨path, htrail, hnodup, hpath, hr⟩
      cases hpath rfl
      cases htrail with
      | stop h => exact ⟨⟨[], .stop h, hnodup, fun _ _ => List.not_mem_nil⟩, hr⟩
      | step _ _ rest => exact absurd rfl rest.path_ne_nil
    · rintro ⟨⟨path, htrail, hnodup, -⟩, hr⟩
      generalize hrecords : path ++ [r] = records at htrail hnodup
      cases htrail with
      | stop h =>
        obtain ⟨rfl, hx⟩ := List.append_inj' (hrecords.trans (List.nil_append _).symm) rfl
        cases hx
        exact ⟨[], .stop h, hnodup, fun _ => rfl, hr⟩
      | step _ hcs rest =>
        cases hcs
        exact absurd rest Graph.not_trail_nil

theorem Segment.reaches {s : List Nat} {r : ρ} (h : V.Segment p candidates s r) :
    V.Reaches candidates r := by
  obtain ⟨path, htrail, -, -, -⟩ := h
  exact htrail.reaches r (List.mem_append_right _ List.mem_cons_self)

variable [DecidableEq ρ] [Hashable ρ]

/-- **What one part finds is listed by its segments.** -/
theorem exists_segment_listing (h : V.Searchable candidates) (p : Part) :
    ∃ table, (V.searchPart p candidates).result = .ok (table.map Prod.snd) ∧
      Lists table (V.Segment p candidates) := by
  have hvisits := visits_searchPart h.finite p
  obtain ⟨found, hfound⟩ := hvisits.exists_ok fun r hr => by
    -- the visit fails nowhere, since whatever it reaches is reached in the whole graph
    refine ⟨h.exists_satisfies p (reaches_of_scope hr), ?_⟩
    cases hp : p.direct with
    | false =>
      rw [scope_of_not_direct hp] at hr ⊢
      exact h.children r hr
    | true =>
      rw [scope_of_direct hp]
      exact ⟨[], rfl⟩
  obtain ⟨table, rfl, htable⟩ := hvisits.exists_listing found hfound
  exact ⟨table, hfound, htable.congr fun s r => segment_iff_fresh.symm⟩

/-- **One part searches candidates independently** of those before them. -/
theorem searchPart_append {xs ys : List ρ} (hxs : V.FiniteBelow xs) (hys : V.FiniteBelow ys)
    (p : Part) :
    V.searchPart p (xs ++ ys) = (V.searchPart p xs).andThen (V.searchPart p ys) := by
  -- both sides are the outcome of one visit, and a visit has but one outcome
  have hvisits := (visits_searchPart hxs p).append (visits_searchPart hys p)
  rw [← hvisits.search_eq, (visits_searchPart (hxs.append hys) p).search_eq]

end View

/-! ### The children of records found -/

namespace Graph

variable {ρ ε : Type} {G : Graph ρ ε} {xs ys next next' : List ρ}

theorem expand_cons {r : ρ} {cs : List ρ} (hcs : G.children r = .ok cs)
    (h : G.expand xs = .ok next) : G.expand (r :: xs) = .ok (cs ++ next) := by
  rw [expand, hcs, h]
  rfl

theorem expand_cons_eq_ok {r : ρ} (h : G.expand (r :: xs) = .ok next) :
    ∃ cs rest, G.children r = .ok cs ∧ G.expand xs = .ok rest ∧ next = cs ++ rest := by
  rw [expand] at h
  cases hcs : G.children r with
  | error e =>
    rw [hcs] at h
    cases h
  | ok cs =>
    cases hrest : G.expand xs with
    | error e =>
      rw [hcs, hrest] at h
      cases h
    | ok rest =>
      rw [hcs, hrest] at h
      cases h
      exact ⟨cs, rest, rfl, rfl, rfl⟩

/-- The children of records are read independently. -/
theorem expand_append (h : G.expand xs = .ok next) (h' : G.expand ys = .ok next') :
    G.expand (xs ++ ys) = .ok (next ++ next') := by
  induction xs generalizing next with
  | nil =>
    cases h
    exact h'
  | cons r xs ih =>
    obtain ⟨cs, rest, hcs, hrest, rfl⟩ := expand_cons_eq_ok h
    rw [List.cons_append, expand_cons hcs (ih hrest), List.append_assoc]

theorem exists_of_mem_expand (h : G.expand xs = .ok next) :
    ∀ c ∈ next, ∃ r ∈ xs, ∃ cs, G.children r = .ok cs ∧ c ∈ cs := by
  induction xs generalizing next with
  | nil =>
    cases h
    exact fun c hc => absurd hc List.not_mem_nil
  | cons r xs ih =>
    obtain ⟨cs, rest, hcs, hrest, rfl⟩ := expand_cons_eq_ok h
    intro c hc
    rcases List.mem_append.mp hc with hc | hc
    · exact ⟨r, List.mem_cons_self, cs, hcs, hc⟩
    · obtain ⟨x, hx, hxc⟩ := ih hrest c hc
      exact ⟨x, List.mem_cons_of_mem _ hx, hxc⟩

/-- What is reached from the children of reached records is reached. -/
theorem reaches_of_expand {candidates : List ρ} (hxs : ∀ r ∈ xs, G.Reaches candidates r)
    (h : G.expand xs = .ok next) {s : ρ} (hs : G.Reaches next s) : G.Reaches candidates s := by
  obtain ⟨c, hc, hs⟩ := hs
  obtain ⟨r, hr, cs, hcs, hcr⟩ := exists_of_mem_expand h c hc
  exact (hxs r hr).of_children hcs ⟨c, hcr, hs⟩

end Graph

/-- A computation behind another has a result just if both have one. -/
theorem Traced.bind_result_eq_ok_iff {ρ ε α β : Type} {x : Traced ρ ε α} {f : α → Traced ρ ε β}
    {b : β} : (x >>= f).result = .ok b ↔ ∃ a, x.result = .ok a ∧ (f a).result = .ok b := by
  show (x.bind f).result = .ok b ↔ _
  rw [Traced.bind]
  cases x.result <;> simp

namespace View

variable {ρ ε : Type} [DecidableEq ρ] [Hashable ρ] {V : View ρ ε} {p : Part} {ps : List Part}
  {seeds candidates found next out : List ρ}

/-! ### Several parts -/

/-- **What parts lead to** from candidates, where nothing fails: what the last part finds among the
children of what the parts before it lead to. -/
inductive Finds (V : View ρ ε) : List Part → List ρ → List ρ → Prop
  /-- What one part finds. -/
  | last {p : Part} {candidates found : List ρ} :
      (V.searchPart p candidates).result = .ok found → Finds V [p] candidates found
  /-- What further parts lead to from the children of what one part finds. -/
  | more {p : Part} {ps : List Part} {candidates found next out : List ρ} :
      (V.searchPart p candidates).result = .ok found → V.expand found = .ok next →
      Finds V ps next out → Finds V (p :: ps) candidates out

theorem Finds.parts_ne_nil (h : V.Finds ps candidates out) : ps ≠ [] := by
  cases h <;> exact List.cons_ne_nil _ _

/-- Following parts gives what they lead to. -/
theorem Finds.follow_eq (h : V.Finds ps candidates out) :
    ∀ source index, (V.follow source index ps candidates).result = .ok out := by
  induction h with
  | last h =>
    intro source index
    simp [follow, bind, Traced.bind, Outcome.traced, h, Traced.tell, pure]
  | more h hnext hrest ih =>
    intro source index
    simp [follow, bind, Traced.bind, Outcome.traced, h, Traced.tell, hrest.parts_ne_nil,
      Traced.lift, hnext, ih]

/-- Parts lead to one list of records. -/
theorem Finds.unique {out' : List ρ} (h : V.Finds ps candidates out)
    (h' : V.Finds ps candidates out') : out = out' := by
  have heq := (h.follow_eq "" 0).symm.trans (h'.follow_eq "" 0)
  rwa [Except.ok.injEq] at heq

/-- Where following parts does not fail, it gives what they lead to. -/
theorem finds_of_follow {source : String} {index : Nat} (hps : ps ≠ [])
    (h : (V.follow source index ps candidates).result = .ok out) : V.Finds ps candidates out := by
  induction ps generalizing index candidates with
  | nil => exact absurd rfl hps
  | cons p ps ih =>
    rw [follow] at h
    obtain ⟨found, hfound, h⟩ := Traced.bind_result_eq_ok_iff.mp h
    obtain ⟨_, -, h⟩ := Traced.bind_result_eq_ok_iff.mp h
    by_cases hrest : ps = []
    · subst hrest
      cases h
      exact .last hfound
    · rw [if_neg (by simpa using hrest)] at h
      obtain ⟨next, hnext, h⟩ := Traced.bind_result_eq_ok_iff.mp h
      exact .more hfound hnext (ih hrest h)

/-- A locator without parts gives its seeds back. -/
theorem find_of_parts_eq_nil {l : Locator} (h : l.parts = []) :
    (V.find l seeds).result = .ok seeds := by
  simp [find, h, bind, Traced.bind, Traced.tell, pure]

/-- A locator with parts finds what they lead to. -/
theorem Finds.find_eq {l : Locator} (h : V.Finds l.parts seeds out) :
    (V.find l seeds).result = .ok out := by
  rw [find, if_neg (by simpa using h.parts_ne_nil)]
  exact h.follow_eq l.source 0

/-- Where a locator with parts does not fail, it finds what they lead to. -/
theorem finds_of_find {l : Locator} (hparts : l.parts ≠ []) (h : (V.find l seeds).result = .ok out) :
    V.Finds l.parts seeds out := by
  rw [find, if_neg (by simpa using hparts)] at h
  exact finds_of_follow hparts h

/-! ### Searches that are computed -/

/-- What one part finds, **computed** within a number of steps; none if these are too few, or if
something fails. -/
def searchPartWithin (V : View ρ ε) (n : Nat) (p : Part) (candidates : List ρ) : Option (List ρ) :=
  ((V.scope p).visitWithin (V.satisfies p) n [] candidates).bind (·.result.toOption)

/-- What parts lead to, **computed** within a number of steps for each; none if these are too few, or
if something fails. -/
def findWithin (V : View ρ ε) (n : Nat) : List Part → List ρ → Option (List ρ)
  | [], _ => none
  | [p], candidates => V.searchPartWithin n p candidates
  | p :: ps, candidates =>
    (V.searchPartWithin n p candidates).bind fun found =>
      (V.expand found).toOption.bind (V.findWithin n ps)

theorem eq_ok_of_toOption {α : Type} {x : Except ε α} {a : α} (h : x.toOption = some a) :
    x = .ok a := by
  cases x <;> cases h
  rfl

/-- What one part finds is the outcome of the visit to the graph that it looks at. -/
theorem searchPart_of_visits {o : Outcome ρ ε}
    (h : (V.scope p).Visits (V.satisfies p) [] candidates o) : V.searchPart p candidates = o := by
  cases hp : p.direct with
  | false =>
    rw [scope_of_not_direct hp] at h
    rw [searchPart, hp]
    exact h.search_eq
  | true =>
    rw [scope_of_direct hp] at h
    have hkeep := (visits_keep (V.satisfies p) candidates).search_eq.symm.trans h.search_eq
    rw [searchPart, hp]
    exact hkeep

theorem searchPart_of_searchPartWithin {n : Nat}
    (h : V.searchPartWithin n p candidates = some found) :
    (V.searchPart p candidates).result = .ok found := by
  obtain ⟨o, ho, hfound⟩ := Option.bind_eq_some_iff.mp h
  rw [searchPart_of_visits (Graph.visits_of_visitWithin ho)]
  exact eq_ok_of_toOption hfound

/-- **What is computed is what parts lead to.** -/
theorem finds_of_findWithin {n : Nat} (h : V.findWithin n ps candidates = some out) :
    V.Finds ps candidates out := by
  induction ps generalizing candidates with
  | nil => cases h
  | cons p ps ih =>
    cases ps with
    | nil => exact .last (searchPart_of_searchPartWithin h)
    | cons q qs =>
      rw [findWithin] at h
      · obtain ⟨found, hfound, h⟩ := Option.bind_eq_some_iff.mp h
        obtain ⟨next, hnext, h⟩ := Option.bind_eq_some_iff.mp h
        exact .more (searchPart_of_searchPartWithin hfound) (eq_ok_of_toOption hnext) (ih h)
      · exact List.cons_ne_nil q qs

/-! ### What is found is reached -/

/-- What one part finds is reached from its candidates. -/
theorem reaches_of_searchPart (h : V.FiniteBelow candidates)
    (hfound : (V.searchPart p candidates).result = .ok found) :
    ∀ r ∈ found, V.Reaches candidates r := by
  obtain ⟨table, rfl, hlists⟩ := (visits_searchPart h p).exists_listing found hfound
  intro r hr
  obtain ⟨s, ⟨path, htrail, -, -⟩, -⟩ := (hlists.mem_map_snd_iff r).mp hr
  exact reaches_of_scope (htrail.reaches r (List.mem_append_right _ List.mem_cons_self))

/-- What parts lead to is reached from their candidates. -/
theorem Finds.reaches_of_finiteBelow (h : V.Finds ps candidates out)
    (hfinite : V.FiniteBelow candidates) : ∀ r ∈ out, V.Reaches candidates r := by
  induction h with
  | last hfound => exact reaches_of_searchPart hfinite hfound
  | more hfound hnext _ ih =>
    have hbelow : ∀ r, V.Reaches _ r → V.Reaches _ r := fun r hr =>
      Graph.reaches_of_expand (reaches_of_searchPart hfinite hfound) hnext hr
    obtain ⟨bound, hbound⟩ := hfinite
    exact fun r hr => hbelow r (ih ⟨bound, fun x hx => hbound x (hbelow x hx)⟩ r hr)

/-- **What a locator finds is reached from its seeds.** -/
theorem reaches_of_find {l : Locator} (hfinite : V.FiniteBelow seeds)
    (h : (V.find l seeds).result = .ok out) : ∀ r ∈ out, V.Reaches seeds r := by
  by_cases hparts : l.parts = []
  · rw [find_of_parts_eq_nil hparts, Except.ok.injEq] at h
    exact fun r hr => Graph.reaches_of_mem (h ▸ hr)
  · exact (finds_of_find hparts h).reaches_of_finiteBelow hfinite

/-- The children of what one part finds can be searched from. -/
theorem Searchable.of_searchPart (h : V.Searchable candidates)
    (hfound : (V.searchPart p candidates).result = .ok found) (hnext : V.expand found = .ok next) :
    V.Searchable next :=
  h.of_reaches fun _ hr => Graph.reaches_of_expand (reaches_of_searchPart h.finite hfound) hnext hr

/-- **Candidates are searched independently**: what parts lead to from two lists of candidates is
what they lead to from one and then from the other. -/
theorem Finds.append {xs ys out' : List ρ} (hxs : V.Searchable xs) (hys : V.Searchable ys)
    (h : V.Finds ps xs out) (h' : V.Finds ps ys out') : V.Finds ps (xs ++ ys) (out ++ out') := by
  induction h generalizing ys out' with
  | @last p xs found h =>
    cases h' with
    | last h' =>
      refine .last ?_
      rw [searchPart_append hxs.finite hys.finite]
      exact Outcome.andThen_result_eq_ok_iff.mpr ⟨found, out', h, h', rfl⟩
    | more _ _ h' => exact absurd rfl h'.parts_ne_nil
  | @more p ps xs found next out h hnext hrest ih =>
    cases h' with
    | last h' => exact absurd rfl hrest.parts_ne_nil
    | @more _ _ _ found' next' _ h' hnext' hrest' =>
      have hfound : (V.searchPart p (xs ++ ys)).result = .ok (found ++ found') := by
        rw [searchPart_append hxs.finite hys.finite]
        exact Outcome.andThen_result_eq_ok_iff.mpr ⟨found, found', h, h', rfl⟩
      exact .more hfound (Graph.expand_append hnext hnext')
        (ih (hxs.of_searchPart h hnext) (hys.of_searchPart h' hnext') hrest')

end View

end RecordQuery
