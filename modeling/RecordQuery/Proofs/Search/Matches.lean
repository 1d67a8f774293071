import RecordQuery.Proofs.Search.Follow

/-! # A locator finds its match chains

Where nothing fails, a locator gives one record for each match chain, the record at its end, in the
order of the chains. So a record is found as often as chains end in it.

* `View.exists_chain_listing`: what parts lead to is listed by their match chains.
* `View.find_lists_chains`: what a locator finds is listed by its match chains. -/

namespace RecordQuery

namespace View

variable {ρ ε : Type} {V : View ρ ε} {p : Part} {ps : List Part} {seeds candidates : List ρ}
  {chain : List (List Nat)} {r : ρ}

/-! ### Chains by their first segment -/

theorem chain_singleton_iff :
    V.Chain [p] candidates chain r ↔ ∃ s, chain = [s] ∧ V.Segment p candidates s r := by
  constructor
  · intro h
    cases h with
    | last h => exact ⟨_, rfl, h⟩
    | more _ _ h => cases h
  · rintro ⟨s, rfl, h⟩
    exact .last h

theorem chain_cons_iff (hps : ps ≠ []) :
    V.Chain (p :: ps) candidates chain r ↔ ∃ s m cs segments, chain = s :: segments ∧
      V.Segment p candidates s m ∧ V.children m = .ok cs ∧ V.Chain ps cs segments r := by
  constructor
  · intro h
    cases h with
    | last h => exact absurd rfl hps
    | more h hcs hrest => exact ⟨_, _, _, _, rfl, h, hcs, hrest⟩
  · rintro ⟨s, m, cs, segments, rfl, h, hcs, hrest⟩
    exact .more h hcs hrest

theorem not_chain_nil : ¬ V.Chain ps [] chain r := by
  rintro (⟨_, htrail, -⟩ | ⟨⟨_, htrail, -⟩, -, -⟩) <;> exact Graph.not_trail_nil htrail

/-! ### Chains in order -/

theorem singleton_lt_singleton (s s' : List Nat) (h : s < s') : [s] < [s'] :=
  List.cons_lt_cons_iff.mpr (Or.inl h)

theorem segment_cons_lt_cons (s : List Nat) (c c' : List (List Nat)) (h : c < c') :
    s :: c < s :: c' :=
  List.cons_lt_cons_iff.mpr (Or.inr ⟨rfl, h⟩)

variable [DecidableEq ρ] [Hashable ρ]

/-- The chains from the children of records in a table, each behind the key of its record, are
listed by what parts lead to from all of these children. The induction is on the table: the chains
behind one key come before those behind the next. -/
theorem exists_next_listing (hseeds : V.Searchable seeds)
    (hps : ∀ cs, V.Searchable cs → ∃ table, V.Finds ps cs (table.map Prod.snd) ∧
      Lists table (V.Chain ps cs))
    {t : List (List Nat × ρ)} (hreach : ∀ e ∈ t, V.Reaches seeds e.2)
    (hascending : t.Pairwise fun x y => x.1 < y.1) :
    ∃ next table, V.expand (t.map Prod.snd) = .ok next ∧ V.Searchable next ∧
      V.Finds ps next (table.map Prod.snd) ∧
      Lists table fun chain r => ∃ s m cs segments, chain = s :: segments ∧ (s, m) ∈ t ∧
        V.children m = .ok cs ∧ V.Chain ps cs segments r := by
  induction t with
  | nil =>
    have hnil : V.Searchable ([] : List ρ) :=
      hseeds.of_reaches fun _ ⟨_, hx, _⟩ => absurd hx List.not_mem_nil
    obtain ⟨table, hfinds, htable⟩ := hps [] hnil
    refine ⟨[], table, rfl, hnil, hfinds, htable.congr fun chain r => ?_⟩
    refine iff_of_false not_chain_nil ?_
    rintro ⟨_, _, _, _, -, hmem, -⟩
    exact absurd hmem List.not_mem_nil
  | cons e t ih =>
    obtain ⟨s, m⟩ := e
    obtain ⟨hlt, hascending⟩ := List.pairwise_cons.mp hascending
    obtain ⟨next, later, hnext, hsearch, hlater, hlists⟩ :=
      ih (fun e he => hreach e (List.mem_cons_of_mem _ he)) hascending
    have hm : V.Reaches seeds m := hreach (s, m) List.mem_cons_self
    obtain ⟨cs, hcs⟩ := hseeds.children m hm
    have hsearchcs : V.Searchable cs := hseeds.of_children hm hcs
    obtain ⟨first, hfirst, hfirstlists⟩ := hps cs hsearchcs
    refine ⟨cs ++ next, first.map (fun x => (s :: x.1, x.2)) ++ later, ?_, ?_, ?_, ?_⟩
    · exact Graph.expand_cons hcs hnext
    · exact hsearchcs.append hsearch
    · -- what is found from all children is found from those of this record and those of later ones
      rw [List.map_append, Lists.map_snd_mapKeys]
      exact hfirst.append hsearchcs hsearch hlater
    · refine ((hfirstlists.mapKeys (segment_cons_lt_cons s)).append hlists ?_).congr ?_
      · -- the keys of the table ascend, so a later key makes a later chain
        rintro _ a _ b ⟨segments, rfl, -⟩ ⟨s', m', cs', segments', rfl, hmem, -⟩
        exact List.cons_lt_cons_iff.mpr (Or.inl (hlt _ hmem))
      · intro chain r
        constructor
        · rintro (⟨segments, rfl, hchain⟩ | ⟨s', m', cs', segments, rfl, hmem, hcs', hchain⟩)
          · exact ⟨s, m, cs, segments, rfl, List.mem_cons_self, hcs, hchain⟩
          · exact ⟨s', m', cs', segments, rfl, List.mem_cons_of_mem _ hmem, hcs', hchain⟩
        · rintro ⟨s', m', cs', segments, rfl, hmem, hcs', hchain⟩
          rcases List.mem_cons.mp hmem with heq | hmem
          · cases heq
            rw [hcs, Except.ok.injEq] at hcs'
            exact Or.inl ⟨segments, rfl, hcs' ▸ hchain⟩
          · exact Or.inr ⟨s', m', cs', segments, rfl, hmem, hcs', hchain⟩

/-- **What parts lead to is listed by their match chains**, where nothing fails. -/
theorem exists_chain_listing (hps : ps ≠ []) (h : V.Searchable candidates) :
    ∃ table, V.Finds ps candidates (table.map Prod.snd) ∧ Lists table (V.Chain ps candidates) := by
  induction ps generalizing candidates with
  | nil => exact absurd rfl hps
  | cons p ps ih =>
    obtain ⟨t, ht, hlists⟩ := exists_segment_listing h p
    by_cases hrest : ps = []
    · -- the part is the last, so a chain is one segment
      subst hrest
      refine ⟨t.map fun x => ([x.1], x.2), ?_, ?_⟩
      · rw [Lists.map_snd_mapKeys (f := fun s => [s])]
        exact .last ht
      · exact (hlists.mapKeys singleton_lt_singleton).congr fun _ _ => chain_singleton_iff.symm
    · have hreach : ∀ e ∈ t, V.Reaches candidates e.2 := fun e he =>
        ((hlists.mem_iff e.1 e.2).mp he).reaches
      obtain ⟨next, table, hnext, -, hfinds, htable⟩ :=
        exists_next_listing h (fun cs hcs => ih hrest hcs) hreach hlists.ascending
      refine ⟨table, .more ht hnext hfinds, htable.congr fun chain r => ?_⟩
      rw [chain_cons_iff hrest]
      simp only [hlists.mem_iff]

/-- **A locator finds its match chains**: where nothing fails, it gives the record at the end of each
match chain, once for each, in the order of the chains; so a record occurs as often as chains end
in it. -/
theorem find_lists_chains (V : View ρ ε) (l : Locator) (seeds : List ρ) (hparts : l.parts ≠ [])
    (h : V.Searchable seeds) :
    ∃ table : List (List (List Nat) × ρ),
      (V.find l seeds).result = .ok (table.map Prod.snd) ∧
      Lists table (V.Chain l.parts seeds) ∧
      ∀ r, (table.map Prod.snd).count r = {chain | V.Chain l.parts seeds chain r}.ncard := by
  obtain ⟨table, hfinds, htable⟩ := exists_chain_listing hparts h
  exact ⟨table, hfinds.find_eq, htable, fun r => htable.count_eq List.lt_irrefl r⟩

end View

/-! ### Shared records and a cycle -/

/-- Records that all have one name: the first has two children, these are children of each other,
and the second of them is a child of the first one again. -/
def tangle : View Nat String where
  children
    | 0 => .ok [1, 2]
    | 1 => .ok [2, 2]
    | 2 => .ok [1, 0]
    | _ => .ok []
  label
    | .name, _ => .ok (some "a")
    | _, _ => .ok none
  property _ _ := none

/-- All records below, and the children of what is found there. -/
def twoSteps : Locator where
  source := "a > a"
  parts := [{ kind := .name, value := "a" }, { kind := .name, value := "a", direct := true }]
  supported := by simp [Part.Supported]

theorem tangle_searchable : tangle.Searchable [0] := by
  have hclosed : Closed tangle.children [0, 1, 2] := by
    intro r hr cs hcs
    simp only [List.mem_cons, List.not_mem_nil, or_false] at hr
    rcases hr with rfl | rfl | rfl <;> cases hcs <;> simp
  refine ⟨Graph.finiteBelow_of_closed (by simp) hclosed, fun r _ => ?_, fun r _ kind => ?_⟩
  · rcases r with _ | _ | _ | _ <;> exact ⟨_, rfl⟩
  · cases kind <;> exact ⟨_, rfl⟩

/-- What is found in the tangle is listed by its match chains, one for each time that a record is
found. -/
theorem find_lists_chains_tangle :
    twoSteps.parts ≠ [] ∧ tangle.Searchable [0] ∧ ∃ table : List (List (List Nat) × Nat),
      (tangle.find twoSteps [0]).result = .ok (table.map Prod.snd) ∧
      table.map Prod.snd = [1, 2, 2, 2, 1, 0, 1, 0, 1, 0, 2, 2] ∧
      Lists table (tangle.Chain twoSteps.parts [0]) ∧
      ∀ r, (table.map Prod.snd).count r =
        {chain | tangle.Chain twoSteps.parts [0] chain r}.ncard := by
  have hparts : twoSteps.parts ≠ [] := List.cons_ne_nil _ _
  obtain ⟨table, hfound, hlists, hcount⟩ :=
    View.find_lists_chains tangle twoSteps [0] hparts tangle_searchable
  have hfinds : tangle.Finds twoSteps.parts [0] [1, 2, 2, 2, 1, 0, 1, 0, 1, 0, 2, 2] :=
    View.finds_of_findWithin (n := 13) rfl
  have hrecords := Except.ok.inj (hfound.symm.trans hfinds.find_eq)
  exact ⟨hparts, tangle_searchable, table, hfound, hrecords, hlists, hcount⟩

end RecordQuery
