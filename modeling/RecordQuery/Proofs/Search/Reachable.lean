import RecordQuery.Proofs.Search.Matches

/-! # Cutting repetitions loses no match

A search enters no record below itself, yet it misses nothing: whatever is reached by any steps to
children, through whatever records, is also reached by a trail through records that are all
different, since the steps between two visits to one record can be left out.

* `Graph.exists_nodup_trail`: whatever is reached is reached without repetition.
* `View.Selects`: the records that parts select, said by reachability alone.
* `View.mem_find_iff_selects`: a locator finds the records that its parts select. -/

namespace RecordQuery

namespace Graph

variable {ρ ε : Type} {G : Graph ρ ε} {candidates : List ρ} {s : List Nat} {path : List ρ} {r : ρ}

/-- A trail goes on from the children of its last record. -/
theorem Trail.append {cs path' : List ρ} {s' : List Nat} (h : G.Trail candidates s (path ++ [r]))
    (hcs : G.children r = .ok cs) (h' : G.Trail cs s' path') :
    G.Trail candidates (s ++ s') (path ++ [r] ++ path') := by
  generalize hrecords : path ++ [r] = records at h
  induction h generalizing path with
  | stop h =>
    obtain ⟨rfl, hx⟩ := List.append_inj' (hrecords.trans (List.nil_append _).symm) rfl
    cases hx
    exact .step h hcs h'
  | step h hcs' rest ih =>
    cases path with
    | nil =>
      cases hrecords
      exact absurd rfl rest.path_ne_nil
    | cons x path =>
      rw [List.cons_append] at hrecords
      cases hrecords
      exact .step h hcs' (ih rfl)

/-- A trail goes on to a child of its last record. -/
theorem Trail.snoc (h : G.Trail candidates s (path ++ [r])) {cs : List ρ} {i : Nat} {c : ρ}
    (hcs : G.children r = .ok cs) (hc : cs[i]? = some c) :
    G.Trail candidates (s ++ [i]) (path ++ [r] ++ [c]) :=
  h.append hcs (.stop hc)

/-- A trail can be ended at any of its records. -/
theorem Trail.cut {rest : List ρ} {c : ρ} (h : G.Trail candidates s (path ++ c :: rest)) :
    ∃ s', G.Trail candidates s' (path ++ [c]) := by
  induction path generalizing candidates s with
  | nil =>
    cases h with
    | stop h => exact ⟨_, .stop h⟩
    | step h _ _ => exact ⟨_, .stop h⟩
  | cons x path ih =>
    rw [List.cons_append] at h
    generalize hrecords : path ++ c :: rest = records at h
    cases h with
    | stop h => exact absurd hrecords (List.append_ne_nil_of_right_ne_nil _ (List.cons_ne_nil _ _))
    | step h hcs htail =>
      subst hrecords
      obtain ⟨s', hs'⟩ := ih htail
      exact ⟨_, .step h hcs hs'⟩

/-- **Whatever is reached is reached without repetition.** Where a step leads back to a record of
the trail so far, the trail is cut there. -/
theorem exists_nodup_trail (h : G.Reaches candidates r) :
    ∃ s path, G.Trail candidates s (path ++ [r]) ∧ (path ++ [r]).Nodup := by
  obtain ⟨x, hx, hbelow⟩ := h
  induction hbelow with
  | here =>
    obtain ⟨i, hi⟩ := List.getElem?_of_mem hx
    exact ⟨[i], [], .stop hi, List.nodup_singleton x⟩
  | @step m c cs _ hcs hc ih =>
    obtain ⟨s, path, htrail, hnodup⟩ := ih
    by_cases hmem : c ∈ path ++ [m]
    · -- the trail has been at the child before: what came since is a detour
      obtain ⟨path', rest, hsplit⟩ := List.append_of_mem hmem
      rw [hsplit] at htrail hnodup
      obtain ⟨s', hs'⟩ := htrail.cut
      refine ⟨s', path', hs', hnodup.sublist ?_⟩
      exact (List.Sublist.refl path').append (List.cons_sublist_cons.mpr (List.nil_sublist rest))
    · obtain ⟨i, hi⟩ := List.getElem?_of_mem hc
      refine ⟨s ++ [i], path ++ [m], htrail.snoc hcs hi, ?_⟩
      rw [List.nodup_append]
      refine ⟨hnodup, List.nodup_singleton c, fun y hy z hz heq => ?_⟩
      rw [List.mem_singleton] at hz
      exact hmem (hz ▸ heq ▸ hy)

end Graph

namespace View

variable {ρ ε : Type} {V : View ρ ε} {p : Part} {ps : List Part} {seeds candidates : List ρ} {r : ρ}

/-- A record is one that a part **looks at** from candidates: one of them if the part is direct, else
one that is reached from them by any number of steps to children. -/
def Within (V : View ρ ε) (p : Part) (candidates : List ρ) (r : ρ) : Prop :=
  if p.direct then r ∈ candidates else V.Reaches candidates r

/-- Parts **select** a record from candidates: there is a record for each part that fits it, the
first among those that the part looks at from the candidates, each further one among those that its
part looks at from the children of the one before, and the last is the record selected. -/
inductive Selects (V : View ρ ε) : List Part → List ρ → ρ → Prop
  /-- The record for the last part. -/
  | last {p : Part} {candidates : List ρ} {r : ρ} : V.Within p candidates r → V.Fits p r →
      Selects V [p] candidates r
  /-- The record for a part that others follow. -/
  | more {p : Part} {ps : List Part} {candidates cs : List ρ} {m r : ρ} :
      V.Within p candidates m → V.Fits p m → V.children m = .ok cs → Selects V ps cs r →
      Selects V (p :: ps) candidates r

/-- There is a segment to just the fitting records that its part looks at. -/
theorem exists_segment_iff :
    (∃ s, V.Segment p candidates s r) ↔ V.Within p candidates r ∧ V.Fits p r := by
  cases hp : p.direct with
  | true =>
    rw [Within, hp, if_pos rfl]
    constructor
    · rintro ⟨s, path, htrail, -, hpath, hfits⟩
      cases hpath hp
      cases htrail with
      | stop h => exact ⟨List.mem_of_getElem? h, hfits⟩
      | step _ _ rest => exact absurd rfl rest.path_ne_nil
    · rintro ⟨hmem, hfits⟩
      obtain ⟨i, hi⟩ := List.getElem?_of_mem hmem
      exact ⟨[i], [], .stop hi, List.nodup_singleton r, fun _ => rfl, hfits⟩
  | false =>
    rw [Within, hp, if_neg Bool.false_ne_true]
    constructor
    · rintro ⟨s, hs⟩
      obtain ⟨path, -, -, -, hfits⟩ := id hs
      exact ⟨hs.reaches, hfits⟩
    · -- any way to the record will do, and one of them repeats no record
      rintro ⟨hreach, hfits⟩
      obtain ⟨s, path, htrail, hnodup⟩ := Graph.exists_nodup_trail hreach
      exact ⟨s, path, htrail, hnodup, fun h => absurd (hp.symm.trans h) Bool.false_ne_true, hfits⟩

/-- **Match chains end in just the records that the parts select.** -/
theorem exists_chain_iff_selects :
    (∃ chain, V.Chain ps candidates chain r) ↔ V.Selects ps candidates r := by
  constructor
  · rintro ⟨chain, h⟩
    induction h with
    | last hs =>
      obtain ⟨hwithin, hfits⟩ := exists_segment_iff.mp ⟨_, hs⟩
      exact .last hwithin hfits
    | more hs hcs _ ih =>
      obtain ⟨hwithin, hfits⟩ := exists_segment_iff.mp ⟨_, hs⟩
      exact .more hwithin hfits hcs ih
  · intro h
    induction h with
    | last hwithin hfits =>
      obtain ⟨s, hs⟩ := exists_segment_iff.mpr ⟨hwithin, hfits⟩
      exact ⟨[s], .last hs⟩
    | more hwithin hfits hcs _ ih =>
      obtain ⟨s, hs⟩ := exists_segment_iff.mpr ⟨hwithin, hfits⟩
      obtain ⟨chain, hchain⟩ := ih
      exact ⟨s :: chain, .more hs hcs hchain⟩

/-- What parts lead to is what they select. -/
theorem Finds.mem_iff_selects [DecidableEq ρ] [Hashable ρ] {out : List ρ}
    (h : V.Finds ps candidates out) (hsearch : V.Searchable candidates) (r : ρ) :
    r ∈ out ↔ V.Selects ps candidates r := by
  obtain ⟨table, hfinds, htable⟩ := exists_chain_listing h.parts_ne_nil hsearch
  rw [h.unique hfinds, htable.mem_map_snd_iff, exists_chain_iff_selects]

/-- **Cutting repetitions loses no match**: where nothing fails, a locator finds a record just when
its parts select it, by whatever steps to children, repetitions included. -/
theorem mem_find_iff_selects [DecidableEq ρ] [Hashable ρ] (V : View ρ ε) (l : Locator)
    (seeds : List ρ) (hparts : l.parts ≠ []) (h : V.Searchable seeds) :
    ∃ found, (V.find l seeds).result = .ok found ∧
      ∀ r, r ∈ found ↔ V.Selects l.parts seeds r := by
  obtain ⟨table, hfinds, htable⟩ := exists_chain_listing hparts h
  refine ⟨table.map Prod.snd, hfinds.find_eq, fun r => ?_⟩
  rw [htable.mem_map_snd_iff, exists_chain_iff_selects]

end View

/-- In the tangle the first record is found below itself: a child of the second child. -/
theorem mem_find_tangle :
    twoSteps.parts ≠ [] ∧ tangle.Searchable [0] ∧
      ∃ found, (tangle.find twoSteps [0]).result = .ok found ∧ 0 ∈ found := by
  obtain ⟨found, hfound, hmem⟩ :=
    View.mem_find_iff_selects tangle twoSteps [0] (List.cons_ne_nil _ _) tangle_searchable
  refine ⟨List.cons_ne_nil _ _, tangle_searchable, found, hfound, (hmem 0).mpr ?_⟩
  have hfits : ∀ direct r, tangle.Fits { kind := .name, value := "a", direct } r := fun _ _ =>
    ⟨rfl, fun _ h => nomatch h⟩
  have hreach : tangle.Reaches [0] 2 := ⟨0, List.mem_cons_self, .step .here rfl (by decide)⟩
  have hchild : (0 : Nat) ∈ [1, 0] := by decide
  exact .more hreach (hfits false 2) rfl (.last hchild (hfits true 0))

end RecordQuery
