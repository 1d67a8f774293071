import RecordQuery.Proofs.Search.Listing
import RecordQuery.Proofs.Search.Visit
import RecordQuery.Search.Find

/-! # Match chains

What a locator finds, said without a search. For each part a *segment* leads along child positions,
through records that are all different, to a record that fits the part; the next segment starts at a
child of that record. Segments are written as the positions they take, so that chains are
ordered as lists are: an earlier position comes first, and a path comes before its extensions.

* `Graph.Trail`: positions that lead through records.
* `View.Fits`: a record fits a part.
* `View.Segment`: the positions of a segment for one part.
* `View.Chain`: the segments of a match chain.
* `Graph.Visits.exists_listing`: what a visit finds is listed by its trails, in their order. -/

namespace RecordQuery

namespace Graph

variable {ρ ε : Type}

/-- **Positions lead through records**: the first position is one among candidates, each further one
is among the children of the record before. -/
inductive Trail (G : Graph ρ ε) : List ρ → List Nat → List ρ → Prop
  /-- A candidate. -/
  | stop {candidates : List ρ} {i : Nat} {r : ρ} : candidates[i]? = some r →
      Trail G candidates [i] [r]
  /-- A candidate, and from its children on. -/
  | step {candidates cs : List ρ} {i : Nat} {r : ρ} {s : List Nat} {path : List ρ} :
      candidates[i]? = some r → G.children r = .ok cs → Trail G cs s path →
      Trail G candidates (i :: s) (r :: path)

end Graph

namespace View

variable {ρ ε : Type}

/-- A record **fits** a part: its label is there and has the part's text, and if the part has a
condition, its attribute is there and has the literal as its text. -/
def Fits (V : View ρ ε) (p : Part) (r : ρ) : Prop :=
  V.label p.kind r = .ok (some p.value) ∧
    ∀ c ∈ p.condition, V.property c.property r = some c.value

theorem satisfies_eq_ok_true_iff {V : View ρ ε} {p : Part} {r : ρ} :
    V.satisfies p r = .ok true ↔ V.Fits p r := by
  rw [satisfies, Fits]
  cases hlabel : V.label p.kind r with
  | error e => simp
  | ok text => cases p.condition <;> simp [meets]

/-- The positions of a **segment** for a part: they lead from candidates to a record that fits the
part, through records that are all different, and make no step to a child if the part is direct. -/
def Segment (V : View ρ ε) (p : Part) (candidates : List ρ) (s : List Nat) (r : ρ) : Prop :=
  ∃ path, V.Trail candidates s (path ++ [r]) ∧ (path ++ [r]).Nodup ∧
    (p.direct = true → path = []) ∧ V.Fits p r

/-- The segments of a **match chain** for parts: the first starts at a candidate, each further one
at a child of the record where the one before it ends. -/
inductive Chain (V : View ρ ε) : List Part → List ρ → List (List Nat) → ρ → Prop
  /-- The last segment, at whose end the chain ends. -/
  | last {p : Part} {candidates : List ρ} {s : List Nat} {r : ρ} :
      V.Segment p candidates s r → Chain V [p] candidates [s] r
  /-- A segment, and a chain from the children of its end. -/
  | more {p : Part} {ps : List Part} {candidates cs : List ρ} {s : List Nat}
      {segments : List (List Nat)} {m r : ρ} :
      V.Segment p candidates s m → V.children m = .ok cs → Chain V ps cs segments r →
      Chain V (p :: ps) candidates (s :: segments) r

end View

/-! ### Trails from the first candidate and from later ones -/

/-- The positions of a trail seen from one candidate further ahead. -/
def shift : List Nat → List Nat
  | [] => []
  | i :: s => (i + 1) :: s

theorem shift_lt_shift (s s' : List Nat) (h : s < s') : shift s < shift s' := by
  cases s with
  | nil =>
    cases s' with
    | nil => exact absurd h (List.lt_irrefl [])
    | cons j s' => exact List.nil_lt_cons (j + 1) s'
  | cons i s =>
    cases s' with
    | nil => exact absurd h (List.not_lt_nil _)
    | cons j s' =>
      rw [List.cons_lt_cons_iff] at h
      rw [shift, shift, List.cons_lt_cons_iff]
      rcases h with hlt | ⟨rfl, hlt⟩
      · exact Or.inl (Nat.succ_lt_succ hlt)
      · exact Or.inr ⟨rfl, hlt⟩

theorem zero_cons_lt_zero_cons (s s' : List Nat) (h : s < s') : 0 :: s < 0 :: s' :=
  List.cons_lt_cons_iff.mpr (Or.inr ⟨rfl, h⟩)

/-- The first candidate comes before all others. -/
theorem zero_cons_lt_shift (s s' : List Nat) (hs' : s' ≠ []) : 0 :: s < shift s' := by
  cases s' with
  | nil => exact absurd rfl hs'
  | cons j s' => exact List.cons_lt_cons_iff.mpr (Or.inl (Nat.succ_pos j))

namespace Graph

variable {ρ ε : Type} {G : Graph ρ ε} {candidates : List ρ} {s : List Nat} {path : List ρ}

theorem Trail.positions_ne_nil (h : G.Trail candidates s path) : s ≠ [] := by
  cases h <;> exact List.cons_ne_nil _ _

theorem Trail.path_ne_nil (h : G.Trail candidates s path) : path ≠ [] := by
  cases h <;> exact List.cons_ne_nil _ _

theorem not_trail_nil : ¬ G.Trail [] s path := by
  rintro (h | ⟨h, -, -⟩) <;> simp at h

/-- The records of a trail are reached from the candidates. -/
theorem Trail.reaches (h : G.Trail candidates s path) : ∀ x ∈ path, G.Reaches candidates x := by
  induction h with
  | stop h =>
    intro x hx
    rw [List.mem_singleton] at hx
    exact hx ▸ reaches_of_mem (List.mem_of_getElem? h)
  | step h hcs _ ih =>
    intro x hx
    have hr := reaches_of_mem (G := G) (List.mem_of_getElem? h)
    rcases List.mem_cons.mp hx with rfl | hx
    · exact hr
    · exact hr.of_children hcs (ih x hx)

/-- A trail stays a trail when a candidate is put in front. -/
theorem Trail.shift (r : ρ) (h : G.Trail candidates s path) :
    G.Trail (r :: candidates) (shift s) path := by
  cases h with
  | stop h => exact .stop (by rwa [List.getElem?_cons_succ])
  | step h hcs rest => exact .step (by rwa [List.getElem?_cons_succ]) hcs rest

/-- **A trail stops at the first candidate, goes on from its children, or starts at a later
candidate.** -/
theorem trail_cons_iff {r : ρ} :
    G.Trail (r :: candidates) s path ↔
      (s = [0] ∧ path = [r]) ∨
      (∃ cs s' path', G.children r = .ok cs ∧ s = 0 :: s' ∧ path = r :: path' ∧
        G.Trail cs s' path') ∨
      ∃ s', s = RecordQuery.shift s' ∧ G.Trail candidates s' path := by
  constructor
  · intro h
    cases h with
    | @stop _ i x h =>
      cases i with
      | zero =>
        rw [List.getElem?_cons_zero, Option.some.injEq] at h
        exact Or.inl ⟨rfl, by rw [h]⟩
      | succ i =>
        rw [List.getElem?_cons_succ] at h
        exact Or.inr (Or.inr ⟨[i], rfl, .stop h⟩)
    | @step _ cs i x s' path' h hcs rest =>
      cases i with
      | zero =>
        rw [List.getElem?_cons_zero, Option.some.injEq] at h
        subst h
        exact Or.inr (Or.inl ⟨cs, s', path', hcs, rfl, rfl, rest⟩)
      | succ i =>
        rw [List.getElem?_cons_succ] at h
        exact Or.inr (Or.inr ⟨i :: s', rfl, .step h hcs rest⟩)
  · rintro (⟨rfl, rfl⟩ | ⟨cs, s', path', hcs, rfl, rfl, h⟩ | ⟨s', rfl, h⟩)
    · exact .stop List.getElem?_cons_zero
    · exact .step List.getElem?_cons_zero hcs h
    · exact h.shift r

/-! ### What a visit finds -/

/-- Positions lead to a record through records that are all different and **not open**. -/
def Fresh (G : Graph ρ ε) (opened candidates : List ρ) (s : List Nat) (x : ρ) : Prop :=
  ∃ path, G.Trail candidates s (path ++ [x]) ∧ (path ++ [x]).Nodup ∧ ∀ y ∈ path ++ [x], y ∉ opened

theorem Fresh.positions_ne_nil {opened : List ρ} {x : ρ} (h : G.Fresh opened candidates s x) :
    s ≠ [] := by
  obtain ⟨_, htrail, -, -⟩ := h
  exact htrail.positions_ne_nil

theorem not_fresh_nil {opened : List ρ} {x : ρ} : ¬ G.Fresh opened [] s x := by
  rintro ⟨_, htrail, -, -⟩
  exact not_trail_nil htrail

/-- The trails to fresh records follow the recursion of a visit: the first record is opened for what
is reached through it, and not for what is reached from later ones. -/
theorem fresh_cons_iff {opened : List ρ} {r x : ρ} :
    G.Fresh opened (r :: candidates) s x ↔
      (r ∉ opened ∧ s = [0] ∧ x = r) ∨
      (r ∉ opened ∧ ∃ cs s', G.children r = .ok cs ∧ s = 0 :: s' ∧ G.Fresh (r :: opened) cs s' x) ∨
      ∃ s', s = RecordQuery.shift s' ∧ G.Fresh opened candidates s' x := by
  constructor
  · rintro ⟨path, htrail, hnodup, hnew⟩
    rcases trail_cons_iff.mp htrail with
      ⟨rfl, hpath⟩ | ⟨cs, s', path', hcs, rfl, hpath, htrail'⟩ | ⟨s', rfl, htrail'⟩
    · obtain ⟨-, hx⟩ := List.append_inj' (hpath.trans (List.nil_append _).symm) rfl
      cases hx
      exact Or.inl ⟨hnew r (List.mem_append_right _ List.mem_cons_self), rfl, rfl⟩
    · cases path with
      | nil =>
        -- a trail that goes on below the first record holds two records at least
        cases hpath
        exact absurd rfl htrail'.path_ne_nil
      | cons y path =>
        -- no repetition on the whole trail means that the rest of it avoids the first record
        rw [List.cons_append] at hpath hnodup hnew
        cases hpath
        rw [List.nodup_cons] at hnodup
        refine Or.inr (Or.inl ⟨hnew r List.mem_cons_self, cs, s', hcs, rfl, path, htrail',
          hnodup.2, fun y hy => ?_⟩)
        rw [List.mem_cons, not_or]
        exact ⟨fun h => hnodup.1 (h ▸ hy), hnew y (List.mem_cons_of_mem _ hy)⟩
    · exact Or.inr (Or.inr ⟨s', rfl, path, htrail', hnodup, hnew⟩)
  · rintro (⟨hr, rfl, rfl⟩ | ⟨hr, cs, s', hcs, rfl, path, htrail, hnodup, hnew⟩ |
      ⟨s', rfl, path, htrail, hnodup, hnew⟩)
    · refine ⟨[], .stop List.getElem?_cons_zero, List.nodup_singleton _, fun y hy => ?_⟩
      rw [List.nil_append, List.mem_singleton] at hy
      rwa [hy]
    · refine ⟨r :: path, .step List.getElem?_cons_zero hcs htrail, ?_, fun y hy => ?_⟩
      · rw [List.cons_append, List.nodup_cons]
        exact ⟨fun hmem => hnew r hmem List.mem_cons_self, hnodup⟩
      · rcases List.mem_cons.mp hy with rfl | hy
        · exact hr
        · exact fun hopen => hnew y hy (List.mem_cons_of_mem _ hopen)
    · exact ⟨path, htrail.shift r, hnodup, hnew⟩

/-- **What a visit finds is listed by its trails**: every trail through fresh records to one that
passes the test gives one entry, in the order of the trails. -/
theorem Visits.exists_listing {test : ρ → Except ε Bool} {opened : List ρ} {o : Outcome ρ ε}
    (h : G.Visits test opened candidates o) :
    ∀ found, o.result = .ok found → ∃ table, found = table.map Prod.snd ∧
      Lists table fun s x => G.Fresh opened candidates s x ∧ test x = .ok true := by
  induction h with
  | nil =>
    rintro found ⟨⟩
    exact ⟨[], rfl, .nil fun _ _ h => not_fresh_nil h.1⟩
  | @again opened rs r o hopen _ ih =>
    intro found hfound
    obtain ⟨here, there, hhere, hthere, rfl⟩ := Outcome.andThen_result_eq_ok_iff.mp hfound
    cases hhere
    obtain ⟨table, rfl, htable⟩ := ih there hthere
    -- no trail starts at an open record, so only those of the later records are left, shifted
    refine ⟨_, (Lists.map_snd_mapKeys table).symm, (htable.mapKeys shift_lt_shift).congr ?_⟩
    intro s x
    rw [fresh_cons_iff]
    grind
  | testFails | childrenFail => rintro found ⟨⟩
  | @enter opened rs cs r passed o o' hopen ht hcs _ _ ihcs ihrs =>
    intro found hfound
    obtain ⟨own, found', hown, hfound', rfl⟩ := Outcome.andThen_result_eq_ok_iff.mp hfound
    obtain ⟨here, there, hhere, hthere, rfl⟩ := Outcome.andThen_result_eq_ok_iff.mp hfound'
    cases hown
    obtain ⟨below, rfl, hbelow⟩ := ihcs here hhere
    obtain ⟨later, rfl, hlater⟩ := ihrs there hthere
    -- the record itself, then what is below it, then what is reached from later records
    have hlists := (Lists.single [0] r passed).append
      ((hbelow.mapKeys (f := (0 :: ·)) zero_cons_lt_zero_cons).append
        (hlater.mapKeys shift_lt_shift) ?_) ?_
    · refine ⟨_, ?_, hlists.congr fun s x => ?_⟩
      · rw [List.map_append, List.map_append, Lists.map_snd_mapKeys, Lists.map_snd_mapKeys]
        cases passed <;> rfl
      · rw [fresh_cons_iff]
        grind
    · rintro _ x _ y ⟨s, rfl, -⟩ ⟨s', rfl, hfresh, -⟩
      exact zero_cons_lt_shift s s' hfresh.positions_ne_nil
    · rintro _ x _ y ⟨⟨rfl, -⟩, -⟩ (⟨s, rfl, hfresh, -⟩ | ⟨s', rfl, hfresh, -⟩)
      · obtain ⟨i, s, rfl⟩ := List.exists_cons_of_ne_nil hfresh.positions_ne_nil
        exact zero_cons_lt_zero_cons [] (i :: s) (List.nil_lt_cons i s)
      · exact zero_cons_lt_shift [] s' hfresh.positions_ne_nil

end Graph

end RecordQuery
