import RecordQuery.Proofs.Search.Chain

/-! # Cycles are reported, and nothing else

A search reports a record when it meets it again below itself. This happens exactly where records
lie below themselves: sharing a record between parents, or giving it twice, is no cycle, and there
every path is followed to its end.

* `Graph.BelowItself`, `Graph.Acyclic`: a record on a cycle, and graphs without one.
* `Graph.Visits.of_mem_repeated`: what a visit reports was open or lies below itself.
* `Graph.Visits.of_repeated_eq_nil`: a visit that reports nothing has met no cycle.
* `Graph.tells_repeated_iff_belowItself`: a search reports a record just if there is a cycle. -/

namespace RecordQuery

/-! ### Reports of outcomes in sequence -/

namespace Outcome

variable {ρ ε : Type} {o o' : Outcome ρ ε}

theorem mem_repeated_of_andThen {x : ρ} (h : x ∈ (o.andThen o').repeated) :
    x ∈ o.repeated ∨ x ∈ o'.repeated := by
  rw [andThen] at h
  split at h
  · exact List.mem_append.mp h
  · exact Or.inl h

/-- Two outcomes in sequence report nothing and do not fail just if neither does. -/
theorem andThen_quiet_iff :
    ((o.andThen o').repeated = [] ∧ ∃ found, (o.andThen o').result = .ok found) ↔
      (o.repeated = [] ∧ ∃ found, o.result = .ok found) ∧
        o'.repeated = [] ∧ ∃ found, o'.result = .ok found := by
  obtain ⟨_, _ | here⟩ := o <;> obtain ⟨_, _ | there⟩ := o' <;> simp [andThen, Except.map]

end Outcome

namespace Graph

variable {ρ ε : Type}

/-- A record lies **below itself** when it is reached from its own children. -/
def BelowItself (G : Graph ρ ε) (r : ρ) : Prop := ∃ cs, G.children r = .ok cs ∧ G.Reaches cs r

/-- A graph is **acyclic** below given records when none of the records reached from them lies below
itself. -/
def Acyclic (G : Graph ρ ε) (rs : List ρ) : Prop := ∀ r, G.Reaches rs r → ¬ G.BelowItself r

variable {G : Graph ρ ε} {test : ρ → Except ε Bool} {opened rs candidates : List ρ} {r s : ρ}
  {o : Outcome ρ ε}

/-- A record below another is this one or is reached from its children. -/
theorem Below.eq_or_reaches (h : G.Below r s) :
    s = r ∨ ∃ cs, G.children r = .ok cs ∧ G.Reaches cs s := by
  induction h with
  | here => exact Or.inl rfl
  | @step m c cs _ hcs hc ih =>
    rcases ih with rfl | ⟨cs', hcs', x, hx, hbelow⟩
    · exact Or.inr ⟨cs, hcs, reaches_of_mem hc⟩
    · exact Or.inr ⟨cs', hcs', x, hx, hbelow.step hcs hc⟩

/-- What is reached from records is the first of them, or is reached from its children or from the
later ones. -/
theorem Reaches.of_cons (h : G.Reaches (r :: rs) s) :
    s = r ∨ (∃ cs, G.children r = .ok cs ∧ G.Reaches cs s) ∨ G.Reaches rs s := by
  obtain ⟨x, hx, hbelow⟩ := h
  rcases List.mem_cons.mp hx with rfl | hx
  · rcases hbelow.eq_or_reaches with heq | hchild
    · exact Or.inl heq
    · exact Or.inr (Or.inl hchild)
  · exact Or.inr (Or.inr ⟨x, hx, hbelow⟩)

theorem Acyclic.of_reaches (h : G.Acyclic rs)
    (hreach : ∀ s, G.Reaches candidates s → G.Reaches rs s) : G.Acyclic candidates :=
  fun s hs => h s (hreach s hs)

/-- **A graph whose children rank above their parents is acyclic**. For the records of a given list
this can be decided. -/
theorem acyclic_of_rank (rank : ρ → Nat) (bound : List ρ) (hrs : ∀ r ∈ rs, r ∈ bound)
    (hbound : ∀ r ∈ bound, ∀ cs ∈ (G.children r).toOption, ∀ c ∈ cs,
      c ∈ bound ∧ rank r < rank c) : G.Acyclic rs := by
  have hstep := forall_child_of_readable hbound
  have hbelow : ∀ {r s}, G.Below r s → r ∈ bound → s ∈ bound ∧ rank r ≤ rank s := by
    intro r s h hr
    induction h with
    | here => exact ⟨hr, Nat.le_refl _⟩
    | step _ hcs hc ih =>
      obtain ⟨hm, hle⟩ := ih
      obtain ⟨hcmem, hlt⟩ := hstep _ hm _ hcs _ hc
      exact ⟨hcmem, Nat.le_trans hle (Nat.le_of_lt hlt)⟩
  rintro r ⟨x, hx, hxr⟩ ⟨cs, hcs, c, hc, hcr⟩
  have hr : r ∈ bound := (hbelow hxr (hrs x hx)).1
  obtain ⟨hcmem, hlt⟩ := hstep r hr cs hcs c hc
  exact absurd (hbelow hcr hcmem).2 (Nat.not_le.mpr hlt)

/-! ### What is reported lies on a cycle -/

/-- **A record that a visit reports** was open already, or it lies below itself. -/
theorem Visits.of_mem_repeated (h : G.Visits test opened rs o) {x : ρ} (hx : x ∈ o.repeated) :
    G.Reaches rs x ∧ (x ∈ opened ∨ G.BelowItself x) := by
  induction h with
  | nil => exact absurd hx List.not_mem_nil
  | @again opened rs r o hopen _ ih =>
    rcases Outcome.mem_repeated_of_andThen hx with hx | hx
    · rw [Outcome.of, List.mem_singleton] at hx
      subst hx
      exact ⟨reaches_of_mem List.mem_cons_self, Or.inl hopen⟩
    · obtain ⟨hreach, hcase⟩ := ih hx
      exact ⟨hreach.cons r, hcase⟩
  | testFails | childrenFail => exact absurd hx List.not_mem_nil
  | @enter opened rs cs r passed o o' _ _ hcs _ _ ihcs ihrs =>
    have hr : G.Reaches (r :: rs) r := reaches_of_mem List.mem_cons_self
    rcases Outcome.mem_repeated_of_andThen hx with hx | hx
    · exact absurd hx List.not_mem_nil
    rcases Outcome.mem_repeated_of_andThen hx with hx | hx
    · obtain ⟨hreach, hcase⟩ := ihcs hx
      refine ⟨hr.of_children hcs hreach, ?_⟩
      rcases hcase with hopen | hcycle
      · rcases List.mem_cons.mp hopen with rfl | hopen
        · -- the record was opened here and is met again from its children
          exact Or.inr ⟨cs, hcs, hreach⟩
        · exact Or.inl hopen
      · exact Or.inr hcycle
    · obtain ⟨hreach, hcase⟩ := ihrs hx
      exact ⟨hreach.cons r, hcase⟩

/-! ### A cycle is reported -/

/-- **A visit that reports nothing** and does not fail reaches no open record and no record below
itself. That the first record is not reached from its own children is what the visit to these says,
for which it is open. -/
theorem Visits.of_repeated_eq_nil (h : G.Visits test opened rs o)
    (hquiet : o.repeated = [] ∧ ∃ found, o.result = .ok found) :
    ∀ s, G.Reaches rs s → s ∉ opened ∧ ¬ G.BelowItself s := by
  induction h with
  | nil => exact fun s ⟨_, hx, _⟩ => absurd hx List.not_mem_nil
  | again _ _ _ => exact absurd (Outcome.andThen_quiet_iff.mp hquiet).1.1 (List.cons_ne_nil _ _)
  | testFails | childrenFail =>
    obtain ⟨-, found, hfound⟩ := hquiet
    cases hfound
  | @enter opened rs cs r passed o o' hopen _ hcs _ _ ihcs ihrs =>
    obtain ⟨-, hrest⟩ := Outcome.andThen_quiet_iff.mp hquiet
    obtain ⟨hbelow, hlater⟩ := Outcome.andThen_quiet_iff.mp hrest
    intro s hs
    rcases hs.of_cons with rfl | ⟨cs', hcs', hreach⟩ | hreach
    · refine ⟨hopen, ?_⟩
      rintro ⟨cs', hcs', hreach⟩
      rw [hcs, Except.ok.injEq] at hcs'
      subst hcs'
      exact (ihcs hbelow s hreach).1 List.mem_cons_self
    · rw [hcs, Except.ok.injEq] at hcs'
      subst hcs'
      obtain ⟨hnew, hcycle⟩ := ihcs hbelow s hreach
      exact ⟨fun hmem => hnew (List.mem_cons_of_mem r hmem), hcycle⟩
    · exact ihrs hlater s hreach

/-! ### Where there is no cycle -/

/-- **Without a cycle no trail repeats a record.** -/
theorem Acyclic.nodup {s : List Nat} {path : List ρ} (h : G.Acyclic candidates)
    (htrail : G.Trail candidates s path) : path.Nodup := by
  induction htrail with
  | stop _ => exact List.nodup_singleton _
  | @step candidates cs i r s path hr hcs rest ih =>
    have hreach : G.Reaches candidates r := reaches_of_mem (List.mem_of_getElem? hr)
    have hcscyclic : G.Acyclic cs := h.of_reaches fun x hx => hreach.of_children hcs hx
    rw [List.nodup_cons]
    refine ⟨fun hmem => ?_, ih hcscyclic⟩
    -- met again on the trail from its children, the record would lie below itself
    have hagain : G.Reaches cs r := rest.reaches r hmem
    exact h r hreach ⟨cs, hcs, hagain⟩

theorem mem_traced_events_iff {x : ρ} : .repeated x ∈ o.traced.events ↔ x ∈ o.repeated := by
  simp [Outcome.traced]

/-- **A search tells of a record met again just if there is a cycle** below the given records, where
nothing fails, and each record that it tells of lies below itself. So sharing alone is never told
of: without a cycle every trail from the given records is followed, each giving one entry in order
if it ends in a record that passes the test. -/
theorem tells_repeated_iff_belowItself [DecidableEq ρ] [Hashable ρ] (G : Graph ρ ε)
    (test : ρ → Except ε Bool) (records : List ρ) (hfinite : G.FiniteBelow records)
    (hread : ∀ r, G.Reaches records r →
      (∃ passed, test r = .ok passed) ∧ ∃ cs, G.children r = .ok cs) :
    ((∃ r, .repeated r ∈ (G.search true test records).traced.events) ↔
      ∃ r, G.Reaches records r ∧ G.BelowItself r) ∧
    (∀ r, .repeated r ∈ (G.search true test records).traced.events →
      G.Reaches records r ∧ G.BelowItself r) ∧
    (G.Acyclic records →
      ∃ table : List (List Nat × ρ),
        (G.search true test records).result = .ok (table.map Prod.snd) ∧
        Lists table fun s r =>
          (∃ path, G.Trail records s (path ++ [r])) ∧ test r = .ok true) := by
  have hvisits : G.Visits test [] records (G.search true test records) :=
    hfinite.visits_search test
  obtain ⟨found, hfound⟩ := hvisits.exists_ok hread
  have htold : ∀ r, .repeated r ∈ (G.search true test records).traced.events →
      G.Reaches records r ∧ G.BelowItself r := by
    intro r hr
    obtain ⟨hreach, hcase⟩ := hvisits.of_mem_repeated (mem_traced_events_iff.mp hr)
    exact ⟨hreach, hcase.resolve_left List.not_mem_nil⟩
  refine ⟨⟨fun ⟨r, hr⟩ => ⟨r, htold r hr⟩, ?_⟩, htold, fun hacyclic => ?_⟩
  · rintro ⟨r, hreach, hcycle⟩
    cases hrepeated : (G.search true test records).repeated with
    | nil =>
      have hnone := hvisits.of_repeated_eq_nil ⟨hrepeated, found, hfound⟩
      exact absurd hcycle (hnone r hreach).2
    | cons x xs =>
      have hx : x ∈ (G.search true test records).repeated := hrepeated ▸ List.mem_cons_self
      exact ⟨x, mem_traced_events_iff.mpr hx⟩
  · obtain ⟨table, rfl, htable⟩ := hvisits.exists_listing found hfound
    refine ⟨table, hfound, htable.congr fun s r => and_congr_left fun _ => ?_⟩
    constructor
    · rintro ⟨path, htrail, -, -⟩
      exact ⟨path, htrail⟩
    · rintro ⟨path, htrail⟩
      exact ⟨path, htrail, hacyclic.nodup htrail, fun _ _ => List.not_mem_nil⟩

end Graph

/-! ### Sharing and a cycle -/

/-- A record whose children are one record twice and another, which is also a child of the first
one: shared in three ways, and no cycle. -/
def diamond : Graph Nat String where
  children
    | 0 => .ok [1, 1, 2]
    | 1 => .ok [2]
    | _ => .ok []

/-- A record above two that are children of each other. -/
def loop : Graph Nat String where
  children
    | 0 => .ok [1]
    | 1 => .ok [2, 2]
    | 2 => .ok [1]
    | _ => .ok []

theorem diamond_finiteBelow : diamond.FiniteBelow [0, 0] := by
  have hclosed : Closed diamond.children [0, 1, 2] := forall_child_of_readable (by decide)
  exact Graph.finiteBelow_of_closed (by decide) hclosed

theorem loop_finiteBelow : loop.FiniteBelow [0] := by
  have hclosed : Closed loop.children [0, 1, 2] := forall_child_of_readable (by decide)
  exact Graph.finiteBelow_of_closed (by decide) hclosed

theorem diamond_acyclic : diamond.Acyclic [0, 0] :=
  Graph.acyclic_of_rank id [0, 1, 2] (by decide) (by decide)

/-- In the diamond nothing is told of, though it is given twice; the cycle in the loop is told
of. -/
theorem tells_repeated_diamond_loop :
    diamond.FiniteBelow [0, 0] ∧ loop.FiniteBelow [0] ∧
      (∀ G ∈ [diamond, loop], ∀ r, ∃ cs, G.children r = .ok cs) ∧
      (¬ ∃ r, .repeated r ∈ (diamond.search true (fun _ => .ok true) [0, 0]).traced.events) ∧
      ∃ r, .repeated r ∈ (loop.search true (fun _ => .ok true) [0]).traced.events := by
  have hread : ∀ G ∈ [diamond, loop], ∀ r, ∃ cs, G.children r = .ok cs := by
    intro G hG r
    simp only [List.mem_cons, List.not_mem_nil, or_false] at hG
    rcases hG with rfl | rfl <;> rcases r with _ | _ | _ | r <;> exact ⟨_, rfl⟩
  refine ⟨diamond_finiteBelow, loop_finiteBelow, hread, ?_, ?_⟩
  · have hiff := Graph.tells_repeated_iff_belowItself diamond (fun _ => .ok true) [0, 0]
      diamond_finiteBelow fun r _ => ⟨⟨true, rfl⟩, hread diamond (by simp) r⟩
    rw [hiff.1]
    rintro ⟨r, hreach, hcycle⟩
    exact diamond_acyclic r hreach hcycle
  · have hiff := Graph.tells_repeated_iff_belowItself loop (fun _ => .ok true) [0]
      loop_finiteBelow fun r _ => ⟨⟨true, rfl⟩, hread loop (by simp) r⟩
    have hone : loop.Reaches [0] 1 := ⟨0, List.mem_cons_self, .step .here rfl List.mem_cons_self⟩
    have htwo : loop.Below 2 1 := .step .here rfl List.mem_cons_self
    exact hiff.1.mpr ⟨1, hone, [2, 2], rfl, 2, List.mem_cons_self, htwo⟩

end RecordQuery
