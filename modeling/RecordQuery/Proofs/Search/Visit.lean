import Mathlib.Data.List.Basic
import RecordQuery.Search.Walk

/-! # A walk visits records as a recursion does

What a walk gives can be said without its stack. Records are visited in order: one that is open is
reported; any other is tested, and then its children are visited while it is open. A failure ends
everything behind it. Where finitely many records are reached, every walk ends and gives what this
recursion gives.

* `Outcome.andThen`: one outcome after another.
* `Graph.Visits`: the outcome of a visit to records while others are open.
* `Graph.visitWithin`: the outcome of a visit as it is computed.
* `Walk.Ends`: a walk comes to an end.
* `Graph.search_eq_iff_visits`: a search ends, and its outcome is that of the visit. -/

namespace RecordQuery

/-! ### Records below others -/

namespace Graph

variable {ρ ε : Type} {G : Graph ρ ε}

theorem Below.trans {r s t : ρ} (hrs : G.Below r s) (hst : G.Below s t) : G.Below r t := by
  induction hst with
  | here => exact hrs
  | step _ hcs hc ih => exact ih.step hcs hc

/-- What lies below a child lies below its parent. -/
theorem Below.of_child {r c s : ρ} {cs : List ρ} (hcs : G.children r = .ok cs) (hc : c ∈ cs)
    (h : G.Below c s) : G.Below r s :=
  (Below.here.step hcs hc).trans h

theorem reaches_of_mem {rs : List ρ} {r : ρ} (h : r ∈ rs) : G.Reaches rs r := ⟨r, h, .here⟩

/-- What is reached from reached records is reached. -/
theorem Reaches.of_reached {rs xs : List ρ} {s : ρ} (h : G.Reaches xs s)
    (hxs : ∀ x ∈ xs, G.Reaches rs x) : G.Reaches rs s := by
  obtain ⟨x, hx, hxs'⟩ := h
  obtain ⟨r, hr, hrx⟩ := hxs x hx
  exact ⟨r, hr, hrx.trans hxs'⟩

theorem Reaches.cons {rs : List ρ} {s : ρ} (r : ρ) (h : G.Reaches rs s) : G.Reaches (r :: rs) s := by
  obtain ⟨x, hx, hs⟩ := h
  exact ⟨x, List.mem_cons_of_mem _ hx, hs⟩

/-- What is reached from the children of a reached record is reached. -/
theorem Reaches.of_children {rs cs : List ρ} {r s : ρ} (hr : G.Reaches rs r)
    (hcs : G.children r = .ok cs) (h : G.Reaches cs s) : G.Reaches rs s := by
  obtain ⟨x, hx, hxr⟩ := hr
  obtain ⟨c, hc, hs⟩ := h
  exact ⟨x, hx, hxr.trans (hs.of_child hcs hc)⟩

theorem reaches_append_iff {xs ys : List ρ} {s : ρ} :
    G.Reaches (xs ++ ys) s ↔ G.Reaches xs s ∨ G.Reaches ys s := by
  constructor
  · rintro ⟨r, hr, hs⟩
    rcases List.mem_append.mp hr with hr | hr
    · exact Or.inl ⟨r, hr, hs⟩
    · exact Or.inr ⟨r, hr, hs⟩
  · rintro (⟨r, hr, hs⟩ | ⟨r, hr, hs⟩)
    · exact ⟨r, List.mem_append_left _ hr, hs⟩
    · exact ⟨r, List.mem_append_right _ hr, hs⟩

theorem FiniteBelow.append {xs ys : List ρ} (hxs : G.FiniteBelow xs) (hys : G.FiniteBelow ys) :
    G.FiniteBelow (xs ++ ys) := by
  obtain ⟨b, hb⟩ := hxs
  obtain ⟨b', hb'⟩ := hys
  refine ⟨b ++ b', fun s hs => ?_⟩
  rcases reaches_append_iff.mp hs with hs | hs
  · exact List.mem_append_left _ (hb s hs)
  · exact List.mem_append_right _ (hb' s hs)

/-- Finitely many records lie in a closed list with the given ones. -/
theorem FiniteBelow.exists_closed {rs : List ρ} (h : G.FiniteBelow rs) :
    ∃ bound, (∀ r ∈ rs, r ∈ bound) ∧ Closed G.children bound := by
  classical
  obtain ⟨bound, hbound⟩ := h
  -- a bound may hold more than what is reached, so it need not be closed itself
  refine ⟨bound.filter fun s => G.Reaches rs s, fun r hr => ?_, fun r hr cs hcs c hc => ?_⟩
  · have hreach : G.Reaches rs r := reaches_of_mem hr
    exact List.mem_filter.mpr ⟨hbound r hreach, decide_eq_true hreach⟩
  · have hr' : G.Reaches rs r := of_decide_eq_true (List.mem_filter.mp hr).2
    have hreach : G.Reaches rs c := hr'.of_children hcs (reaches_of_mem hc)
    exact List.mem_filter.mpr ⟨hbound c hreach, decide_eq_true hreach⟩

end Graph

/-! ### Outcomes in sequence -/

namespace Outcome

variable {ρ ε : Type}

/-- The outcome of a search that reported some records and found some. -/
def of (repeated found : List ρ) : Outcome ρ ε := ⟨repeated, .ok found⟩

/-- **One outcome after another**: nothing comes after a failure. -/
def andThen (o o' : Outcome ρ ε) : Outcome ρ ε :=
  match o.result with
  | .ok found => ⟨o.repeated ++ o'.repeated, o'.result.map (found ++ ·)⟩
  | .error e => ⟨o.repeated, .error e⟩

theorem of_nil_andThen (o : Outcome ρ ε) : (of [] []).andThen o = o := by
  obtain ⟨_, _ | _⟩ := o <;> simp [of, andThen, Except.map]

theorem andThen_assoc (o₁ o₂ o₃ : Outcome ρ ε) :
    (o₁.andThen o₂).andThen o₃ = o₁.andThen (o₂.andThen o₃) := by
  obtain ⟨_, _ | _⟩ := o₁ <;> obtain ⟨_, _ | _⟩ := o₂ <;> obtain ⟨_, _ | _⟩ := o₃ <;>
    simp [andThen, Except.map]

/-- **Two outcomes in sequence are no failure** just when neither is, and then the records of both
are found. -/
theorem andThen_result_eq_ok_iff {o o' : Outcome ρ ε} {found : List ρ} :
    (o.andThen o').result = .ok found ↔
      ∃ here there, o.result = .ok here ∧ o'.result = .ok there ∧ found = here ++ there := by
  obtain ⟨_, _ | here⟩ := o <;> obtain ⟨_, _ | there⟩ := o' <;>
    simp [andThen, Except.map, eq_comm]

end Outcome

/-! ### Visits -/

namespace Graph

variable {ρ ε : Type}

/-- The **outcome of a visit** to records, in order, while others are open. -/
inductive Visits (G : Graph ρ ε) (test : ρ → Except ε Bool) :
    List ρ → List ρ → Outcome ρ ε → Prop
  /-- There is no record left. -/
  | nil {opened : List ρ} : Visits G test opened [] (.of [] [])
  /-- The first record is open: it is reported and gives nothing. -/
  | again {opened rs : List ρ} {r : ρ} {o : Outcome ρ ε} : r ∈ opened →
      Visits G test opened rs o → Visits G test opened (r :: rs) ((Outcome.of [r] []).andThen o)
  /-- The test of the first record fails. -/
  | testFails {opened rs : List ρ} {r : ρ} {e : ε} : r ∉ opened → test r = .error e →
      Visits G test opened (r :: rs) ⟨[], .error e⟩
  /-- The children of the first record, which has been tested, cannot be read. -/
  | childrenFail {opened rs : List ρ} {r : ρ} {passed : Bool} {e : ε} : r ∉ opened →
      test r = .ok passed → G.children r = .error e →
      Visits G test opened (r :: rs) ⟨[], .error e⟩
  /-- The first record is found if it passes, then its children are visited while it is open, then
  the later records. -/
  | enter {opened rs cs : List ρ} {r : ρ} {passed : Bool} {o o' : Outcome ρ ε} : r ∉ opened →
      test r = .ok passed → G.children r = .ok cs → Visits G test (r :: opened) cs o →
      Visits G test opened rs o' → Visits G test opened (r :: rs)
        ((Outcome.of [] (if passed then [r] else [])).andThen (o.andThen o'))

section

variable {G : Graph ρ ε} {test : ρ → Except ε Bool} {opened xs ys : List ρ} {o o' : Outcome ρ ε}

/-- **Records are visited independently of those before them**, unless a failure came first. -/
theorem Visits.append (h : G.Visits test opened xs o) (h' : G.Visits test opened ys o') :
    G.Visits test opened (xs ++ ys) (o.andThen o') := by
  induction h with
  | nil => rwa [List.nil_append, Outcome.of_nil_andThen]
  | again hopen _ ih =>
    rw [List.cons_append, Outcome.andThen_assoc]
    exact .again hopen (ih h')
  | testFails hopen ht => exact .testFails hopen ht
  | childrenFail hopen ht hcs => exact .childrenFail hopen ht hcs
  | enter hopen ht hcs hbelow _ _ ihrs =>
    rw [List.cons_append, Outcome.andThen_assoc, Outcome.andThen_assoc]
    exact .enter hopen ht hcs hbelow (ihrs h')

/-- A visit fails only where a record that is reached cannot be tested or its children cannot be
read. -/
theorem Visits.exists_ok (h : G.Visits test opened xs o)
    (hok : ∀ r, G.Reaches xs r → (∃ passed, test r = .ok passed) ∧ ∃ cs, G.children r = .ok cs) :
    ∃ found, o.result = .ok found := by
  induction h with
  | nil => exact ⟨[], rfl⟩
  | @again opened rs r o _ _ ih =>
    obtain ⟨found, hfound⟩ := ih fun x hx => hok x (hx.cons r)
    exact ⟨_, Outcome.andThen_result_eq_ok_iff.mpr ⟨[], found, rfl, hfound, rfl⟩⟩
  | @testFails opened rs r e _ ht =>
    obtain ⟨⟨passed, hpassed⟩, -⟩ := hok r (reaches_of_mem List.mem_cons_self)
    rw [ht] at hpassed
    cases hpassed
  | @childrenFail opened rs r passed e _ _ hcs =>
    obtain ⟨-, cs, hcs'⟩ := hok r (reaches_of_mem List.mem_cons_self)
    rw [hcs] at hcs'
    cases hcs'
  | @enter opened rs cs r passed o o' _ _ hcs _ _ ihcs ihrs =>
    have hr : G.Reaches (r :: rs) r := reaches_of_mem List.mem_cons_self
    obtain ⟨here, hhere⟩ := ihcs fun x hx => hok x (hr.of_children hcs hx)
    obtain ⟨there, hthere⟩ := ihrs fun x hx => hok x (hx.cons r)
    have hboth : (o.andThen o').result = .ok (here ++ there) :=
      Outcome.andThen_result_eq_ok_iff.mpr ⟨here, there, hhere, hthere, rfl⟩
    exact ⟨_, Outcome.andThen_result_eq_ok_iff.mpr ⟨_, _, rfl, hboth, rfl⟩⟩

end

/-- How many members of a list are not open. -/
def unopened [DecidableEq ρ] (bound opened : List ρ) : Nat :=
  (bound.filter fun r => r ∉ opened).length

theorem unopened_cons_lt [DecidableEq ρ] {bound opened : List ρ} {r : ρ} (hr : r ∈ bound)
    (hopen : r ∉ opened) : unopened bound (r :: opened) < unopened bound opened := by
  have hfilter : bound.filter (fun x => x ∉ r :: opened) =
      (bound.filter fun x => x ∉ opened).filter fun x => x ≠ r := by
    rw [List.filter_filter]
    refine List.filter_congr fun x _ => ?_
    simp [List.mem_cons, not_or]
  rw [unopened, unopened, hfilter, List.length_filter_lt_length_iff_exists]
  exact ⟨r, List.mem_filter.mpr ⟨hr, decide_eq_true hopen⟩, by simp⟩

variable {G : Graph ρ ε} {test : ρ → Except ε Bool}

/-- Every visit within a closed list has an outcome: each opened record is new among the open ones,
and between two openings the records run out. -/
theorem exists_visits [DecidableEq ρ] (test : ρ → Except ε Bool) {bound : List ρ}
    (hbound : Closed G.children bound) (n : Nat) :
    ∀ opened, unopened bound opened = n → ∀ records, (∀ r ∈ records, r ∈ bound) →
      ∃ o, G.Visits test opened records o := by
  induction n using Nat.strongRecOn with
  | ind n ih =>
    intro opened hn records
    induction records with
    | nil => exact fun _ => ⟨_, .nil⟩
    | cons r rs ihs =>
      intro hmem
      obtain ⟨o', ho'⟩ := ihs fun x hx => hmem x (List.mem_cons_of_mem _ hx)
      by_cases hopen : r ∈ opened
      · exact ⟨_, .again hopen ho'⟩
      · -- a record that is not open is tested first, then its children are read
        cases ht : test r with
        | error e => exact ⟨_, .testFails hopen ht⟩
        | ok passed =>
          cases hcs : G.children r with
          | error e => exact ⟨_, .childrenFail hopen ht hcs⟩
          | ok cs =>
            have hr : r ∈ bound := hmem r List.mem_cons_self
            have hless : unopened bound (r :: opened) < n := hn ▸ unopened_cons_lt hr hopen
            obtain ⟨o, ho⟩ := ih _ hless (r :: opened) rfl cs (hbound r hr cs hcs)
            exact ⟨_, .enter hopen ht hcs ho ho'⟩

/-! ### Visits that are computed -/

/-- The outcome of a visit to records while others are open, **computed** within a number of steps to
siblings and children; none if these are too few. -/
def visitWithin [DecidableEq ρ] (G : Graph ρ ε) (test : ρ → Except ε Bool) :
    Nat → List ρ → List ρ → Option (Outcome ρ ε)
  | 0, _, _ => none
  | _ + 1, _, [] => some (.of [] [])
  | n + 1, opened, r :: rs =>
    if r ∈ opened then (visitWithin G test n opened rs).map (Outcome.of [r] []).andThen
    else match test r with
      | .error e => some ⟨[], .error e⟩
      | .ok passed =>
        match G.children r with
        | .error e => some ⟨[], .error e⟩
        | .ok cs =>
          (visitWithin G test n (r :: opened) cs).bind fun o =>
            (visitWithin G test n opened rs).map fun o' =>
              (Outcome.of [] (if passed then [r] else [])).andThen (o.andThen o')

/-- What is computed is the outcome of the visit. -/
theorem visits_of_visitWithin [DecidableEq ρ] {n : Nat} {opened records : List ρ} {o : Outcome ρ ε}
    (h : G.visitWithin test n opened records = some o) : G.Visits test opened records o := by
  induction n generalizing opened records o with
  | zero => cases h
  | succ n ih =>
    cases records with
    | nil =>
      cases h
      exact .nil
    | cons r rs =>
      rw [visitWithin] at h
      by_cases hopen : r ∈ opened
      · rw [if_pos hopen] at h
        obtain ⟨o', ho', rfl⟩ := Option.map_eq_some_iff.mp h
        exact .again hopen (ih ho')
      · rw [if_neg hopen] at h
        cases ht : test r with
        | error e =>
          rw [ht] at h
          cases h
          exact .testFails hopen ht
        | ok passed =>
          cases hcs : G.children r with
          | error e =>
            rw [ht, hcs] at h
            cases h
            exact .childrenFail hopen ht hcs
          | ok cs =>
            rw [ht, hcs] at h
            obtain ⟨o₁, ho₁, h⟩ := Option.bind_eq_some_iff.mp h
            obtain ⟨o₂, ho₂, rfl⟩ := Option.map_eq_some_iff.mp h
            exact .enter hopen ht hcs (ih ho₁) (ih ho₂)

end Graph

/-! ### The steps of a walk -/

namespace Walk

variable {ρ ε : Type} [DecidableEq ρ] [Hashable ρ]

/-- A walk **ends** when there is no endless sequence of steps from it. -/
def Ends (G : Graph ρ ε) (test : ρ → Except ε Bool) (w : Walk ρ) : Prop :=
  Acc (fun w' w => w.next G test = .further w') w

variable {G : Graph ρ ε} {test : ρ → Except ε Bool} {w w' : Walk ρ}

theorem ends_of_further (h : w.next G test = .further w') (hw' : w'.Ends G test) :
    w.Ends G test := by
  refine Acc.intro w fun v hv => ?_
  rw [h] at hv
  cases hv
  exact hw'

theorem ends_of_ended {o : Outcome ρ ε} (h : w.next G test = .ended o) : w.Ends G test := by
  refine Acc.intro w fun v hv => ?_
  rw [h] at hv
  cases hv

theorem run_of_further (h : w.next G test = .further w') : w.run G test = w'.run G test := by
  rw [run_eq, h]

theorem run_of_ended {o : Outcome ρ ε} (h : w.next G test = .ended o) : w.run G test = o := by
  rw [run_eq, h]

variable {siblings : List ρ} {owner : Option ρ} {rest : List (Frame ρ)}
  {ancestors : Std.ExtHashSet ρ} {found repeated : List ρ} {r : ρ}

theorem next_nil : (⟨[], ancestors, found, repeated⟩ : Walk ρ).next G test =
    .ended ⟨repeated.reverse, .ok found.reverse⟩ := rfl

theorem next_leave : (⟨⟨[], owner⟩ :: rest, ancestors, found, repeated⟩ : Walk ρ).next G test =
    .further ⟨rest, leave owner ancestors, found, repeated⟩ := rfl

theorem next_again (h : r ∈ ancestors) :
    (⟨⟨r :: siblings, owner⟩ :: rest, ancestors, found, repeated⟩ : Walk ρ).next G test =
      .further ⟨⟨siblings, owner⟩ :: rest, ancestors, found, r :: repeated⟩ := by
  rw [next, if_pos h]

theorem next_testFails (h : r ∉ ancestors) {e : ε} (ht : test r = .error e) :
    (⟨⟨r :: siblings, owner⟩ :: rest, ancestors, found, repeated⟩ : Walk ρ).next G test =
      .ended ⟨repeated.reverse, .error e⟩ := by
  rw [next, if_neg h, ht]

theorem next_childrenFail (h : r ∉ ancestors) {passed : Bool} (ht : test r = .ok passed) {e : ε}
    (hcs : G.children r = .error e) :
    (⟨⟨r :: siblings, owner⟩ :: rest, ancestors, found, repeated⟩ : Walk ρ).next G test =
      .ended ⟨repeated.reverse, .error e⟩ := by
  rw [next, if_neg h, ht, hcs]

theorem next_enter (h : r ∉ ancestors) {passed : Bool} (ht : test r = .ok passed) {cs : List ρ}
    (hcs : G.children r = .ok cs) :
    (⟨⟨r :: siblings, owner⟩ :: rest, ancestors, found, repeated⟩ : Walk ρ).next G test =
      .further ⟨⟨cs, some r⟩ :: ⟨siblings, owner⟩ :: rest, ancestors.insert r,
        if passed then r :: found else found, repeated⟩ := by
  rw [next, if_neg h, ht, hcs]

/-- A record that was opened is open no longer once its frame is left, and nothing else changes. -/
theorem leave_insert (h : r ∉ ancestors) : leave (some r) (ancestors.insert r) = ancestors := by
  refine Std.ExtHashSet.ext_mem fun x => ?_
  rw [leave, Std.ExtHashSet.mem_erase, Std.ExtHashSet.mem_insert]
  grind

theorem mem_insert_iff_mem_cons {opened : List ρ} (hopened : ∀ x, x ∈ ancestors ↔ x ∈ opened)
    (x : ρ) : x ∈ ancestors.insert r ↔ x ∈ r :: opened := by
  rw [Std.ExtHashSet.mem_insert, List.mem_cons, hopened, beq_iff_eq, eq_comm]

/-! ### A frame of a walk does what a visit does -/

/-- How a walk **goes on** with the other frames once its inner frame has had an outcome. -/
def resume (G : Graph ρ ε) (test : ρ → Except ε Bool) (o : Outcome ρ ε) (rest : List (Frame ρ))
    (ancestors : Std.ExtHashSet ρ) (found repeated : List ρ) : Outcome ρ ε :=
  match o.result with
  | .ok here => run G test ⟨rest, ancestors, here.reverse ++ found, o.repeated.reverse ++ repeated⟩
  | .error e => ⟨repeated.reverse ++ o.repeated, .error e⟩

/-- A walk that goes on with a frame goes on with the outcome of that frame behind. -/
theorem resume_andThen {o o' : Outcome ρ ε} {frame : Frame ρ} {ancestors' : Std.ExtHashSet ρ}
    (hframe : ∀ found repeated, run G test ⟨frame :: rest, ancestors, found, repeated⟩ =
      resume G test o' rest ancestors' found repeated) (found repeated : List ρ) :
    resume G test o (frame :: rest) ancestors found repeated =
      resume G test (o.andThen o') rest ancestors' found repeated := by
  obtain ⟨again, _ | here⟩ := o
  · rfl
  · rw [show resume G test ⟨again, .ok here⟩ (frame :: rest) ancestors found repeated =
      run G test ⟨frame :: rest, ancestors, here.reverse ++ found, again.reverse ++ repeated⟩
      from rfl, hframe]
    obtain ⟨again', _ | here'⟩ := o' <;> simp [resume, Outcome.andThen, Except.map]

theorem resume_of_andThen (o : Outcome ρ ε) (here again : List ρ) :
    resume G test ((Outcome.of again here).andThen o) rest ancestors found repeated =
      resume G test o rest ancestors (here.reverse ++ found) (again.reverse ++ repeated) := by
  obtain ⟨_, _ | _⟩ := o <;> simp [resume, Outcome.andThen, Outcome.of, Except.map]

/-- **A frame gives what the visit to its siblings gives**, and then the walk goes on without it: the
open records are again those from before the frame's owner was opened. The induction is on the
visit; a walk holds as open just the records that the visit is told of. -/
theorem run_frame {opened rs : List ρ} {o : Outcome ρ ε} (h : G.Visits test opened rs o) :
    ∀ (owner : Option ρ) (rest : List (Frame ρ)) (ancestors : Std.ExtHashSet ρ)
      (found repeated : List ρ), (∀ x, x ∈ ancestors ↔ x ∈ opened) →
      run G test ⟨⟨rs, owner⟩ :: rest, ancestors, found, repeated⟩ =
        resume G test o rest (leave owner ancestors) found repeated := by
  induction h with
  | nil =>
    intro owner rest ancestors found repeated _
    rw [run_of_further next_leave]
    rfl
  | again hopen _ ih =>
    intro owner rest ancestors found repeated hopened
    rw [run_of_further (next_again ((hopened _).mpr hopen)), ih _ _ _ _ _ hopened,
      resume_of_andThen]
    rfl
  | testFails hopen ht =>
    intro owner rest ancestors found repeated hopened
    rw [run_of_ended (next_testFails (mt (hopened _).mp hopen) ht)]
    simp [resume]
  | childrenFail hopen ht hcs =>
    intro owner rest ancestors found repeated hopened
    rw [run_of_ended (next_childrenFail (mt (hopened _).mp hopen) ht hcs)]
    simp [resume]
  | @enter opened rs cs r passed o o' hopen ht hcs _ _ ihcs ihrs =>
    intro owner rest ancestors found repeated hopened
    have hnew : r ∉ ancestors := mt (hopened r).mp hopen
    -- the new frame runs out, which closes the record, and then the frame below it goes on
    rw [run_of_further (next_enter hnew ht hcs),
      ihcs _ _ _ _ _ (mem_insert_iff_mem_cons hopened), leave_insert hnew,
      resume_andThen fun found repeated => ihrs owner rest ancestors found repeated hopened,
      resume_of_andThen]
    cases passed <;> rfl

/-- A walk ends if it ends without its inner frame. -/
theorem ends_frame {opened rs : List ρ} {o : Outcome ρ ε} (h : G.Visits test opened rs o) :
    ∀ (owner : Option ρ) (rest : List (Frame ρ)) (ancestors : Std.ExtHashSet ρ),
      (∀ x, x ∈ ancestors ↔ x ∈ opened) →
      (∀ found repeated, Ends G test ⟨rest, leave owner ancestors, found, repeated⟩) →
      ∀ found repeated, Ends G test ⟨⟨rs, owner⟩ :: rest, ancestors, found, repeated⟩ := by
  induction h with
  | nil => exact fun owner rest ancestors _ hrest _ _ => ends_of_further next_leave (hrest _ _)
  | again hopen _ ih =>
    intro owner rest ancestors hopened hrest found repeated
    exact ends_of_further (next_again ((hopened _).mpr hopen)) (ih _ _ _ hopened hrest _ _)
  | testFails hopen ht =>
    intro owner rest ancestors hopened _ found repeated
    exact ends_of_ended (next_testFails (mt (hopened _).mp hopen) ht)
  | childrenFail hopen ht hcs =>
    intro owner rest ancestors hopened _ found repeated
    exact ends_of_ended (next_childrenFail (mt (hopened _).mp hopen) ht hcs)
  | enter hopen ht hcs _ _ ihcs ihrs =>
    intro owner rest ancestors hopened hrest found repeated
    have hnew := mt (hopened _).mp hopen
    -- the frame of the children ends if the walk ends without it, which the later siblings show
    refine ends_of_further (next_enter hnew ht hcs) ?_
    refine ihcs _ _ _ (mem_insert_iff_mem_cons hopened) (fun found repeated => ?_) _ _
    rw [leave_insert hnew]
    exact ihrs owner rest ancestors hopened hrest found repeated

end Walk

/-! ### A search is a visit -/

namespace Graph

variable {ρ ε : Type} [DecidableEq ρ] [Hashable ρ] {G : Graph ρ ε} {test : ρ → Except ε Bool}
  {records : List ρ} {o : Outcome ρ ε}

/-- The outcome of a search is that of a visit, if the visit has one. -/
theorem Visits.search_eq (h : G.Visits test [] records o) : G.search true test records = o := by
  rw [search, if_pos rfl, Walk.start, Walk.run_frame h _ _ _ _ _ fun x => by simp]
  obtain ⟨again, _ | here⟩ := o
  · simp [Walk.resume]
  · simp [Walk.resume, Walk.leave, Walk.run_of_ended Walk.next_nil]

/-- Where finitely many records are reached, the outcome of a search is that of a visit. -/
theorem FiniteBelow.visits_search (h : G.FiniteBelow records) (test : ρ → Except ε Bool) :
    G.Visits test [] records (G.search true test records) := by
  obtain ⟨bound, hrecords, hbound⟩ := h.exists_closed
  obtain ⟨o, ho⟩ := exists_visits test hbound _ [] rfl records hrecords
  rwa [ho.search_eq]

/-- **A search of all records below ends, and its outcome is that of the recursion**: the same
records are found, the same are reported, and the same failure ends it. -/
theorem search_eq_iff_visits (h : G.FiniteBelow records) (test : ρ → Except ε Bool) :
    (Walk.start records).Ends G test ∧
      ∀ o, G.search true test records = o ↔ G.Visits test [] records o := by
  have hvisits : G.Visits test [] records (G.search true test records) := h.visits_search test
  constructor
  · refine Walk.ends_frame hvisits none [] ∅ (fun x => by simp) (fun found repeated => ?_) [] []
    exact Walk.ends_of_ended Walk.next_nil
  · intro o
    constructor
    · rintro rfl
      exact hvisits
    · exact Visits.search_eq

end Graph

/-! ### A search that is cut short -/

/-- A record with two children, the first of which has the record as its child, and the second of
which cannot be read. -/
def knot : Graph Nat String where
  children
    | 0 => .ok [1, 2]
    | 1 => .ok [0]
    | 2 => .error "unreadable"
    | _ => .ok []

theorem knot_finiteBelow : knot.FiniteBelow [0] := by
  have hclosed : Closed knot.children [0, 1, 2] := by
    intro r hr cs hcs
    simp only [List.mem_cons, List.not_mem_nil, or_false] at hr
    rcases hr with rfl | rfl | rfl <;> cases hcs <;> simp
  exact Graph.finiteBelow_of_closed (by simp) hclosed

/-- The search of the knot reports the record below itself and ends at the unreadable child. -/
theorem search_knot :
    knot.FiniteBelow [0] ∧ (Walk.start [0]).Ends knot (fun _ => .ok true) ∧
      knot.search true (fun _ => .ok true) [0] = ⟨[0], .error "unreadable"⟩ := by
  obtain ⟨hends, hiff⟩ := Graph.search_eq_iff_visits knot_finiteBelow fun _ => .ok true
  refine ⟨knot_finiteBelow, hends, (hiff _).mpr ?_⟩
  have hnew : (0 : Nat) ∉ ([] : List Nat) ∧ 1 ∉ [0] ∧ 2 ∉ [0] := by decide
  have hopen : (0 : Nat) ∈ [1, 0] := by decide
  have hsecond : knot.Visits (fun _ => .ok true) [0] [2] ⟨[], .error "unreadable"⟩ :=
    .childrenFail hnew.2.2 rfl rfl
  have hfirst : knot.Visits (fun _ => .ok true) [0] [1, 2] ⟨[0], .error "unreadable"⟩ :=
    .enter hnew.2.1 rfl rfl (.again hopen .nil) hsecond
  exact .enter hnew.1 rfl rfl hfirst .nil

end RecordQuery
