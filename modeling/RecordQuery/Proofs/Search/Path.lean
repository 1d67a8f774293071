import Mathlib.Data.List.Chain
import Mathlib.Logic.Relation
import RecordQuery.Proofs.Search.Visit

/-! # The open records of a walk are a path

A walk keeps the open records twice: as the owners of its frames, in order, and as a set, which a
step looks into. Both agree between any two steps. No record is open twice, so the set forgets just
one record when a frame is left; and each open record was given by the frame below its own, so the
open records are a path from a given record down to the one whose children are being visited.

* `Frame.source`, `Frame.Gave`: what a frame goes through, and the record that it gave last.
* `Walk.OnPath`: the frames lie along a path, and its records are the open ones.
* `Walk.OnPath.next`: a step keeps this.
* `Walk.Reached`: a walk is reached by steps from the start.
* `Walk.Reached.open_along_path`: what is open at every step of a search. -/

namespace RecordQuery

variable {ρ ε : Type}

/-! ### Frames on one another -/

namespace Frame

/-- The records that a frame **goes through**: the children of its owner, or the given records. -/
def source (G : Graph ρ ε) (records : List ρ) (f : Frame ρ) : Except ε (List ρ) :=
  match f.owner with
  | none => .ok records
  | some r => G.children r

/-- The siblings left are **the last ones** of those that a frame goes through. -/
def Within (G : Graph ρ ε) (records : List ρ) (f : Frame ρ) : Prop :=
  ∃ cs, f.source G records = .ok cs ∧ f.siblings <:+ cs

/-- The record that a frame **gave last**: behind it there are just the siblings left. -/
def Gave (G : Graph ρ ε) (records : List ρ) (f : Frame ρ) (r : ρ) : Prop :=
  ∃ before, f.source G records = .ok (before ++ r :: f.siblings)

/-- A frame **lies on** the one that gave its owner last. -/
def LiesOn (G : Graph ρ ε) (records : List ρ) (upper lower : Frame ρ) : Prop :=
  ∃ r ∈ upper.owner, lower.Gave G records r

/-- The **owners** of some frames, in order. -/
def owners (frames : List (Frame ρ)) : List ρ := frames.filterMap (·.owner)

variable {G : Graph ρ ε} {records siblings : List ρ} {owner : Option ρ} {frames : List (Frame ρ)}
  {r : ρ}

theorem owners_cons (siblings : List ρ) (owner : Option ρ) (frames : List (Frame ρ)) :
    owners (⟨siblings, owner⟩ :: frames) = owner.toList ++ owners frames := by
  cases owner <;> rfl

theorem mem_owners_cons_iff :
    r ∈ owners (⟨siblings, owner⟩ :: frames) ↔ owner = some r ∨ r ∈ owners frames := by
  rw [owners_cons, List.mem_append, Option.mem_toList]

/-- Once a frame has given a record, the siblings left are still the last ones. -/
theorem Within.tail (h : Within G records ⟨r :: siblings, owner⟩) :
    Within G records ⟨siblings, owner⟩ := by
  obtain ⟨cs, hsource, hsuffix⟩ := h
  exact ⟨cs, hsource, (List.suffix_cons r siblings).trans hsuffix⟩

/-- The first of the siblings left is the record that the frame gives next. -/
theorem Within.gave (h : Within G records ⟨r :: siblings, owner⟩) :
    Gave G records ⟨siblings, owner⟩ r := by
  obtain ⟨cs, hsource, before, rfl⟩ := h
  exact ⟨before, hsource⟩

end Frame

/-! ### What a step does -/

namespace Walk

variable [DecidableEq ρ] [Hashable ρ]

/-- What one step **does**, by the frame that it looks at. -/
inductive Does (G : Graph ρ ε) (test : ρ → Except ε Bool) : Walk ρ → Progress ρ ε → Prop
  /-- There is no frame: the walk has ended. -/
  | finishes {ancestors : Std.ExtHashSet ρ} {found repeated : List ρ} :
      Does G test ⟨[], ancestors, found, repeated⟩ (.ended ⟨repeated.reverse, .ok found.reverse⟩)
  /-- The innermost frame is empty and left. -/
  | leaves {owner : Option ρ} {rest : List (Frame ρ)} {ancestors : Std.ExtHashSet ρ}
      {found repeated : List ρ} :
      Does G test ⟨⟨[], owner⟩ :: rest, ancestors, found, repeated⟩
        (.further ⟨rest, leave owner ancestors, found, repeated⟩)
  /-- The next sibling is open and reported. -/
  | skips {r : ρ} {siblings : List ρ} {owner : Option ρ} {rest : List (Frame ρ)}
      {ancestors : Std.ExtHashSet ρ} {found repeated : List ρ} : r ∈ ancestors →
      Does G test ⟨⟨r :: siblings, owner⟩ :: rest, ancestors, found, repeated⟩
        (.further ⟨⟨siblings, owner⟩ :: rest, ancestors, found, r :: repeated⟩)
  /-- The next sibling is opened. -/
  | opens {r : ρ} {siblings cs : List ρ} {owner : Option ρ} {rest : List (Frame ρ)}
      {ancestors : Std.ExtHashSet ρ} {found repeated : List ρ} {passed : Bool} : r ∉ ancestors →
      test r = .ok passed → G.children r = .ok cs →
      Does G test ⟨⟨r :: siblings, owner⟩ :: rest, ancestors, found, repeated⟩
        (.further ⟨⟨cs, some r⟩ :: ⟨siblings, owner⟩ :: rest, ancestors.insert r,
          if passed then r :: found else found, repeated⟩)
  /-- The test of the next sibling fails, or its children cannot be read. -/
  | fails {w : Walk ρ} {e : ε} : Does G test w (.ended ⟨w.repeated.reverse, .error e⟩)

theorem does_next (G : Graph ρ ε) (test : ρ → Except ε Bool) (w : Walk ρ) :
    Does G test w (w.next G test) := by
  obtain ⟨_ | ⟨⟨_ | ⟨r, siblings⟩, owner⟩, rest⟩, ancestors, found, repeated⟩ := w
  · exact .finishes
  · exact .leaves
  · by_cases hr : r ∈ ancestors
    · rw [next_again hr]
      exact .skips hr
    · cases ht : test r with
      | error e =>
        rw [next_testFails hr ht]
        exact .fails
      | ok passed =>
        cases hcs : G.children r with
        | error e =>
          rw [next_childrenFail hr ht hcs]
          exact .fails
        | ok cs =>
          rw [next_enter hr ht hcs]
          exact .opens hr ht hcs

/-! ### What holds between two steps -/

/-- The frames of a walk lie **along a path**, and its records are the open ones. -/
structure OnPath (G : Graph ρ ε) (records : List ρ) (w : Walk ρ) : Prop where
  /-- No record owns two frames. -/
  owners_nodup : (Frame.owners w.stack).Nodup
  /-- The open records are the owners. -/
  mem_ancestors_iff : ∀ r, r ∈ w.ancestors ↔ r ∈ Frame.owners w.stack
  /-- The siblings left in a frame are the last ones of those that it goes through. -/
  within : ∀ f ∈ w.stack, f.Within G records
  /-- Each frame lies on the one below it, which gave its owner. -/
  stacked : w.stack.IsChain (Frame.LiesOn G records)
  /-- The outermost frame goes through the given records. -/
  outermost : ∀ f ∈ w.stack.getLast?, f.owner = none

namespace OnPath

variable {G : Graph ρ ε} {test : ρ → Except ε Bool} {records siblings : List ρ} {owner : Option ρ}
  {rest : List (Frame ρ)} {ancestors : Std.ExtHashSet ρ} {found repeated : List ρ} {r : ρ}
  {w w' : Walk ρ}

/-- At the start no record is open. -/
theorem start (G : Graph ρ ε) (records : List ρ) : OnPath G records (Walk.start records) where
  owners_nodup := List.nodup_nil
  mem_ancestors_iff r := iff_of_false Std.ExtHashSet.not_mem_empty List.not_mem_nil
  within := List.forall_mem_singleton.mpr ⟨records, rfl, List.suffix_refl _⟩
  stacked := List.isChain_singleton _
  outermost := by
    rintro f ⟨⟩
    rfl

/-- The owner of the innermost frame owns no other frame. -/
theorem not_mem_owners_rest
    (h : OnPath G records ⟨⟨siblings, owner⟩ :: rest, ancestors, found, repeated⟩)
    (hr : owner = some r) : r ∉ Frame.owners rest := by
  have hnodup := h.owners_nodup
  subst hr
  exact (List.nodup_cons.mp hnodup).1

/-- What is open once a frame is left are the owners of the other frames. -/
theorem mem_leave_iff
    (h : OnPath G records ⟨⟨siblings, owner⟩ :: rest, ancestors, found, repeated⟩) :
    r ∈ Walk.leave owner ancestors ↔ r ∈ Frame.owners rest := by
  have hancestors := h.mem_ancestors_iff r
  rw [Frame.mem_owners_cons_iff] at hancestors
  cases owner with
  | none => simpa [Walk.leave] using hancestors
  | some s =>
    -- the record that is closed is not open in another frame
    have hs := h.not_mem_owners_rest rfl
    rw [Walk.leave, Std.ExtHashSet.mem_erase, hancestors]
    grind

/-- **Leaving a frame** keeps the path, without its last record. -/
theorem leave (h : OnPath G records ⟨⟨[], owner⟩ :: rest, ancestors, found, repeated⟩) :
    OnPath G records ⟨rest, Walk.leave owner ancestors, found, repeated⟩ where
  owners_nodup := by
    have hnodup := h.owners_nodup
    rw [Frame.owners_cons] at hnodup
    exact (List.nodup_append.mp hnodup).2.1
  mem_ancestors_iff _ := h.mem_leave_iff
  within f hf := h.within f (List.mem_cons_of_mem _ hf)
  stacked := h.stacked.tail
  outermost f hf := h.outermost f (List.mem_getLast?_cons hf)

/-- **Skipping a record** keeps the path. -/
theorem again (h : OnPath G records ⟨⟨r :: siblings, owner⟩ :: rest, ancestors, found, repeated⟩) :
    OnPath G records ⟨⟨siblings, owner⟩ :: rest, ancestors, found, r :: repeated⟩ where
  owners_nodup := h.owners_nodup
  mem_ancestors_iff := h.mem_ancestors_iff
  within := by
    obtain ⟨hfirst, hrest⟩ := List.forall_mem_cons.mp h.within
    exact List.forall_mem_cons.mpr ⟨hfirst.tail, hrest⟩
  stacked := by
    have hstacked := h.stacked
    cases rest with
    | nil => exact List.isChain_singleton _
    | cons f rest =>
      obtain ⟨hfirst, hrest⟩ := List.isChain_cons_cons.mp hstacked
      exact List.isChain_cons_cons.mpr ⟨hfirst, hrest⟩
  outermost := by
    have houtermost := h.outermost
    cases rest with
    | nil =>
      rintro f ⟨⟩
      exact houtermost ⟨r :: siblings, owner⟩ rfl
    | cons f rest => exact houtermost

/-- **Opening a record** that is not open keeps the path, with this record at its end. -/
theorem enter (h : OnPath G records ⟨⟨r :: siblings, owner⟩ :: rest, ancestors, found, repeated⟩)
    (hr : r ∉ ancestors) {cs : List ρ} (hcs : G.children r = .ok cs) (found' : List ρ) :
    OnPath G records
      ⟨⟨cs, some r⟩ :: ⟨siblings, owner⟩ :: rest, ancestors.insert r, found', repeated⟩ where
  owners_nodup := List.nodup_cons.mpr ⟨mt (h.mem_ancestors_iff r).mpr hr, h.owners_nodup⟩
  mem_ancestors_iff := mem_insert_iff_mem_cons h.mem_ancestors_iff
  within := by
    have hnew : Frame.Within G records ⟨cs, some r⟩ := ⟨cs, hcs, List.suffix_refl _⟩
    exact List.forall_mem_cons.mpr ⟨hnew, h.again.within⟩
  stacked := by
    have hgave := (h.within _ List.mem_cons_self).gave
    exact List.isChain_cons_cons.mpr ⟨⟨r, rfl, hgave⟩, h.again.stacked⟩
  outermost := h.again.outermost

/-- **A step keeps the path.** -/
theorem next (h : OnPath G records w) (hnext : w.next G test = .further w') :
    OnPath G records w' := by
  have hdoes := does_next G test w
  rw [hnext] at hdoes
  cases hdoes with
  | leaves => exact h.leave
  | skips _ => exact h.again
  | opens hr _ hcs => exact h.enter hr hcs _

/-- **No record is open** while the next given record is taken, nor once no frame is left. -/
theorem ancestors_eq_empty (h : OnPath G records w) (hlength : w.stack.length ≤ 1) :
    w.ancestors = ∅ := by
  have howners : Frame.owners w.stack = [] := by
    have houtermost := h.outermost
    obtain ⟨_ | ⟨⟨siblings, owner⟩, _ | ⟨f, rest⟩⟩, ancestors, found, repeated⟩ := w
    · rfl
    · rw [Frame.owners_cons, show owner = none from houtermost _ rfl]
      rfl
    · simp at hlength
  refine Std.ExtHashSet.ext_mem fun r => ?_
  rw [h.mem_ancestors_iff r, howners]
  simp

end OnPath

/-! ### At every step of a search -/

/-- A walk is **reached** by steps from its start over the given records. -/
def Reached (G : Graph ρ ε) (test : ρ → Except ε Bool) (records : List ρ) : Walk ρ → Prop :=
  Relation.ReflTransGen (fun w w' => w.next G test = .further w') (start records)

variable {G : Graph ρ ε} {test : ρ → Except ε Bool} {records : List ρ} {w : Walk ρ}

/-- A search goes on from every walk that it reaches. -/
theorem Reached.search_eq (h : Reached G test records w) :
    G.search true test records = w.run G test := by
  induction h with
  | refl => rfl
  | tail _ hnext ih => rw [ih, run_of_further hnext]

/-- **The frames lie along a path at every step.** The induction is on the steps taken. -/
theorem Reached.onPath (h : Reached G test records w) : OnPath G records w := by
  induction h with
  | refl => exact .start G records
  | tail _ hnext ih => exact ih.next hnext

/-- A walk that ends without a failure has no frame left. -/
theorem stack_eq_nil_of_ended {o : Outcome ρ ε} {here : List ρ} (hnext : w.next G test = .ended o)
    (hok : o.result = .ok here) : w.stack = [] := by
  have hdoes := does_next G test w
  rw [hnext] at hdoes
  cases hdoes with
  | finishes => rfl
  | fails => cases hok

/-- **What is open lies along a path**, at every step of a search of any records below others, with
any test. The set of the open records is that of the owners of the frames, none of which owns two;
each frame was given by the one below it and goes through the last children of its owner. So a frame
that is left closes its own record, which was open, and none that is still on the path. No record is
open while the next given record is taken, nor when the search ends without a failure. -/
theorem Reached.open_along_path (h : Reached G test records w) :
    G.search true test records = w.run G test ∧ w.OnPath G records ∧
      (∀ owner rest, w.stack = ⟨[], owner⟩ :: rest →
        ∃ w', w.next G test = .further w' ∧ w'.stack = rest ∧
          (∀ r ∈ owner, r ∈ w.ancestors ∧ r ∉ Frame.owners rest) ∧
          (∀ r, r ∈ w'.ancestors ↔ r ∈ w.ancestors ∧ owner ≠ some r) ∧
          ∀ r, r ∈ w'.ancestors ↔ r ∈ Frame.owners rest) ∧
      (∀ f, w.stack = [f] → w.ancestors = ∅) ∧
      ∀ o here, w.next G test = .ended o → o.result = .ok here →
        w.stack = [] ∧ w.ancestors = ∅ := by
  have hpath := h.onPath
  refine ⟨h.search_eq, hpath, fun owner rest hstack => ?_, fun f hstack => ?_,
    fun o here hnext hok => ?_⟩
  · obtain ⟨_, ancestors, found, repeated⟩ := w
    subst hstack
    refine ⟨_, next_leave, rfl, fun r hr => ⟨?_, hpath.not_mem_owners_rest hr⟩, fun r => ?_,
      fun r => hpath.mem_leave_iff⟩
    · exact (hpath.mem_ancestors_iff r).mpr (Frame.mem_owners_cons_iff.mpr (Or.inl hr))
    · rw [hpath.mem_leave_iff, hpath.mem_ancestors_iff r, Frame.mem_owners_cons_iff]
      have hrest : owner = some r → r ∉ Frame.owners rest := hpath.not_mem_owners_rest
      tauto
  · exact hpath.ancestors_eq_empty (by rw [hstack, List.length_singleton])
  · have hstack := stack_eq_nil_of_ended hnext hok
    exact ⟨hstack, hpath.ancestors_eq_empty (by rw [hstack]; exact Nat.zero_le 1)⟩

end Walk

/-! ### Two open records -/

/-- The walk over the knot that has met the record below itself: two records are open. -/
def inKnot : Walk Nat where
  stack := [⟨[], some 1⟩, ⟨[2], some 0⟩, ⟨[], none⟩]
  ancestors := (Std.ExtHashSet.insert ∅ 0).insert 1
  found := [1, 0]
  repeated := [0]

theorem inKnot_reached : Walk.Reached knot (fun _ => .ok true) [0] inKnot := by
  have hempty : (0 : Nat) ∉ (∅ : Std.ExtHashSet Nat) := Std.ExtHashSet.not_mem_empty
  have hupper : 0 ∈ (Std.ExtHashSet.insert ∅ 0).insert 1 := by simp
  have hlower : 1 ∉ Std.ExtHashSet.insert ∅ 0 := by simp
  have hfirst : Walk.Reached knot (fun _ => .ok true) [0] _ :=
    .single (Walk.next_enter hempty rfl rfl)
  have hsecond : Walk.Reached knot (fun _ => .ok true) [0] _ :=
    hfirst.tail (Walk.next_enter hlower rfl rfl)
  exact hsecond.tail (Walk.next_again hupper)

/-- The walk that has met the record below itself leaves the frame of the lower record, and then
just the upper one is open. -/
theorem open_along_path_inKnot :
    Walk.Reached knot (fun _ => .ok true) [0] inKnot ∧ inKnot.OnPath knot [0] ∧
      ∃ w', inKnot.next knot (fun _ => .ok true) = .further w' ∧
        ∀ r, r ∈ w'.ancestors ↔ r ∈ [0] := by
  obtain ⟨-, hpath, hleave, -, -⟩ := inKnot_reached.open_along_path
  obtain ⟨w', hnext, -, -, -, hopen⟩ := hleave (some 1) _ rfl
  exact ⟨inKnot_reached, hpath, w', hnext, hopen⟩

end RecordQuery
