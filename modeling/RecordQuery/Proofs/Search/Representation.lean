import RecordQuery.Proofs.Search.Cycle
import RecordQuery.Proofs.Search.Matches

/-! # What is found does not depend on how records are represented

Two views may show the same records in two forms. If related records have the same texts, as far as
the selector compares them, and their children are related one by one, then a locator finds related
records in both. Identity enters a search only where a trail repeats a record, so it is enough that
trails repeat records alike: because the relation keeps records apart, or because no trail repeats a
record at all. In the second case a shared record may be related to many copies of itself.

* `View.Agree`: two views agree on related records, as far as parts look at them.
* `View.RepeatAlike`: related trails repeat records alike.
* `View.Agree.chain`: match chains lead to related records.
* `View.find_related`: a locator finds related records. -/

namespace RecordQuery

/-! ### Related lists -/

section

variable {α β : Type} {R : α → β → Prop} {xs : List α} {ys : List β}

/-- What stands at a position of one list is related to what stands there in the other. -/
theorem exists_getElem?_of_forall₂ (h : List.Forall₂ R xs ys) {i : Nat} {x : α}
    (hx : xs[i]? = some x) : ∃ y, ys[i]? = some y ∧ R x y := by
  induction h generalizing i with
  | nil =>
    rw [List.getElem?_nil] at hx
    cases hx
  | @cons a b xs ys hab _ ih =>
    cases i with
    | zero =>
      rw [List.getElem?_cons_zero, Option.some.injEq] at hx
      exact ⟨b, List.getElem?_cons_zero, hx ▸ hab⟩
    | succ i =>
      rw [List.getElem?_cons_succ] at hx ⊢
      exact ih hx

theorem exists_related_of_mem (h : List.Forall₂ R xs ys) {x : α} (hx : x ∈ xs) :
    ∃ y ∈ ys, R x y := by
  obtain ⟨i, hi⟩ := List.getElem?_of_mem hx
  obtain ⟨y, hy, hxy⟩ := exists_getElem?_of_forall₂ h hi
  exact ⟨y, List.mem_of_getElem? hy, hxy⟩

/-- Related lists are related with what is known of their members. -/
theorem forall₂_and_mem {P : α → Prop} {Q : β → Prop} (h : List.Forall₂ R xs ys)
    (hP : ∀ x ∈ xs, P x) (hQ : ∀ y ∈ ys, Q y) :
    List.Forall₂ (fun x y => R x y ∧ P x ∧ Q y) xs ys := by
  induction h with
  | nil => exact .nil
  | cons hab _ ih =>
    obtain ⟨ha, hxs⟩ := List.forall_mem_cons.mp hP
    obtain ⟨hb, hys⟩ := List.forall_mem_cons.mp hQ
    exact .cons ⟨hab, ha, hb⟩ (ih hxs hys)

theorem forall₂_and_left {P : α → Prop} (h : List.Forall₂ R xs ys) (hP : ∀ x ∈ xs, P x) :
    List.Forall₂ (fun x y => R x y ∧ P x) xs ys :=
  (forall₂_and_mem h hP fun _ _ => trivial).imp fun _ _ ⟨hxy, hx, _⟩ => ⟨hxy, hx⟩

end

namespace View

variable {ρ ρ' ε ε' : Type}

/-- Two views **agree** on related records, as far as parts look at them: the labels can be read and
have the same text or none, so has each attribute that a condition of the parts names, and the
children can be read and are related one by one. -/
structure Agree (V : View ρ ε) (W : View ρ' ε') (parts : List Part) (R : ρ → ρ' → Prop) : Prop where
  /-- Labels have the same text, or none. -/
  label : ∀ r r', R r r' → ∀ kind, ∃ text, V.label kind r = .ok text ∧ W.label kind r' = .ok text
  /-- Attributes that are compared have the same text, or none. -/
  property : ∀ r r', R r r' → ∀ p ∈ parts, ∀ c ∈ p.condition,
    V.property c.property r = W.property c.property r'
  /-- Children are related one by one. -/
  children : ∀ r r', R r r' → ∃ cs cs', V.children r = .ok cs ∧ W.children r' = .ok cs' ∧
    List.Forall₂ R cs cs'

/-- A relation **within what is reached** from given records on both sides. -/
def BothReached (V : View ρ ε) (W : View ρ' ε') (R : ρ → ρ' → Prop) (seeds : List ρ)
    (seeds' : List ρ') (r : ρ) (r' : ρ') : Prop :=
  R r r' ∧ V.Reaches seeds r ∧ W.Reaches seeds' r'

/-- Related trails **repeat records alike**: one of them repeats no record just if the other repeats
none. -/
def RepeatAlike (V : View ρ ε) (W : View ρ' ε') (R : ρ → ρ' → Prop) : Prop :=
  ∀ candidates candidates' s path path', List.Forall₂ R candidates candidates' →
    V.Trail candidates s path → W.Trail candidates' s path' → List.Forall₂ R path path' →
    (path.Nodup ↔ path'.Nodup)

variable {V : View ρ ε} {W : View ρ' ε'} {R : ρ → ρ' → Prop} {parts ps : List Part} {p : Part}
  {seeds candidates : List ρ} {seeds' candidates' : List ρ'} {r : ρ} {r' : ρ'} {s : List Nat}
  {path : List ρ}

/-! ### The relation seen from the other side -/

theorem Agree.symm (h : V.Agree W parts R) : W.Agree V parts (flip R) where
  label r' r hr kind := by
    obtain ⟨text, htext, htext'⟩ := h.label r r' hr kind
    exact ⟨text, htext', htext⟩
  property r' r hr p hp c hc := (h.property r r' hr p hp c hc).symm
  children r' r hr := by
    obtain ⟨cs, cs', hcs, hcs', hrelated⟩ := h.children r r' hr
    exact ⟨cs', cs, hcs', hcs, hrelated.flip⟩

theorem RepeatAlike.symm (h : V.RepeatAlike W R) : W.RepeatAlike V (flip R) :=
  fun candidates' candidates s path' path hcandidates htrail' htrail hpath =>
    (h candidates candidates' s path path' hcandidates.flip htrail htrail' hpath.flip).symm

/-- Views agree on related records that are reached, since the children of these are reached. -/
theorem Agree.bothReached (h : V.Agree W parts R) (seeds : List ρ) (seeds' : List ρ') :
    V.Agree W parts (V.BothReached W R seeds seeds') where
  label r r' hr := h.label r r' hr.1
  property r r' hr := h.property r r' hr.1
  children r r' hr := by
    obtain ⟨hrelated, hreach, hreach'⟩ := hr
    obtain ⟨cs, cs', hcs, hcs', hchildren⟩ := h.children r r' hrelated
    refine ⟨cs, cs', hcs, hcs', forall₂_and_mem hchildren (fun c hc => ?_) fun c' hc' => ?_⟩
    · exact hreach.of_children hcs (Graph.reaches_of_mem hc)
    · exact hreach'.of_children hcs' (Graph.reaches_of_mem hc')

theorem forall₂_bothReached (h : List.Forall₂ R seeds seeds') :
    List.Forall₂ (V.BothReached W R seeds seeds') seeds seeds' :=
  forall₂_and_mem h (fun _ => Graph.reaches_of_mem) fun _ => Graph.reaches_of_mem

/-! ### When trails repeat records alike -/

/-- A relation that **keeps records apart** repeats them alike. -/
theorem repeatAlike_of_biUnique (h : Relator.BiUnique R) : V.RepeatAlike W R :=
  fun _ _ _ _ _ _ _ _ hpath => List.rel_nodup h hpath

theorem acyclic_of_bothReached (h : V.Acyclic seeds)
    (hcandidates : List.Forall₂ (V.BothReached W R seeds seeds') candidates candidates') :
    V.Acyclic candidates := by
  refine h.of_reaches ?_
  rintro s ⟨r, hr, hbelow⟩
  obtain ⟨r', -, -, ⟨x, hx, hxr⟩, -⟩ := exists_related_of_mem hcandidates hr
  exact ⟨x, hx, hxr.trans hbelow⟩

/-- Where there is **no cycle** on either side, no trail repeats a record. -/
theorem repeatAlike_of_acyclic (h : V.Acyclic seeds) (h' : W.Acyclic seeds') :
    V.RepeatAlike W (V.BothReached W R seeds seeds') := by
  intro candidates candidates' s path path' hcandidates htrail htrail' _
  have hcandidates' : List.Forall₂ (W.BothReached V (flip R) seeds' seeds) candidates' candidates :=
    (hcandidates.imp fun _ _ ⟨hrelated, hreach, hreach'⟩ => ⟨hrelated, hreach', hreach⟩).flip
  exact iff_of_true ((acyclic_of_bothReached h hcandidates).nodup htrail)
    ((acyclic_of_bothReached h' hcandidates').nodup htrail')

/-! ### What is related follows the search -/

/-- **Positions lead through related records** in both views. -/
theorem Agree.trail (h : V.Agree W parts R) (hcandidates : List.Forall₂ R candidates candidates')
    (htrail : V.Trail candidates s path) :
    ∃ path', W.Trail candidates' s path' ∧ List.Forall₂ R path path' := by
  induction htrail generalizing candidates' with
  | stop hr =>
    obtain ⟨r', hr', hrelated⟩ := exists_getElem?_of_forall₂ hcandidates hr
    exact ⟨[r'], .stop hr', .cons hrelated .nil⟩
  | step hr hcs _ ih =>
    obtain ⟨r', hr', hrelated⟩ := exists_getElem?_of_forall₂ hcandidates hr
    obtain ⟨cs, cs', hcs₁, hcs', hchildren⟩ := h.children _ _ hrelated
    rw [hcs, Except.ok.injEq] at hcs₁
    subst hcs₁
    obtain ⟨path', htrail', hpath⟩ := ih hchildren
    exact ⟨r' :: path', .step hr' hcs' htrail', .cons hrelated hpath⟩

theorem Agree.fits (h : V.Agree W parts R) (hp : p ∈ parts) (hr : R r r') (hfits : V.Fits p r) :
    W.Fits p r' := by
  obtain ⟨hlabel, hcondition⟩ := hfits
  obtain ⟨text, htext, htext'⟩ := h.label r r' hr p.kind
  rw [hlabel, Except.ok.injEq] at htext
  subst htext
  exact ⟨htext', fun c hc => (h.property r r' hr p hp c hc) ▸ hcondition c hc⟩

/-- A related path ends in a related record, and is as long before it. -/
theorem exists_snoc_of_forall₂ {path' : List ρ'} (h : List.Forall₂ R (path ++ [r]) path') :
    ∃ init r', path' = init ++ [r'] ∧ R r r' ∧ (path = [] → init = []) := by
  induction path generalizing path' with
  | nil =>
    cases h with
    | cons hr hnil =>
      cases hnil
      exact ⟨[], _, rfl, hr, fun _ => rfl⟩
  | cons x path ih =>
    cases h with
    | cons hx hrest =>
      obtain ⟨init, r', rfl, hr, -⟩ := ih hrest
      exact ⟨_ :: init, r', rfl, hr, fun h => absurd h (List.cons_ne_nil _ _)⟩

/-- **Segments end in related records.** -/
theorem Agree.segment (h : V.Agree W parts R) (hrepeat : V.RepeatAlike W R) (hp : p ∈ parts)
    (hcandidates : List.Forall₂ R candidates candidates') (hs : V.Segment p candidates s r) :
    ∃ r', W.Segment p candidates' s r' ∧ R r r' := by
  obtain ⟨path, htrail, hnodup, hdirect, hfits⟩ := hs
  obtain ⟨path', htrail', hpath⟩ := h.trail hcandidates htrail
  have hnodup' : path'.Nodup :=
    (hrepeat _ _ _ _ _ hcandidates htrail htrail' hpath).mp hnodup
  obtain ⟨init, r', rfl, hr, hinit⟩ := exists_snoc_of_forall₂ hpath
  exact ⟨r', ⟨init, htrail', hnodup', fun hp => hinit (hdirect hp), h.fits hp hr hfits⟩, hr⟩

/-- **Match chains end in related records.** -/
theorem Agree.chain (h : V.Agree W parts R) (hrepeat : V.RepeatAlike W R)
    (hps : ∀ p ∈ ps, p ∈ parts) (hcandidates : List.Forall₂ R candidates candidates')
    {segments : List (List Nat)} (hchain : V.Chain ps candidates segments r) :
    ∃ r', W.Chain ps candidates' segments r' ∧ R r r' := by
  induction hchain generalizing candidates' with
  | last hs =>
    obtain ⟨r', hs', hr⟩ := h.segment hrepeat (hps _ List.mem_cons_self) hcandidates hs
    exact ⟨r', .last hs', hr⟩
  | more hs hcs _ ih =>
    obtain ⟨hp, hps⟩ := List.forall_mem_cons.mp hps
    obtain ⟨m', hs', hm⟩ := h.segment hrepeat hp hcandidates hs
    obtain ⟨cs, cs', hcs₁, hcs', hchildren⟩ := h.children _ _ hm
    rw [hcs, Except.ok.injEq] at hcs₁
    subst hcs₁
    obtain ⟨r', hchain', hr⟩ := ih hps hchildren
    exact ⟨r', .more hs' hcs' hchain', hr⟩

/-- **What is reached in one view is related to what is reached in the other.** -/
theorem Agree.reaches (h : V.Agree W parts R) (hseeds : List.Forall₂ R seeds seeds')
    (hr : V.Reaches seeds r) : ∃ r', W.Reaches seeds' r' ∧ R r r' := by
  obtain ⟨x, hx, hbelow⟩ := hr
  induction hbelow with
  | here =>
    obtain ⟨x', hx', hrelated⟩ := exists_related_of_mem hseeds hx
    exact ⟨x', Graph.reaches_of_mem hx', hrelated⟩
  | step _ hcs hc ih =>
    obtain ⟨m', hm', hrelated⟩ := ih
    obtain ⟨cs, cs', hcs₁, hcs', hchildren⟩ := h.children _ m' hrelated
    rw [hcs, Except.ok.injEq] at hcs₁
    subst hcs₁
    obtain ⟨c', hc', hrelated'⟩ := exists_related_of_mem hchildren hc
    exact ⟨c', hm'.of_children hcs' (Graph.reaches_of_mem hc'), hrelated'⟩

/-- Every record that is reached is related to one, so that its labels and children can be read. -/
theorem Agree.searchable (h : V.Agree W parts R) (hseeds : List.Forall₂ R seeds seeds')
    (hfinite : V.FiniteBelow seeds) : V.Searchable seeds := by
  refine ⟨hfinite, fun r hr => ?_, fun r hr kind => ?_⟩
  · obtain ⟨r', -, hrelated⟩ := h.reaches hseeds hr
    obtain ⟨cs, -, hcs, -⟩ := h.children r r' hrelated
    exact ⟨cs, hcs⟩
  · obtain ⟨r', -, hrelated⟩ := h.reaches hseeds hr
    obtain ⟨text, htext, -⟩ := h.label r r' hrelated kind
    exact ⟨text, htext⟩

/-- **Without a cycle in one view there is none in the other**, if no two records of the one are
related to one record of the other. -/
theorem Agree.acyclic (h : V.Agree W parts R) (hunique : Relator.LeftUnique R)
    (hseeds : List.Forall₂ R seeds seeds') (hacyclic : V.Acyclic seeds) : W.Acyclic seeds' := by
  rintro r' hr' ⟨cs', hcs', hagain'⟩
  obtain ⟨r, hr, hrelated⟩ := h.symm.reaches hseeds.flip hr'
  obtain ⟨cs, cs₁', hcs, hcs₁', hchildren⟩ := h.children r r' hrelated
  rw [hcs', Except.ok.injEq] at hcs₁'
  subst hcs₁'
  -- the way back to the record is mirrored, and it can only end where it started
  obtain ⟨x, hx, hrelated'⟩ := h.symm.reaches hchildren.flip hagain'
  have hagain : V.Reaches cs r := hunique hrelated' hrelated ▸ hx
  exact hacyclic r hr ⟨cs, hcs, hagain⟩

variable [DecidableEq ρ] [Hashable ρ] [DecidableEq ρ'] [Hashable ρ']

/-- Parts lead to related records where trails repeat records alike. -/
theorem Agree.find (h : V.Agree W parts R) (hrepeat : V.RepeatAlike W R) {l : Locator}
    (hl : ∀ p ∈ l.parts, p ∈ parts) (hseeds : List.Forall₂ R seeds seeds')
    (hfinite : V.FiniteBelow seeds) (hfinite' : W.FiniteBelow seeds') :
    ∃ found found', (V.find l seeds).result = .ok found ∧ (W.find l seeds').result = .ok found' ∧
      List.Forall₂ R found found' := by
  by_cases hparts : l.parts = []
  · exact ⟨seeds, seeds', find_of_parts_eq_nil hparts, find_of_parts_eq_nil hparts, hseeds⟩
  · have hsearch : V.Searchable seeds := h.searchable hseeds hfinite
    have hsearch' : W.Searchable seeds' := h.symm.searchable hseeds.flip hfinite'
    obtain ⟨table, hfinds, htable⟩ := exists_chain_listing hparts hsearch
    obtain ⟨table', hfinds', htable'⟩ := exists_chain_listing hparts hsearch'
    refine ⟨_, _, hfinds.find_eq, hfinds'.find_eq, ?_⟩
    -- both are listed by their match chains, and each chain ends in related records
    refine Lists.forall₂ (fun k k' hlt => List.lt_asymm hlt) htable htable' ?_ ?_
    · exact fun chain r hchain => h.chain hrepeat hl hseeds hchain
    · exact fun chain r' hchain => h.symm.chain hrepeat.symm hl hseeds.flip hchain

/-- **What is found does not depend on how records are represented**: where two views agree on
related records, a locator finds related records from related seeds, position by position. The
relation must keep the records that are reached apart, unless there are no cycles. -/
theorem find_related (V : View ρ ε) (W : View ρ' ε') (R : ρ → ρ' → Prop) (l : Locator)
    (seeds : List ρ) (seeds' : List ρ') (h : V.Agree W l.parts R)
    (hseeds : List.Forall₂ R seeds seeds') (hfinite : V.FiniteBelow seeds)
    (hfinite' : W.FiniteBelow seeds')
    (hapart : Relator.BiUnique (V.BothReached W R seeds seeds') ∨
      V.Acyclic seeds ∧ W.Acyclic seeds') :
    ∃ found found', (V.find l seeds).result = .ok found ∧ (W.find l seeds').result = .ok found' ∧
      List.Forall₂ R found found' := by
  have hrepeat : V.RepeatAlike W (V.BothReached W R seeds seeds') := by
    rcases hapart with hunique | ⟨hacyclic, hacyclic'⟩
    · exact repeatAlike_of_biUnique hunique
    · exact repeatAlike_of_acyclic hacyclic hacyclic'
  obtain ⟨found, found', hfound, hfound', hrelated⟩ :=
    (h.bothReached seeds seeds').find hrepeat (fun _ hp => hp) (forall₂_bothReached hseeds)
      hfinite hfinite'
  exact ⟨found, found', hfound, hfound', hrelated.imp fun _ _ hr => hr.1⟩

end View

/-! ### A shared record and its copies -/

/-- A record with attributes, whose two children are one record. -/
def sharing : Store where
  objects := #[
    .attributes [("name", .text "a"), ("children", .held 1)],
    .list [.held 2, .held 2],
    .attributes [("name", .text "b"), ("k", .text "4")]]

/-- The same as mappings with other keys, the child copied, and a number for a text. -/
def copies : Store where
  objects := #[
    .mapping [(.text "n", .text "a"), (.text "c", .held 1)],
    .tuple [.held 2, .held 3],
    .mapping [(.text "n", .text "b"), (.text "k", .plain (.int 4))],
    .mapping [(.text "k", .text "4"), (.text "n", .text "b")]]

/-- The adapter for other keys. -/
def keyed : Adapter := { Adapter.usual with name := .field "n", children := .field "c" }

/-- A record and its copies. -/
def copied (r r' : Ref) : Prop :=
  (r, r') ∈ [(Ref.held 0, Ref.held 0), (.held 2, .held 2), (.held 2, .held 3)]

/-- The children of the record `a` that are called `b` and have a certain attribute. -/
def numbered : Locator where
  source := "a b[k=\"4\"]"
  parts := [{ kind := .name, value := "a" },
    { kind := .name, value := "b", condition := some { property := "k", value := "4" } }]
  supported := by simp [Part.Supported, Condition.Supported, Condition.equality]

theorem sharing_agree_copies :
    (Adapter.usual.view sharing).Agree (keyed.view copies) numbered.parts copied where
  label r r' hr kind := by
    simp only [copied, List.mem_cons, Prod.mk.injEq, List.not_mem_nil, or_false] at hr
    rcases hr with ⟨rfl, rfl⟩ | ⟨rfl, rfl⟩ | ⟨rfl, rfl⟩ <;> cases kind <;> exact ⟨_, rfl, rfl⟩
  property r r' hr p hp c hc := by
    simp only [copied, List.mem_cons, Prod.mk.injEq, List.not_mem_nil, or_false] at hr
    simp only [numbered, List.mem_cons, List.not_mem_nil, or_false] at hp
    rcases hp with rfl | rfl <;> cases hc
    rcases hr with ⟨rfl, rfl⟩ | ⟨rfl, rfl⟩ | ⟨rfl, rfl⟩ <;> rfl
  children r r' hr := by
    simp only [copied, List.mem_cons, Prod.mk.injEq, List.not_mem_nil, or_false] at hr
    rcases hr with ⟨rfl, rfl⟩ | ⟨rfl, rfl⟩ | ⟨rfl, rfl⟩
    · refine ⟨_, _, rfl, rfl, .cons ?_ (.cons ?_ .nil)⟩ <;> simp [copied]
    · exact ⟨_, _, rfl, rfl, .nil⟩
    · exact ⟨_, _, rfl, rfl, .nil⟩

/-- The place of a value, the first one for a value without a place. -/
def Ref.place : Ref → Nat
  | .held place => place
  | _ => 0

theorem sharing_acyclic : (Adapter.usual.view sharing).Acyclic [.held 0] :=
  Graph.acyclic_of_rank Ref.place [.held 0, .held 2] (by decide) (by decide)

theorem copies_acyclic : (keyed.view copies).Acyclic [.held 0] :=
  Graph.acyclic_of_rank Ref.place [.held 0, .held 2, .held 3] (by decide) (by decide)

theorem copies_finiteBelow : (keyed.view copies).FiniteBelow [.held 0] :=
  Adapter.view_finiteBelow (Accessor.tame_field _) copies [.held 0]

/-- The shared record is found twice, as often as its copies, and what is found is related one by
one. -/
theorem find_related_copies :
    (Adapter.usual.view sharing).Agree (keyed.view copies) numbered.parts copied ∧
      List.Forall₂ copied [.held 0] [.held 0] ∧
      (Adapter.usual.view sharing).FiniteBelow [.held 0] ∧
      (keyed.view copies).FiniteBelow [.held 0] ∧
      (Adapter.usual.view sharing).Acyclic [.held 0] ∧ (keyed.view copies).Acyclic [.held 0] ∧
      ((Adapter.usual.view sharing).find numbered [.held 0]).result = .ok [.held 2, .held 2] ∧
      ((keyed.view copies).find numbered [.held 0]).result = .ok [.held 2, .held 3] ∧
      List.Forall₂ copied [.held 2, .held 2] [.held 2, .held 3] := by
  have hseeds : List.Forall₂ copied [.held 0] [.held 0] := .cons (by simp [copied]) .nil
  have hfinite := Adapter.usual_finiteBelow sharing [.held 0]
  have hshared : (Adapter.usual.view sharing).Finds numbered.parts [.held 0] [.held 2, .held 2] :=
    View.finds_of_findWithin (n := 4) rfl
  have hcopied : (keyed.view copies).Finds numbered.parts [.held 0] [.held 2, .held 3] :=
    View.finds_of_findWithin (n := 4) rfl
  obtain ⟨found, found', hfound, hfound', hrelated⟩ :=
    View.find_related _ _ copied numbered _ _ sharing_agree_copies hseeds hfinite copies_finiteBelow
      (.inr ⟨sharing_acyclic, copies_acyclic⟩)
  rw [hshared.find_eq, Except.ok.injEq] at hfound
  rw [hcopied.find_eq, Except.ok.injEq] at hfound'
  subst hfound hfound'
  exact ⟨sharing_agree_copies, hseeds, hfinite, copies_finiteBelow, sharing_acyclic, copies_acyclic,
    hshared.find_eq, hcopied.find_eq, hrelated⟩

end RecordQuery
