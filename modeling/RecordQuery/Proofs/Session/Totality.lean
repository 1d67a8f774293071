import RecordQuery.Proofs.Search.Chaining
import RecordQuery.Proofs.Session.Steps

/-! # A selector fails only when it is made

All that can go wrong with the conditions of a selector goes wrong when a locator is made of it. A
written selector has no condition that cannot be evaluated, and parts that have one are refused with
the first of them. A locator that was made can be applied to any value of any store: if the functions
of its adapter do not fail, nothing fails. The conditions are not checked again, and checking them
again would change nothing.

* `FirstUnsupported`: the first condition that cannot be evaluated.
* `Locator.ofParts_eq_error_iff`: parts are refused with this condition.
* `Adapter.Calls`: the functions of an adapter.
* `Adapter.satisfies_eq_checked`: a part is tested as if its condition were checked again.
* `Session.exists_find_of_calls`: a search fails only if a function of the adapter does.
* `Session.fails_only_when_made`: locators fail when they are made, and not when they are applied. -/

namespace RecordQuery

/-! ### Parts that are refused -/

/-- The **first condition** of some parts that cannot be evaluated, with the written form of its
part. -/
inductive FirstUnsupported : List Part → UnsupportedCondition → Prop
  /-- It is the condition of the first part. -/
  | here {p : Part} {ps : List Part} {c : Condition} : p.condition = some c → c.operator ≠ "=" →
      FirstUnsupported (p :: ps) ⟨c, p.source⟩
  /-- It is a condition of a later part, and the first part can be evaluated. -/
  | later {p : Part} {ps : List Part} {u : UnsupportedCondition} : p.Supported →
      FirstUnsupported ps u → FirstUnsupported (p :: ps) u

variable {p : Part} {ps : List Part} {u : UnsupportedCondition}

theorem Part.exists_unsupported (h : ¬ p.Supported) : ∃ c, p.condition = some c ∧ c.operator ≠ "=" := by
  cases hc : p.condition with
  | none => exact absurd (Part.supported_of_none hc) h
  | some c => exact ⟨c, rfl, fun hop => h ((Part.supported_iff_of_some hc).mpr hop)⟩

theorem Part.check_eq_error {c : Condition} (hc : p.condition = some c) (hop : c.operator ≠ "=") :
    p.check = .error ⟨c, p.source⟩ := by
  rw [Part.check]
  split
  · rename_i hnone
    cases hc.symm.trans hnone
  · rename_i d hd
    cases hc.symm.trans hd
    rw [dif_neg (show ¬ c.Supported from hop)]

/-- Parts fail the check with their first condition that cannot be evaluated. -/
theorem checkParts_eq_error_iff : checkParts ps = .error u ↔ FirstUnsupported ps u := by
  induction ps with
  | nil => exact iff_of_false (fun h => nomatch h) (fun h => nomatch h)
  | cons p ps ih =>
    by_cases hp : p.Supported
    · have hlater : FirstUnsupported (p :: ps) u ↔ FirstUnsupported ps u := by
        constructor
        · intro h
          cases h with
          | here hc hop => exact absurd (hp _ hc) hop
          | later _ h => exact h
        · exact .later hp
      rw [hlater, ← ih, checkParts, Part.check_eq_ok hp]
      cases checkParts ps <;> simp [bind, Except.bind, pure, Except.pure]
    · obtain ⟨c, hc, hop⟩ := Part.exists_unsupported hp
      rw [checkParts, Part.check_eq_error hc hop]
      constructor
      · intro h
        cases h
        exact .here hc hop
      · intro h
        cases h with
        | here hc' _ =>
          cases hc.symm.trans hc'
          rfl
        | later hp' _ => exact absurd hp' hp

/-- **Parts are refused** with their first condition that cannot be evaluated. -/
theorem Locator.ofParts_eq_error_iff : Locator.ofParts ps = .error u ↔ FirstUnsupported ps u := by
  rw [← checkParts_eq_error_iff, Locator.ofParts]
  cases checkParts ps <;> simp [bind, Except.bind, pure, Except.pure]

/-- There is a first such condition just if there is one at all. -/
theorem exists_firstUnsupported_iff :
    (∃ u, FirstUnsupported ps u) ↔ ∃ p ∈ ps, ∃ c ∈ p.condition, c.operator ≠ "=" := by
  induction ps with
  | nil => exact iff_of_false (fun ⟨_, h⟩ => nomatch h) fun ⟨_, h, _⟩ => nomatch h
  | cons p ps ih =>
    constructor
    · rintro ⟨u, h⟩
      cases h with
      | here hc hop => exact ⟨p, List.mem_cons_self, _, hc, hop⟩
      | later _ h =>
        obtain ⟨q, hq, hunsupported⟩ := ih.mp ⟨u, h⟩
        exact ⟨q, List.mem_cons_of_mem _ hq, hunsupported⟩
    · rintro ⟨q, hq, c, hc, hop⟩
      by_cases hp : p.Supported
      · rcases List.mem_cons.mp hq with rfl | hq
        · exact absurd (hp c hc) hop
        · obtain ⟨u, h⟩ := ih.mpr ⟨q, hq, c, hc, hop⟩
          exact ⟨u, .later hp h⟩
      · obtain ⟨d, hd, hop'⟩ := Part.exists_unsupported hp
        exact ⟨_, .here hd hop'⟩

/-! ### Records that are read without a failure -/

/-- The adapter **calls** a function, for a label or for the children. -/
def Adapter.Calls (A : Adapter) (f : RecordFunction) : Prop :=
  (∃ kind, A.accessor kind = .function f) ∨ A.children = .function f

/-- An accessor fails only if it is a function that fails. -/
theorem Accessor.exists_read {a : Accessor} {σ : Store} {r : Ref}
    (h : ∀ f, a = .function f → ∃ reading, f.call σ r = .ok reading) :
    ∃ reading, a.read σ r = .ok reading := by
  cases a with
  | field name => exact ⟨_, rfl⟩
  | function f => exact h f rfl

/-- **Any records can be searched from** where finitely many are reached and the functions of the
adapter do not fail, whatever is in their fields. -/
theorem Adapter.searchable_of_calls {A : Adapter} {σ : Store} {seeds : List Ref}
    (hfinite : (A.view σ).FiniteBelow seeds)
    (h : ∀ f, A.Calls f → ∀ r, (A.view σ).Reaches seeds r → ∃ reading, f.call σ r = .ok reading) :
    (A.view σ).Searchable seeds :=
  view_searchable hfinite
    (fun kind r hr => Accessor.exists_read fun f hf => h f (Or.inl ⟨kind, hf⟩) r hr)
    fun r hr => Accessor.exists_read fun f hf => h f (Or.inr hf) r hr

/-! ### Tests with and without a check -/

/-- Whether a record meets a condition, if there is one, which is first **checked**. -/
def Adapter.evaluateAny (A : Adapter) (σ : Store) (condition : Option Condition) (r : Ref) :
    Except Failure Bool :=
  match condition with
  | none => .ok true
  | some c => A.evaluate σ c r

/-- The test of a part with **everything looked at**: the label is read and compared, and the
condition is checked and evaluated. -/
def Adapter.checkedTest (A : Adapter) (σ : Store) (p : Part) (r : Ref) : Except Failure Bool := do
  let reading ← (A.accessor p.kind).read σ r
  let holds ← A.evaluateAny σ p.condition r
  return reading.comparisonText σ == some p.value && holds

/-- A condition that can be evaluated passes the check. -/
theorem Adapter.evaluateAny_eq (A : Adapter) (σ : Store) (hp : p.Supported) (r : Ref) :
    A.evaluateAny σ p.condition r = .ok (p.condition.all ((A.view σ).meets · r)) := by
  cases hc : p.condition with
  | none => rfl
  | some c =>
    have hcheck : c.check "" = .ok () := if_pos (hp c hc)
    rw [evaluateAny, evaluate, hcheck]
    rfl

/-- **A part of a locator is tested as if its condition were checked again.** -/
theorem Adapter.satisfies_eq_checked (A : Adapter) (σ : Store) (hp : p.Supported) (r : Ref) :
    (A.view σ).satisfies p r = A.checkedTest σ p r := by
  have hlabel : (A.view σ).label p.kind r = A.labelText σ p.kind r := rfl
  rw [View.satisfies, hlabel, labelText, checkedTest, A.evaluateAny_eq σ hp r]
  cases (A.accessor p.kind).read σ r <;> rfl

namespace Session

theorem partsLocator_leads_error_iff {w w' : World} {e : Failure} :
    Leads (partsLocator ps) w (.error e) w' ↔
      w' = w ∧ ∃ u, FirstUnsupported ps u ∧ e = .condition u := by
  rw [partsLocator]
  cases hparts : Locator.ofParts ps with
  | ok l =>
    refine iff_of_false (fun h => ?_) ?_
    · obtain ⟨heq, -⟩ := h.unique (leads_pure l)
      cases heq
    · rintro ⟨-, u, hu, -⟩
      rw [← Locator.ofParts_eq_error_iff, hparts] at hu
      cases hu
  | error u =>
    have hu := Locator.ofParts_eq_error_iff.mp hparts
    constructor
    · intro h
      obtain ⟨heq, hw⟩ := h.unique (leads_throw _)
      cases heq
      exact ⟨hw, u, hu, rfl⟩
    · rintro ⟨rfl, v, hv, rfl⟩
      rw [← Locator.ofParts_eq_error_iff, hparts, Except.error.injEq] at hv
      subst hv
      exact leads_throw _

/-- Making a locator of parts fails just if one of them has a condition that cannot be evaluated. -/
theorem exists_partsLocator_error_iff {w : World} :
    (∃ e w', Leads (partsLocator ps) w (.error e) w') ↔
      ∃ p ∈ ps, ∃ c ∈ p.condition, c.operator ≠ "=" := by
  rw [← exists_firstUnsupported_iff]
  constructor
  · rintro ⟨e, w', h⟩
    obtain ⟨-, u, hu, -⟩ := partsLocator_leads_error_iff.mp h
    exact ⟨u, hu⟩
  · rintro ⟨u, hu⟩
    exact ⟨.condition u, w, partsLocator_leads_error_iff.mpr ⟨rfl, u, hu, rfl⟩⟩

/-- A written selector fails, if at all, because it cannot be parsed. -/
theorem parseLocator_not_unsupported {s : String} {w w' : World} :
    ¬ Leads (parseLocator s) w (.error (.condition u)) w' := by
  intro h
  cases hparse : Locator.parse s with
  | ok l =>
    obtain ⟨log, hlocator⟩ := leads_parseLocator (w := w) hparse
    cases (h.unique hlocator).1
  | error e => cases (h.unique (leads_parseLocator_error hparse)).1

/-- The parts of a written selector are not refused. -/
theorem exists_partsLocator_of_parse {s : String} {parts : List Part}
    (h : RecordQuery.parse s = .ok parts) (w : World) :
    ∃ l, l.parts = parts ∧ Leads (partsLocator parts) w (.ok l) w := by
  refine ⟨⟨Locator.sourceOf parts, parts, parse_supported h⟩, rfl, ?_⟩
  rw [partsLocator, Locator.ofParts_eq_ok (parse_supported h)]
  exact leads_pure _

/-- **A search fails only if a function of the adapter fails** on a record that is reached. -/
theorem exists_find_of_calls {w : World} {n : Nat} {target : Ref} (l : Locator)
    (hfinite : ((w.adapterAt n).view (w.store.drained target)).FiniteBelow (w.store.seedsOf target))
    (h : ∀ f, (w.adapterAt n).Calls f → ∀ r,
      ((w.adapterAt n).view (w.store.drained target)).Reaches (w.store.seedsOf target) r →
      ∃ reading, f.call (w.store.drained target) r = .ok reading) :
    ∃ found w', Leads (find n l target) w (.ok found) w' := by
  obtain ⟨found, hfound⟩ := View.exists_find (Adapter.searchable_of_calls hfinite h) l.parts
  obtain ⟨found', σ', log, hrun, -⟩ :=
    @exists_findFrom { w with store := w.store.drained target } n l _ found (hfound l rfl)
  exact ⟨found', _, leads_find hrun⟩

/-- **Locators fail when they are made, and not when they are applied.** Parts are refused just if one
of their conditions has another operator than equality, and then with the first such condition; the
parts of a written selector never are. A locator that was made finds records in every value of every
store, if finitely many records are reached and no function of the adapter fails on one of these, and
tests each record as if its conditions were checked again. -/
theorem fails_only_when_made :
    (∀ ps w e w', Leads (partsLocator ps) w (.error e) w' ↔
      w' = w ∧ ∃ u, FirstUnsupported ps u ∧ e = .condition u) ∧
    (∀ ps w, (∃ e w', Leads (partsLocator ps) w (.error e) w') ↔
      ∃ p ∈ ps, ∃ c ∈ p.condition, c.operator ≠ "=") ∧
    (∀ s w u w', ¬ Leads (parseLocator s) w (.error (.condition u)) w') ∧
    (∀ s parts, RecordQuery.parse s = .ok parts →
      ∀ w, ∃ l, l.parts = parts ∧ Leads (partsLocator parts) w (.ok l) w) ∧
    (∀ w n l target,
      ((w.adapterAt n).view (w.store.drained target)).FiniteBelow (w.store.seedsOf target) →
      (∀ f, (w.adapterAt n).Calls f → ∀ r,
        ((w.adapterAt n).view (w.store.drained target)).Reaches (w.store.seedsOf target) r →
        ∃ reading, f.call (w.store.drained target) r = .ok reading) →
      ∃ found w', Leads (find n l target) w (.ok found) w') ∧
    ∀ (l : Locator) (A : Adapter) (σ : Store), ∀ p ∈ l.parts, ∀ r,
      (A.view σ).satisfies p r = A.checkedTest σ p r := by
  exact ⟨fun _ _ _ _ => partsLocator_leads_error_iff, fun _ _ => exists_partsLocator_error_iff,
    fun _ _ _ _ => parseLocator_not_unsupported, fun _ _ h => exists_partsLocator_of_parse h,
    fun _ _ l _ hfinite h => exists_find_of_calls l hfinite h,
    fun l A σ p hp r => A.satisfies_eq_checked σ (l.supported p hp) r⟩

end Session

/-! ### Refused parts, and a record of odd values -/

/-- Two parts, the second of which has a condition that cannot be evaluated. -/
def refusedParts : List Part :=
  [{ kind := .name, value := "a", condition := some ⟨"k", "4", "="⟩ },
    { kind := .name, value := "b", condition := some ⟨"k", "4", "~="⟩, source := "b[k]" }]

/-- A record whose children are itself, the absent value, a non-number, a byte sequence and a set. -/
def oddities : World where
  store := {
    objects := #[
      .attributes [("name", .text "a"), ("k", .held 2), ("children", .held 1)],
      .tuple [.held 0, .null, .held 2, .plain (.bytes [0]), .held 3],
      .scalar (.double .nan),
      .set [.held 2]] }

/-- The parts are refused with the second condition, a written selector is not, and the odd values
are searched without a failure. -/
theorem fails_only_when_made_oddities :
    Session.Leads (Session.partsLocator refusedParts) oddities
      (.error (.condition ⟨⟨"k", "4", "~="⟩, "b[k]"⟩)) oddities ∧
    (∀ u w', ¬ Session.Leads (Session.parseLocator "a b") oddities (.error (.condition u)) w') ∧
    (∀ f, ¬ (oddities.adapterAt 0).Calls f) ∧
    ((oddities.adapterAt 0).view oddities.store).FiniteBelow [.held 0] ∧
    ∃ found w', Session.Leads (Session.find 0 numbered (.held 0)) oddities (.ok found) w' := by
  obtain ⟨hrefused, -, hwritten, -, hfinds, -⟩ := Session.fails_only_when_made
  have hcalls : ∀ f, ¬ (oddities.adapterAt 0).Calls f := by
    rintro f (⟨kind, hkind⟩ | hchildren)
    · cases kind <;> cases hkind
    · cases hchildren
  have hfinite : ((oddities.adapterAt 0).view oddities.store).FiniteBelow [.held 0] :=
    Adapter.usual_finiteBelow oddities.store [.held 0]
  refine ⟨(hrefused _ _ _ _).mpr ⟨rfl, _, ?_, rfl⟩, hwritten "a b" oddities, hcalls, hfinite,
    hfinds oddities 0 numbered (.held 0) hfinite fun f hf => absurd hf (hcalls f)⟩
  exact .later (by decide) (.here rfl (by decide))

end RecordQuery
