import RecordQuery.Adapter.Basic
import RecordQuery.Adapter.Derived

/-! # Accessors below which there is an end

A search ends when finitely many records are reached. A field leads only to what the store holds, and so
does each of the derived accessors, or to ever smaller numbers. So with an adapter that is made of
field names and of these functions every search ends, in every store.

* `Tame`: a children function that leads from each record to finitely many.
* `RecordFunction.upper_tame` and its siblings: the derived accessors, one by one.
* `Adapter.view_finiteBelow`: with a tame accessor for the children, finitely many records are reached.
* `Adapter.finiteBelow_of_ofOptions`: the adapter that options ask for, if their function is tame. -/

namespace RecordQuery

/-! ### What a store holds -/

namespace Store

variable {σ : Store} {r : Ref} {o : Object}

/-- The members of all objects of the store. -/
def allMembers (σ : Store) : List Ref := σ.objects.toList.flatMap Object.members

theorem look_mem_objects (h : σ.look r = o) (ho : ∀ s, o ≠ .scalar s) (hempty : o ≠ .tuple []) :
    o ∈ σ.objects.toList := by
  cases r with
  | plain s => exact absurd h.symm (ho s)
  | fresh s => exact absurd h.symm (ho s)
  | noItems => exact absurd h.symm hempty
  | held place =>
    simp only [Store.look] at h
    cases hp : σ.objects[place]? with
    | none => simp [hp] at h; exact absurd h.symm (ho _)
    | some o' =>
      obtain ⟨hlt, rfl⟩ := Array.getElem?_eq_some_iff.mp hp
      simp only [hp, Option.getD_some] at h
      exact h ▸ Array.mem_toList_iff.mpr (Array.getElem_mem hlt)

theorem childrenOf_subset (σ : Store) (r : Ref) : ∀ c ∈ σ.childrenOf r, c ∈ σ.allMembers := by
  intro c hc
  rw [childrenOf] at hc
  refine List.mem_flatMap.mpr ⟨σ.look r, look_mem_objects rfl (fun s hs => ?_) fun hempty => ?_, hc⟩
  · rw [hs] at hc
    cases hc
  · rw [hempty] at hc
    cases hc

/-- The values of an object that is a writable mapping. -/
def mappingValues : Object → List Ref
  | .mapping entries => entries.map (·.2)
  | _ => []

/-- The values of all writable mappings of a store. -/
def allValues (σ : Store) : List Ref := σ.objects.toList.flatMap mappingValues

theorem mem_allValues {entries : List (Ref × Ref)} (h : σ.look r = .mapping entries) :
    ∀ x ∈ entries.map (·.2), x ∈ σ.allValues := fun _ hx =>
  List.mem_flatMap.mpr ⟨_, look_mem_objects h (fun _ => nofun) nofun, hx⟩

end Store

/-! ### Tame functions -/

/-- A children function is **tame** when in every store it leads from each record to finitely
many. -/
def Tame (call : Store → Ref → Except Failure Reading) : Prop :=
  ∀ σ r, ∃ bound, r ∈ bound ∧ Closed (childrenThrough call σ) bound

/-- A function that leads from a record to itself and to records of a fixed list is tame. -/
theorem tame_of_subset {call : Store → Ref → Except Failure Reading}
    (h : ∀ σ, ∃ bound : List Ref, ∀ r reading, call σ r = .ok reading →
      ∀ c ∈ reading.children σ, c = r ∨ c ∈ bound) : Tame call := by
  intro σ r
  obtain ⟨bound, hbound⟩ := h σ
  refine ⟨r :: bound, List.mem_cons_self .., ?_⟩
  intro x hx cs hcs c hc
  unfold childrenThrough at hcs
  split at hcs
  · rename_i reading hreading
    cases hcs
    rcases hbound x reading hreading c hc with rfl | hc
    · exact hx
    · exact List.mem_cons_of_mem _ hc
  · cases hcs

/-- A function that gives only values is tame. -/
theorem tame_of_value {call : Store → Ref → Except Failure Reading}
    (h : ∀ σ r reading, call σ r = .ok reading → ∃ v, reading = .value v) : Tame call := by
  refine tame_of_subset fun σ => ⟨σ.allMembers, fun r reading hr c hc => .inr ?_⟩
  obtain ⟨v, rfl⟩ := h σ r reading hr
  exact σ.childrenOf_subset v c hc

/-- A field name is tame. -/
theorem Accessor.tame_field (name : String) : Tame (Accessor.field name).read :=
  tame_of_value fun _ _ _ h => ⟨_, (Except.ok.inj h).symm⟩

namespace RecordFunction

/-- There is nothing below the absent value. -/
theorem not_mem_children_null {σ : Store} {c : Ref} : c ∉ (Reading.value .null).children σ :=
  List.not_mem_nil

theorem upper_tame (name : String) : Tame (upper name).call :=
  tame_of_value fun _ _ _ h => ⟨_, (Except.ok.inj h).symm⟩

theorem firstOf_tame (names : List String) : Tame (firstOf names).call :=
  tame_of_value fun _ _ _ h => ⟨_, (Except.ok.inj h).symm⟩

theorem constant_tame (v : Ref) : Tame (constant v).call :=
  tame_of_value fun _ _ _ h => ⟨_, (Except.ok.inj h).symm⟩

theorem text_tame : Tame text.call :=
  tame_of_value fun _ _ _ h => ⟨_, (Except.ok.inj h).symm⟩

theorem refusing_tame (name : String) : Tame (refusing name).call := by
  refine tame_of_value fun σ r reading h => ?_
  simp only [refusing] at h
  split at h
  · split at h
    · cases h
    · exact ⟨_, (Except.ok.inj h).symm⟩
  · exact ⟨_, (Except.ok.inj h).symm⟩

/-- A record that is its own child leads nowhere else. -/
theorem itself_tame : Tame itself.call := by
  refine tame_of_subset fun σ => ⟨[], fun r reading h c hc => .inl ?_⟩
  cases h
  exact List.mem_singleton.mp hc

theorem values_tame : Tame values.call := by
  refine tame_of_subset fun σ => ⟨σ.allValues ++ σ.allMembers, fun r reading h c hc => .inr ?_⟩
  simp only [values] at h
  split at h
  · rename_i entries ho
    cases h
    exact List.mem_append_left _ (Store.mem_allValues ho c hc)
  · rename_i items ho
    cases h
    refine List.mem_append_right _ (List.mem_flatMap.mpr ⟨.list items, ?_, hc⟩)
    exact Store.look_mem_objects ho (fun _ => nofun) nofun
  · cases h
    exact absurd hc not_mem_children_null

theorem itemsOf_tame (name : String) : Tame (itemsOf name).call := by
  refine tame_of_subset fun σ =>
    ⟨σ.allValues.flatMap fun v => (σ.items? v).getD [], fun r reading h c hc => .inr ?_⟩
  simp only [itemsOf] at h
  split at h
  · rename_i entries ho
    split at h
    · cases h
      exact absurd hc List.not_mem_nil
    · rename_i v hv
      have hvalue : v ∈ σ.allValues := by
        obtain ⟨entry, hentry, rfl⟩ := Option.map_eq_some_iff.mp hv
        exact Store.mem_allValues ho _ (List.mem_map_of_mem (List.mem_of_find?_eq_some hentry))
      split at h
      · split at h
        · rename_i items hitems
          cases h
          exact List.mem_flatMap.mpr ⟨v, hvalue, by rw [hitems]; exact hc⟩
        · cases h
      · cases h
        exact absurd hc List.not_mem_nil
  · cases h
    exact absurd hc not_mem_children_null

/-- The divisors of a number are smaller than it. -/
theorem exists_of_mem_divisors {σ : Store} {r c : Ref} {reading : Reading}
    (h : divisors.call σ r = .ok reading) (hc : c ∈ reading.children σ) :
    ∃ n : Int, σ.look r = .scalar (.int n) ∧ ∃ d : Nat, d < n.toNat ∧ c = (Scalar.int d).ref := by
  simp only [divisors] at h
  split at h
  · rename_i n ho
    cases h
    obtain ⟨m, hm, rfl⟩ := List.mem_map.mp hc
    obtain ⟨d, hd, rfl⟩ := List.mem_map.mp hm
    exact ⟨n, ho, d, List.mem_range.mp (List.mem_filter.mp hd).1, rfl⟩
  · cases h
    exact absurd hc not_mem_children_null

/-- From a number only numbers up to it are reached. -/
theorem divisors_tame : Tame divisors.call := by
  intro σ r
  obtain ⟨size, hsize⟩ :
      ∃ size : Nat, ∀ n : Int, σ.look r = .scalar (.int n) → n.toNat ≤ size := by
    by_cases hr : ∃ n : Int, σ.look r = .scalar (.int n)
    · obtain ⟨n, hn⟩ := hr
      refine ⟨n.toNat, fun m hm => ?_⟩
      rw [hn] at hm
      cases hm
      exact Nat.le_refl _
    · exact ⟨0, fun n hn => absurd ⟨n, hn⟩ hr⟩
  refine ⟨r :: (List.range size).map fun (d : Nat) => (Scalar.int d).ref,
    List.mem_cons_self .., ?_⟩
  intro x hx cs hcs c hc
  unfold childrenThrough at hcs
  split at hcs
  · rename_i reading hreading
    cases hcs
    obtain ⟨n, hn, d, hd, rfl⟩ := exists_of_mem_divisors hreading hc
    have hle : n.toNat ≤ size := by
      rcases List.mem_cons.mp hx with rfl | hx
      · exact hsize n hn
      · obtain ⟨m, hm, rfl⟩ := List.mem_map.mp hx
        rw [Store.look_ref] at hn
        cases hn
        exact Nat.le_of_lt (List.mem_range.mp hm)
    exact List.mem_cons_of_mem _
      (List.mem_map.mpr ⟨d, List.mem_range.mpr (Nat.lt_of_lt_of_le hd hle), rfl⟩)
  · cases hcs

end RecordFunction

/-! ### Adapters -/

theorem exists_of_bind_eq_ok {ε α β : Type} {x : Except ε α} {f : α → Except ε β} {b : β}
    (h : x >>= f = .ok b) : ∃ a, x = .ok a ∧ f a = .ok b := by
  cases x with
  | error e => cases h
  | ok a => exact ⟨a, rfl, h⟩

namespace Adapter

variable {A : Adapter} {options : Options}

/-- An adapter that options ask for has the accessors that their settings ask for. -/
theorem resolve_of_ofOptions (h : ofOptions options = .ok A) :
    options.id.resolve (.field "id") = .ok A.id ∧
      options.name.resolve (.field "name") = .ok A.name ∧
      options.className.resolve (.field "class") = .ok A.className ∧
      options.children.resolve (.field "children") = .ok A.children := by
  obtain ⟨id, hid, h⟩ := exists_of_bind_eq_ok h
  obtain ⟨name, hname, h⟩ := exists_of_bind_eq_ok h
  obtain ⟨className, hclass, h⟩ := exists_of_bind_eq_ok h
  obtain ⟨children, hchildren, h⟩ := exists_of_bind_eq_ok h
  cases h
  exact ⟨hid, hname, hclass, hchildren⟩

/-- With a tame accessor for the children **finitely many records are reached**. -/
theorem view_finiteBelow (hA : Tame A.children.read) (σ : Store) (rs : List Ref) :
    (A.view σ).FiniteBelow rs := by
  induction rs with
  | nil => exact ⟨[], fun _ ⟨_, hr, _⟩ => nomatch hr⟩
  | cons r rs ih =>
    obtain ⟨bound, hbound⟩ := ih
    obtain ⟨closed, hr, hclosed⟩ := hA σ r
    refine ⟨closed ++ bound, fun s ⟨x, hx, hs⟩ => ?_⟩
    rcases List.mem_cons.mp hx with rfl | hx
    · exact List.mem_append_left _ (hs.mem_of_closed hr hclosed)
    · exact List.mem_append_right _ (hbound s ⟨x, hx, hs⟩)

theorem usual_finiteBelow (σ : Store) (rs : List Ref) : (usual.view σ).FiniteBelow rs :=
  view_finiteBelow (Accessor.tame_field _) σ rs

/-- **Options ask for an adapter with which every search ends**, unless their function for the children
leads from record to record without end. -/
theorem finiteBelow_of_ofOptions (hA : ofOptions options = .ok A)
    (h : ∀ f, options.children = .function f → Tame f.call) (σ : Store) (rs : List Ref) :
    (A.view σ).FiniteBelow rs := by
  obtain ⟨-, -, -, hchildren⟩ := resolve_of_ofOptions hA
  refine view_finiteBelow ?_ σ rs
  cases hsetting : options.children with
  | unset =>
    rw [hsetting] at hchildren
    exact Except.ok.inj hchildren ▸ Accessor.tame_field _
  | field name =>
    rw [hsetting] at hchildren
    exact Except.ok.inj hchildren ▸ Accessor.tame_field name
  | function f =>
    rw [hsetting] at hchildren
    exact Except.ok.inj hchildren ▸ h f hsetting
  | unsuitable typeName =>
    rw [hsetting] at hchildren
    cases hchildren

end Adapter

end RecordQuery
