import RecordQuery.Proofs.Adapter.Steady

/-! # The derived accessors are steady

Each of the derived accessors reads only the record that it is given and what this leads to. So an
adapter that is made of field names and of these functions is steady, and what it shows of a record
does not change while values are added to the store.

* `Scalar.AtPlace.readField`: the fields of a scalar made on the spot, and of the scalar at its place.
* `RecordFunction.steady_of_scalar`: functions that do not give a scalar back are steady if they do
  not see that the store has grown.
* `RecordFunction.upper_steady` and its siblings: the derived accessors, one by one.
* `Adapter.steady_of_ofOptions`: the adapter that options ask for is steady if their functions are. -/

namespace RecordQuery

/-! ### Scalars at a place -/

namespace Scalar.AtPlace

variable {σ : Store} {s : Scalar} {place : Nat} {x x' : Ref}

theorem look (h : s.AtPlace place x x') (hs : σ.look (.held place) = .scalar s) :
    σ.look x' = σ.look x := by
  rcases h with rfl | ⟨rfl, rfl⟩
  · rfl
  · exact hs

/-- **A field of a scalar** is made anew, or is the scalar itself. -/
theorem readField (hs : σ.look (.held place) = .scalar s) (name : String) :
    s.AtPlace place (σ.readField (.fresh s) name) (σ.readField (.held place) name) := by
  rw [Store.readField, Store.readField, Store.field?, Store.field?, hs, Store.look_fresh]
  exact Store.numberPart_related (.inr ⟨rfl, rfl⟩) (fun _ => .inl rfl) name s

end Scalar.AtPlace

/-- The first values of related lists that are there are related. -/
theorem Store.firstPresent_related {σ σ' : Store} {R : Ref → Ref → Prop} {xs ys : List Ref}
    (h : List.Forall₂ R xs ys) (hnull : ∀ x y, R x y → σ'.isNull y = σ.isNull x)
    (habsent : R .null .null) :
    R ((xs.find? fun v => !σ.isNull v).getD .null) ((ys.find? fun v => !σ'.isNull v).getD .null) := by
  induction h with
  | nil => exact habsent
  | @cons x y xs ys hxy _ ih =>
    rw [List.find?_cons, List.find?_cons, hnull x y hxy]
    cases σ.isNull x with
    | true => exact ih
    | false => exact hxy

/-! ### Items -/

namespace Store

variable {σ σ' : Store} {r : Ref}

theorem Grows.isTruthy (h : σ.Grows σ') (hr : σ.Has r) : σ'.isTruthy r = σ.isTruthy r := by
  rw [Store.isTruthy, Store.isTruthy, h.look hr]

theorem Grows.items? (h : σ.Grows σ') (hr : σ.Has r) : σ'.items? r = σ.items? r := by
  rw [Store.items?, Store.items?, h.look hr]

/-- A sound store has the keys of a mapping. -/
theorem Sound.has_keys (h : σ.Sound) {entries : List (Ref × Ref)} (ho : σ.look r = .mapping entries) :
    ∀ entry ∈ entries, σ.Has entry.1 := by
  have hrefs := h.has_refs r
  rw [ho] at hrefs
  exact fun entry hentry => hrefs _ (Object.mem_refs_of_entry hentry).1

/-- A sound store has the items of its values. -/
theorem Sound.has_items? (h : σ.Sound) {items : List Ref} (hitems : σ.items? r = some items) :
    ∀ x ∈ items, σ.Has x := by
  have hrefs := h.has_refs r
  rw [Store.items?] at hitems
  cases ho : σ.look r with
  | list xs | tuple xs | set xs | frozenSet xs | stream xs | collection xs n =>
    rw [ho] at hitems hrefs
    cases hitems
    exact hrefs
  | mapping entries | readOnlyMapping entries =>
    rw [ho] at hitems hrefs
    cases hitems
    intro x hx
    obtain ⟨entry, hentry, rfl⟩ := List.mem_map.mp hx
    exact hrefs _ (Object.mem_refs_of_entry hentry).1
  | scalar s =>
    rw [ho] at hitems
    cases s with
    | text t | bytes t =>
      cases hitems
      intro x hx
      obtain ⟨_, -, rfl⟩ := List.mem_map.mp hx
      exact has_scalar σ _
    | _ => cases hitems
  | _ =>
    rw [ho] at hitems
    cases hitems

end Store

namespace RecordFunction

variable {f : RecordFunction} {σ₀ σ σ' : Store} {r : Ref}

/-- A function that gives the same for a scalar at any place **does not give the scalar back**. It is
steady if it gives values of the store and does not see that the store has grown. -/
theorem steady_of_scalar
    (hhas : ∀ {σ r reading}, σ₀.Grows σ → σ.Sound → σ.Has r → f.call σ r = .ok reading →
      ∀ x ∈ reading.refs, σ.Has x)
    (hgrows : ∀ {σ σ' r}, σ.Sound → σ.Has r → σ.Grows σ' → f.call σ' r = f.call σ r)
    (hscalar : ∀ {σ r r' s}, σ.look r = .scalar s → σ.look r' = .scalar s →
      f.call σ r' = f.call σ r) : f.Steady σ₀ where
  has := hhas
  grows _ := hgrows
  scalar {σ s place} _ _ hs := by
    rw [hscalar (σ.look_fresh s) hs]
    cases f.call σ (.fresh s) with
    | error e => exact .error e
    | ok reading => exact .ok (Reading.related_self fun _ _ => .inl rfl)

/-- The absent value is in every store. -/
theorem has_nothing (σ : Store) : ∀ x ∈ (Reading.value .null).refs, σ.Has x :=
  Reading.forall_mem_value.mpr (Nat.zero_le _)

theorem upper_steady (name : String) (σ₀ : Store) : (upper name).Steady σ₀ where
  has {σ r reading} _ hσ hr hreading := by
    cases hreading
    refine Reading.forall_mem_value.mpr ?_
    split
    · split
      · exact hσ.has_readField hr name
      · exact Nat.zero_le _
    · exact hσ.has_readField hr name
  grows {σ σ' r} _ hσ hr hg := by
    simp only [upper, hg.readField hσ hr name, hg.text? (hσ.has_readField hr name)]
  scalar {σ s place} _ _ hs := by
    have hfield := Scalar.AtPlace.readField hs name
    have htext : σ.text? (σ.readField (.held place) name) = σ.text? (σ.readField (.fresh s) name) := by
      rw [Store.text?, Store.text?, hfield.look hs]
    refine .ok (.value ?_)
    rw [htext]
    split
    · split
      · exact hfield
      · exact .inl rfl
    · exact hfield

/-- The first of several fields that is there is in the store, and stays the same. -/
theorem firstOf_call (hσ : σ.Sound) (hr : σ.Has r) (hg : σ.Grows σ') (names : List String) :
    ∃ v, (firstOf names).call σ r = .ok (.value v) ∧ (firstOf names).call σ' r = .ok (.value v) ∧
      σ.Has v := by
  have hfields : List.Forall₂ (fun x x' => x' = x ∧ σ.Has x) (names.map (σ.readField r))
      (names.map (σ'.readField r)) := by
    rw [List.forall₂_map_left_iff, List.forall₂_map_right_iff]
    exact List.forall₂_same.mpr fun name _ => ⟨hg.readField hσ hr name, hσ.has_readField hr name⟩
  have hnull : ∀ x x', x' = x ∧ σ.Has x → σ'.isNull x' = σ.isNull x := by
    rintro x _ ⟨rfl, hx⟩
    exact hg.isNull hx
  obtain ⟨hsame, hhas⟩ := Store.firstPresent_related hfields hnull ⟨rfl, Nat.zero_le _⟩
  exact ⟨_, rfl, congrArg (fun v => Except.ok (Reading.value v)) hsame, hhas⟩

theorem firstOf_steady (names : List String) (σ₀ : Store) : (firstOf names).Steady σ₀ where
  has {σ r reading} _ hσ hr hreading := by
    obtain ⟨v, hcall, -, hv⟩ := firstOf_call hσ hr (.refl σ) names
    rw [hcall] at hreading
    cases hreading
    exact Reading.forall_mem_value.mpr hv
  grows {σ σ' r} _ hσ hr hg := by
    obtain ⟨v, hcall, hcall', -⟩ := firstOf_call hσ hr hg names
    exact hcall'.trans hcall.symm
  scalar {σ s place} _ _ hs := by
    have hfields : List.Forall₂ (s.AtPlace place) (names.map (σ.readField (.fresh s)))
        (names.map (σ.readField (.held place))) := by
      rw [List.forall₂_map_left_iff, List.forall₂_map_right_iff]
      exact List.forall₂_same.mpr fun name _ => Scalar.AtPlace.readField hs name
    refine .ok (.value (Store.firstPresent_related hfields (fun x y hxy => ?_) (.inl rfl)))
    rw [Store.isNull, Store.isNull, hxy.look hs]

/-- A constant is steady from a store on that has it. -/
theorem constant_steady {v : Ref} (hv : σ₀.Has v) : (constant v).Steady σ₀ := by
  refine steady_of_scalar (fun hg _ _ hreading => ?_) (fun _ _ _ => rfl) fun _ _ => rfl
  cases hreading
  exact Reading.forall_mem_value.mpr (hg.has hv)

theorem text_steady (σ₀ : Store) : text.Steady σ₀ where
  has {σ r reading} _ hσ hr hreading := by
    cases hreading
    refine Reading.forall_mem_value.mpr ?_
    split
    · exact hr
    · exact Nat.zero_le _
    · exact Nat.zero_le _
  grows {σ σ' r} _ hσ hr hg := by
    simp only [text, hg.look hr, hg.plainText hσ hr]
  scalar {σ s place} _ _ hs := by
    refine .ok (.value ?_)
    rw [hs, Store.look_fresh, Store.plainText_of_look_scalar (σ := σ) hs]
    cases s with
    | text t => exact .inr ⟨rfl, rfl⟩
    | _ => exact .inl rfl

theorem refusing_steady (name : String) (σ₀ : Store) : (refusing name).Steady σ₀ := by
  refine steady_of_scalar (fun {σ _ _} _ _ _ hreading => ?_) (fun hσ hr hg => ?_) fun hs hs' => ?_
  · simp only [refusing] at hreading
    split at hreading
    · split at hreading
      · cases hreading
      · cases hreading
        exact has_nothing σ
    · cases hreading
      exact has_nothing σ
  · simp only [refusing, hg.look hr]
    split
    · rename_i entries ho
      rw [hg.lookup? name (hσ.has_keys ho)]
    · rfl
  · simp only [refusing, hs, hs']

theorem itself_steady (σ₀ : Store) : itself.Steady σ₀ where
  has {σ r reading} _ hσ hr hreading := by
    cases hreading
    intro x hx
    rw [List.mem_singleton.mp hx]
    exact hr
  grows _ _ _ _ := rfl
  scalar _ _ _ := .ok (.list (.cons (.inr ⟨rfl, rfl⟩) .nil))

theorem values_steady (σ₀ : Store) : values.Steady σ₀ := by
  refine steady_of_scalar (fun {σ r _} _ hσ hr hreading => ?_) (fun _ hr hg => ?_) fun hs hs' => ?_
  · have hrefs := hσ.has_refs r
    simp only [values] at hreading
    split at hreading <;> cases hreading
    · rename_i entries ho
      rw [ho] at hrefs
      intro x hx
      obtain ⟨entry, hentry, rfl⟩ := List.mem_map.mp hx
      exact hrefs _ (Object.mem_refs_of_entry hentry).2
    · rename_i items ho
      rw [ho] at hrefs
      exact hrefs
    · exact has_nothing σ
  · simp only [values, hg.look hr]
  · simp only [values, hs, hs']

theorem itemsOf_steady (name : String) (σ₀ : Store) : (itemsOf name).Steady σ₀ := by
  refine steady_of_scalar (fun {σ r _} _ hσ hr hreading => ?_) (fun {σ _ r} hσ hr hg => ?_)
    fun hs hs' => ?_
  · simp only [itemsOf] at hreading
    split at hreading
    · split at hreading
      · cases hreading
        exact List.forall_mem_nil _
      · split at hreading
        · split at hreading <;> cases hreading
          rename_i items hitems
          exact hσ.has_items? hitems
        · cases hreading
          exact List.forall_mem_nil _
    · cases hreading
      exact has_nothing σ
  · simp only [itemsOf, hg.look hr]
    split
    · rename_i entries ho
      rw [hg.lookup? name (hσ.has_keys ho)]
      split
      · rfl
      · rename_i v hv
        have hhas : σ.Has v := hσ.has_field? hr (by rw [Store.field?, ho]; exact hv)
        rw [hg.isTruthy hhas, hg.items? hhas, hg.look hhas]
    · rfl
  · simp only [itemsOf, hs, hs']

theorem divisors_steady (σ₀ : Store) : divisors.Steady σ₀ := by
  refine steady_of_scalar (fun {σ r _} _ hσ hr hreading => ?_) (fun _ hr hg => ?_) fun hs hs' => ?_
  · simp only [divisors] at hreading
    split at hreading <;> cases hreading
    · intro x hx
      obtain ⟨d, -, rfl⟩ := List.mem_map.mp hx
      exact Store.has_scalar σ _
    · exact has_nothing σ
  · simp only [divisors, hg.look hr]
  · simp only [divisors, hs, hs']

end RecordFunction

/-! ### Adapters from options -/

/-- **Field names and steady functions** make steady accessors. -/
theorem Setting.steady_of_resolve {setting : Setting} {usual a : Accessor} {σ₀ : Store}
    (h : setting.resolve usual = .ok a) (husual : usual.Steady σ₀)
    (hsteady : ∀ f, setting = .function f → f.Steady σ₀) : a.Steady σ₀ := by
  cases setting with
  | unset =>
    cases h
    exact husual
  | field name =>
    cases h
    exact Accessor.steady_field name σ₀
  | function f =>
    cases h
    rintro _ ⟨⟩
    exact hsteady f rfl
  | unsuitable typeName => cases h

/-- **Options whose functions are steady** ask for a steady adapter. -/
theorem Adapter.steady_of_ofOptions {options : Options} {A : Adapter} {σ₀ : Store}
    (hA : ofOptions options = .ok A)
    (h : ∀ setting ∈ [options.id, options.name, options.className, options.children],
      ∀ f, setting = .function f → f.Steady σ₀) : A.Steady σ₀ := by
  simp only [List.forall_mem_cons] at h
  obtain ⟨hid, hname, hclass, hchildren, -⟩ := h
  obtain ⟨hid', hname', hclass', hchildren'⟩ := resolve_of_ofOptions hA
  refine ⟨fun kind => ?_, Setting.steady_of_resolve hchildren' (Accessor.steady_field _ σ₀) hchildren⟩
  cases kind with
  | id => exact Setting.steady_of_resolve hid' (Accessor.steady_field _ σ₀) hid
  | className => exact Setting.steady_of_resolve hclass' (Accessor.steady_field _ σ₀) hclass
  | name => exact Setting.steady_of_resolve hname' (Accessor.steady_field _ σ₀) hname

end RecordQuery
