import RecordQuery.Adapter.Basic
import RecordQuery.Proofs.Record.Settling

/-! # Stores that are written to

A place of a store is written to in few ways: a record gets a field, a wrapped record remembers or
forgets its children, and items that can be taken once are taken. Whatever is written, a wrapped
record keeps its record, and a list keeps its items. As long as no field is set, a record is read as
before, whatever is remembered.

* `Object.Becomes`, `Store.Evolves`: what can become of an object, and of a store.
* `Store.writeField_cases`: what setting a field does.
* `Store.Sound.put`, `Store.Sound.writeField`: a sound store stays sound.
* `Store.keeps_writeField`: other records keep what they are.
* `Adapter.Faithful`: the children do not depend on what is remembered. -/

namespace RecordQuery

/-- Whether an object is a wrapped record or a collection of these. -/
def Object.isWrapper : Object → Bool
  | .node _ | .collection .. => true
  | _ => false

/-- What can **become of an object** while its store is written to. -/
inductive Object.Becomes : Object → Object → Prop
  /-- Nothing is written. -/
  | same (o : Object) : Becomes o o
  /-- Other children are remembered, or none. -/
  | node (data : NodeData) (children : Option Ref) :
      Becomes (.node data) (.node { data with children })
  /-- A mapping gets other entries. -/
  | mapping (entries entries' : List (Ref × Ref)) : Becomes (.mapping entries) (.mapping entries')
  /-- A record gets other attributes. -/
  | attributes (fields fields' : List (String × Ref)) :
      Becomes (.attributes fields) (.attributes fields')
  /-- Items are taken. -/
  | stream (items : List Ref) : Becomes (.stream items) (.stream [])

theorem Object.Becomes.trans {o o' o'' : Object} (h : o.Becomes o') (h' : o'.Becomes o'') :
    o.Becomes o'' := by
  cases h with
  | same => exact h'
  | node data children => cases h' <;> exact .node data _
  | mapping entries _ => cases h' <;> exact .mapping entries _
  | attributes fields _ => cases h' <;> exact .attributes fields _
  | stream items => cases h' <;> exact .stream items

/-- A wrapped record becomes one with other children. -/
theorem Object.Becomes.of_node {data : NodeData} {o : Object} (h : (Object.node data).Becomes o) :
    ∃ children, o = .node { data with children } := by
  cases h with
  | same => exact ⟨data.children, rfl⟩
  | node _ children => exact ⟨children, rfl⟩

/-- A wrapped record has become of one with other children. -/
theorem Object.Becomes.eq_node {data : NodeData} {o : Object} (h : o.Becomes (.node data)) :
    ∃ children, o = .node { data with children } := by
  cases h with
  | same => exact ⟨data.children, rfl⟩
  | node old _ => exact ⟨old.children, rfl⟩

/-- Keeping what it is, is one of the things that can become of an object. -/
theorem Object.Keeps.becomes {settable : Prop} {o o' : Object} (h : o.Keeps settable o') :
    o.Becomes o' := by
  cases h with
  | same => exact .same o
  | node data children => exact .node data children
  | mapping entries entries' _ => exact .mapping entries entries'
  | attributes fields fields' _ => exact .attributes fields fields'

namespace Store

variable {σ σ' σ'' : Store} {r s : Ref} {o : Object} {name : String} {key value : Ref}

theorem has_of_size (hr : σ.Has r) (h : σ.size ≤ σ'.size) : σ'.Has r := Ref.Before.mono hr h

/-- Behind the places of a store there is one new place, with the new object. -/
theorem look_alloc_cases {σ : Store} {o : Object} {r : Ref}
    (h : (σ.alloc o).2.look r ≠ .scalar .null) :
    (σ.alloc o).2.look r = σ.look r ∧ σ.Has r ∨ r = (σ.alloc o).1 ∧ (σ.alloc o).2.look r = o := by
  cases r with
  | held place =>
    have hlt := lt_size_of_look_ne h
    have hsize : (σ.alloc o).2.size = σ.size + 1 := Array.size_push ..
    rcases Nat.lt_or_ge place σ.size with hold | hnew
    · exact .inl ⟨σ.look_alloc_of_lt o hold, hold⟩
    · have heq : place = σ.size := by omega
      subst heq
      exact .inr ⟨rfl, σ.look_alloc_self o⟩
  | _ => exact .inl ⟨rfl, Nat.zero_le _⟩

/-! ### Writing to a place -/

/-- Writing changes one place at most. -/
theorem look_put (σ : Store) (r s : Ref) (o : Object) :
    (σ.put r o).look s = σ.look s ∨ s = r ∧ (σ.put r o).look s = o := by
  by_cases hs : s = r
  · subst hs
    cases s with
    | held place =>
      by_cases hplace : place < σ.objects.size
      · exact Or.inr ⟨rfl, by simp [put, look, hplace]⟩
      · exact Or.inl (by simp [put, look, hplace])
    | _ => exact Or.inl rfl
  · exact Or.inl (look_put_of_ne σ o hs)

/-- A filled place holds what is written to it. -/
theorem look_put_held {place : Nat} (h : place < σ.size) (o : Object) :
    (σ.put (.held place) o).look (.held place) = o := by
  have hplace : place < σ.objects.size := h
  simp [put, look, hplace]

theorem given_put (σ : Store) (r : Ref) (o : Object) : (σ.put r o).given = σ.given := by
  cases r <;> rfl

/-- **A sound store stays sound** when an object gets other parts that it has, and wraps nothing
else. -/
theorem Sound.put (h : σ.Sound) (ho : ∀ x ∈ o.refs, σ.Has x)
    (hwrapped : ∀ x ∈ o.wrapped, x ∈ (σ.look r).wrapped) : (σ.put r o).Sound := by
  have hhas : ∀ x, σ.Has x → (σ.put r o).Has x := fun x hx =>
    has_of_size hx (Nat.le_of_eq (size_put σ r o).symm)
  refine ⟨fun place x hx => ?_, fun entry hentry => ?_, fun place x hx => ?_⟩
  · rcases σ.look_put r (.held place) o with hlook | ⟨-, hlook⟩ <;> rw [hlook] at hx
    · exact hhas x (h.refs place x hx)
    · exact hhas x (ho x hx)
  · rw [given_put] at hentry
    exact hhas _ (h.given entry hentry)
  · rcases σ.look_put r (.held place) o with hlook | ⟨rfl, hlook⟩ <;> rw [hlook] at hx
    · exact h.wrapped place x hx
    · exact h.wrapped place x (hwrapped x hx)

/-! ### Setting a field -/

/-- The entries after a field was set are those from before, with the new value. -/
theorem mem_setEntry {κ α : Type} {isName : κ → Bool} {key : κ} {value : α}
    {entries : List (κ × α)} {entry : κ × α} (h : entry ∈ setEntry isName key value entries) :
    (entry.1 = key ∨ ∃ old ∈ entries, old.1 = entry.1) ∧ (entry.2 = value ∨ entry ∈ entries) := by
  induction entries with
  | nil =>
    rw [setEntry, List.mem_singleton] at h
    exact ⟨.inl (by rw [h]), .inl (by rw [h])⟩
  | cons first rest ih =>
    rw [setEntry] at h
    split at h
    · rcases List.mem_cons.mp h with rfl | h
      · exact ⟨.inr ⟨first, List.mem_cons_self, rfl⟩, .inl rfl⟩
      · have hmem := List.mem_cons_of_mem first h
        exact ⟨.inr ⟨entry, hmem, rfl⟩, .inr hmem⟩
    · rcases List.mem_cons.mp h with rfl | h
      · exact ⟨.inr ⟨entry, List.mem_cons_self, rfl⟩, .inr List.mem_cons_self⟩
      · obtain ⟨hkey, hvalue⟩ := ih h
        refine ⟨hkey.imp_right ?_, hvalue.imp_right (List.mem_cons_of_mem first)⟩
        rintro ⟨old, hold, heq⟩
        exact ⟨old, List.mem_cons_of_mem first hold, heq⟩

/-- **What setting a field does**: it changes the entries of a mapping or the attributes of a record,
or gives an attribute to an object that has none by itself. -/
theorem writeField_cases (h : σ.writeField r name key value = .ok σ') :
    (∃ entries, σ.look r = .mapping entries ∧
      σ' = σ.put r (.mapping (setEntry (fun k => σ.text? k == some name) key value entries))) ∨
    (∃ fields, σ.look r = .attributes fields ∧
      σ' = σ.put r (.attributes (setEntry (· == name) name value fields))) ∨
    σ' = σ.give r name value := by
  rw [writeField] at h
  split at h
  case h_4 entries ho => exact .inl ⟨entries, ho, (Except.ok.inj h).symm⟩
  case h_5 fields ho => exact .inr (.inl ⟨fields, ho, (Except.ok.inj h).symm⟩)
  case h_7 =>
    split at h
    · cases h
    · exact .inr (.inr (Except.ok.inj h).symm)
  case h_8 | h_9 | h_10 => exact .inr (.inr (Except.ok.inj h).symm)
  all_goals cases h

theorem look_give (σ : Store) (r s : Ref) (name : String) (value : Ref) :
    (σ.give r name value).look s = σ.look s := by
  cases r <;> cases s <;> rfl

theorem size_give (σ : Store) (r : Ref) (name : String) (value : Ref) :
    (σ.give r name value).size = σ.size := by
  cases r <;> rfl

theorem size_writeField (h : σ.writeField r name key value = .ok σ') : σ'.size = σ.size := by
  rcases writeField_cases h with ⟨_, -, rfl⟩ | ⟨_, -, rfl⟩ | rfl
  · exact size_put _ _ _
  · exact size_put _ _ _
  · exact size_give σ r name value

theorem lookup_setEntry_of_ne {κ α : Type} [BEq κ] [LawfulBEq κ] {key other : κ} (h : other ≠ key)
    (value : α) (entries : List (κ × α)) :
    (setEntry (· == key) key value entries).lookup other = entries.lookup other := by
  induction entries with
  | nil => simp [setEntry, h]
  | cons entry entries ih =>
    rw [setEntry]
    split
    · rename_i hkey
      have hne : (other == entry.1) = false := by
        rw [eq_of_beq hkey]
        exact beq_false_of_ne h
      rw [List.lookup_cons, List.lookup_cons, hne]
    · rw [List.lookup_cons, List.lookup_cons, ih]

/-- Giving an attribute to an object gives none to another one. -/
theorem given?_give_of_ne (h : s ≠ r) (value : Ref) (name' : String) :
    (σ.give r name value).given? s name' = σ.given? s name' := by
  cases r with
  | held place =>
    cases s with
    | held other =>
      refine lookup_setEntry_of_ne (fun heq => h ?_) value σ.given
      rw [(Prod.mk.inj heq).1]
    | _ => rfl
  | _ => rfl

/-- Writing what keeps the object keeps the store. -/
theorem keeps_put {settable : Ref → Prop} (h : (σ.look r).Keeps (settable r) o) :
    σ.Keeps settable (σ.put r o) where
  size := Nat.le_of_eq (size_put σ r o).symm
  held place _ := by
    rcases σ.look_put r (.held place) o with hlook | ⟨rfl, hlook⟩ <;> rw [hlook]
    · exact .same _
    · exact h
  given s name _ := by
    cases s with
    | held other => rw [given?, given?, given_put]
    | _ => rfl

/-- **Setting a field changes nothing but the fields of the record.** -/
theorem keeps_writeField {settable : Ref → Prop} (h : σ.writeField r name key value = .ok σ')
    (hr : settable r) : σ.Keeps settable σ' := by
  rcases writeField_cases h with ⟨entries, ho, rfl⟩ | ⟨fields, ho, rfl⟩ | rfl
  · exact keeps_put (ho ▸ .mapping _ _ hr)
  · exact keeps_put (ho ▸ .attributes _ _ hr)
  · refine ⟨Nat.le_of_eq (size_give σ r name value).symm, fun place _ => ?_, fun s name' hs => ?_⟩
    · rw [look_give]
      exact .same _
    · have hne : s ≠ r := fun heq => hs (heq.symm ▸ hr)
      exact given?_give_of_ne hne value name'

/-- **A sound store stays sound** when a field gets a value that it has. -/
theorem Sound.writeField (h : σ.Sound) (hkey : σ.Has key) (hvalue : σ.Has value)
    (hwrite : σ.writeField r name key value = .ok σ') : σ'.Sound := by
  have hrefs := h.has_refs r
  rcases writeField_cases hwrite with ⟨entries, ho, rfl⟩ | ⟨fields, ho, rfl⟩ | rfl
  · rw [ho] at hrefs
    refine h.put (fun x hx => ?_) fun x hx => absurd hx List.not_mem_nil
    obtain ⟨entry, hentry, hx⟩ := List.mem_flatMap.mp hx
    obtain ⟨hfirst, hsecond⟩ := mem_setEntry hentry
    simp only [List.mem_cons, List.not_mem_nil, or_false] at hx
    rcases hx with rfl | rfl
    · rcases hfirst with hfirst | ⟨old, hold, heq⟩
      · rwa [hfirst]
      · exact heq ▸ hrefs _ (Object.mem_refs_of_entry hold).1
    · rcases hsecond with hsecond | hold
      · rwa [hsecond]
      · exact hrefs _ (Object.mem_refs_of_entry hold).2
  · rw [ho] at hrefs
    refine h.put (fun x hx => ?_) fun x hx => absurd hx List.not_mem_nil
    obtain ⟨entry, hentry, rfl⟩ := List.mem_map.mp hx
    rcases (mem_setEntry hentry).2 with hnew | hold
    · rwa [hnew]
    · exact hrefs _ (List.mem_map_of_mem hold)
  · have hhas : ∀ x, σ.Has x → (σ.give r name value).Has x := fun x hx =>
      has_of_size hx (Nat.le_of_eq (size_give σ r name value).symm)
    refine ⟨fun place x hx => ?_, fun entry hentry => ?_, fun place x hx => ?_⟩
    · rw [look_give] at hx
      exact hhas x (h.refs place x hx)
    · cases r with
      | held place =>
        rcases (mem_setEntry hentry).2 with hnew | hold
        · exact hhas _ (hnew ▸ hvalue)
        · exact hhas _ (h.given entry hold)
      | _ => exact hhas _ (h.given entry hentry)
    · rw [look_give] at hx
      exact h.wrapped place x hx

/-! ### What becomes of a store -/

/-- A store and what **becomes of it** while it is written to and grows. -/
structure Evolves (σ σ' : Store) : Prop where
  /-- No place is lost. -/
  size : σ.size ≤ σ'.size
  /-- Every object has become what can become of it. -/
  held : ∀ place < σ.size, (σ.look (.held place)).Becomes (σ'.look (.held place))

theorem Evolves.refl (σ : Store) : σ.Evolves σ := ⟨Nat.le_refl _, fun _ _ => .same _⟩

theorem Evolves.trans (h : σ.Evolves σ') (h' : σ'.Evolves σ'') : σ.Evolves σ'' where
  size := Nat.le_trans h.size h'.size
  held place hplace :=
    (h.held place hplace).trans (h'.held place (Nat.lt_of_lt_of_le hplace h.size))

/-- Remembering and setting fields are among the things that can become of a store. -/
theorem Keeps.evolves {settable : Ref → Prop} (h : σ.Keeps settable σ') : σ.Evolves σ' where
  size := h.size
  held place hplace := (h.held place hplace).becomes

/-- Every object has become what can become of it, wherever it is. -/
theorem Evolves.look (h : σ.Evolves σ') (hr : σ.look r ≠ .scalar .null) :
    (σ.look r).Becomes (σ'.look r) := by
  cases r with
  | held place => exact h.held place (lt_size_of_look_ne hr)
  | _ => exact .same _

/-- **A wrapped record keeps its record**, the one above it and its adapter. -/
theorem Evolves.node (h : σ.Evolves σ') {data : NodeData} (hr : σ.look r = .node data) :
    ∃ children, σ'.look r = .node { data with children } := by
  have hbecomes := h.look (r := r) (by rw [hr]; exact fun heq => nomatch heq)
  rw [hr] at hbecomes
  exact hbecomes.of_node

/-- **A list keeps its items.** -/
theorem Evolves.list (h : σ.Evolves σ') {items : List Ref} (hr : σ.look r = .list items) :
    σ'.look r = .list items := by
  have hbecomes := h.look (r := r) (by rw [hr]; exact fun heq => nomatch heq)
  rw [hr] at hbecomes
  generalize hlook : σ'.look r = o at hbecomes
  cases hbecomes with
  | same => rfl

/-- Every object is what became of one, if there are no new places. -/
theorem Evolves.look_of (h : σ.Evolves σ') (hsize : σ'.size = σ.size)
    (hr : σ'.look r ≠ .scalar .null) : (σ.look r).Becomes (σ'.look r) := by
  cases r with
  | held place => exact h.held place (hsize ▸ lt_size_of_look_ne hr)
  | _ => exact .same _

/-- Without new places, what is wrapped was wrapped before. -/
theorem Evolves.node_of (h : σ.Evolves σ') (hsize : σ'.size = σ.size) {data : NodeData}
    (hr : σ'.look r = .node data) : ∃ children, σ.look r = .node { data with children } := by
  have hbecomes := h.look_of (r := r) hsize (by rw [hr]; exact fun heq => nomatch heq)
  rw [hr] at hbecomes
  exact hbecomes.eq_node

/-- Without new places, what is collected was collected before. -/
theorem Evolves.collection_of (h : σ.Evolves σ') (hsize : σ'.size = σ.size) {nodes : List Ref}
    {n : Nat} (hr : σ'.look r = .collection nodes n) : σ.look r = .collection nodes n := by
  have hbecomes := h.look_of (r := r) hsize (by rw [hr]; exact fun heq => nomatch heq)
  rw [hr] at hbecomes
  generalize hlook : σ.look r = o at hbecomes
  cases hbecomes with
  | same => rfl

/-- A scalar stays at its place. -/
theorem Evolves.scalar (h : σ.Evolves σ') {place : Nat} {s : Scalar} (hplace : place < σ.size)
    (hs : σ.look (.held place) = .scalar s) : σ'.look (.held place) = .scalar s := by
  have hbecomes := h.held place hplace
  rw [hs] at hbecomes
  generalize hlook : σ'.look (.held place) = o at hbecomes
  cases hbecomes with
  | same => rfl

/-! ### Values that get a place -/

/-- What values have become is in the later store. -/
theorem has_of_settles {rs rs' : List Ref} (h : List.Forall₂ (σ.Settles σ') rs rs')
    (hsize : σ.size ≤ σ'.size) : ∀ r' ∈ rs', σ'.Has r' := by
  induction h with
  | nil => exact List.forall_mem_nil _
  | cons hr _ ih =>
    refine List.forall_mem_cons.mpr ⟨?_, ih⟩
    cases hr with
    | same hr => exact has_of_size hr hsize
    | placed _ hlt _ => exact hlt

/-- What a value has become stays so, whatever becomes of the later store. -/
theorem Settles.evolve {r' : Ref} (h : σ.Settles σ' r r') (hevolves : σ'.Evolves σ'') :
    σ.Settles σ'' r r' := by
  cases h with
  | same hr => exact .same hr
  | placed hle hlt hlook =>
    exact .placed hle (Nat.lt_of_lt_of_le hlt hevolves.size) (hevolves.scalar hlt hlook)

/-- What a value has become since a store, it has become since a smaller one. -/
theorem Settles.earlier {r' : Ref} (h : σ'.Settles σ'' r r') (hr : σ.Has r)
    (hsize : σ.size ≤ σ'.size) : σ.Settles σ'' r r' := by
  cases h with
  | same _ => exact .same hr
  | placed hle hlt hlook => exact .placed (Nat.le_trans hsize hle) hlt hlook

/-! ### Remembering -/

/-- A store has what is wrapped. -/
theorem has_of_look_node {data : NodeData} (h : σ.look r = .node data) : σ.Has r :=
  has_of_look_ne (by rw [h]; exact fun heq => nomatch heq)

theorem look_remember {data : NodeData} (h : σ.look r = .node data) (o : Object) :
    (σ.put r o).look r = o := by
  have hhas := has_of_look_node h
  cases r with
  | held place => exact look_put_held hhas o
  | _ => cases h

/-- Remembering children that a sound store has leaves it sound. -/
theorem Sound.remember (hσ : σ.Sound) {data : NodeData} (h : σ.look r = .node data)
    {children : Option Ref} (hchildren : ∀ x ∈ children, σ.Has x) :
    (σ.put r (.node { data with children })).Sound := by
  have hparts := hσ.has_refs r
  rw [h] at hparts
  refine hσ.put (fun x hx => ?_) fun x hx => by rwa [h]
  simp only [Object.refs, List.mem_cons] at hx
  rcases hx with rfl | rfl | hx
  · exact hparts _ List.mem_cons_self
  · exact hparts _ (List.mem_cons_of_mem _ List.mem_cons_self)
  · exact hchildren x (Option.mem_toList.mp hx)

/-- Remembering other children changes nothing else. -/
theorem keeps_remember {settable : Ref → Prop} {data : NodeData} (h : σ.look r = .node data)
    (children : Option Ref) : σ.Keeps settable (σ.put r (.node { data with children })) :=
  keeps_put (h ▸ .node data children)

end Store

/-! ### Adapters -/

/-- An adapter is **faithful** to a record in a store when the children that it reads there do not
depend on what is remembered, nor on new values, nor on the fields of records that may be set. -/
def Adapter.Faithful (A : Adapter) (σ : Store) (r : Ref) (settable : Ref → Prop) : Prop :=
  ∀ σ', σ.Sound → σ.Has r → σ.Keeps settable σ' → A.childrenOf σ' r = A.childrenOf σ r

/-- **An adapter that reads the children from a field** is faithful to a record, as long as no field
of this record is set. -/
theorem Adapter.faithful_of_field {A : Adapter} {name : String} (h : A.children = .field name)
    (σ : Store) {r : Ref} {settable : Ref → Prop} (hr : ¬ settable r) :
    A.Faithful σ r settable := by
  intro σ' hσ hhas hkeeps
  have hread : σ'.readField r name = σ.readField r name := hkeeps.readField hσ hhas hr name
  rw [childrenOf, childrenOf, h]
  show Except.ok (σ'.childrenOf (σ'.readField r name)) = .ok (σ.childrenOf (σ.readField r name))
  rw [hread, hkeeps.childrenOf (hσ.has_readField hhas name)]

/-- An adapter stays **inside** the stores of a size and larger ones when the children that it reads
there are in the store. -/
def Adapter.Inside (A : Adapter) (size : Nat) : Prop :=
  ∀ σ r cs, size ≤ σ.size → σ.Sound → σ.Has r → A.childrenOf σ r = .ok cs → ∀ c ∈ cs, σ.Has c

theorem Adapter.inside_of_field {A : Adapter} {name : String} (h : A.children = .field name)
    (size : Nat) : A.Inside size := by
  intro σ r cs _ hσ _ hcs
  rw [childrenOf, h] at hcs
  cases hcs
  exact hσ.has_childrenOf _

end RecordQuery
