import RecordQuery.Proofs.Search.Visit
import RecordQuery.Record.Printed

/-! # Stores that grow

New values get new places, and no place that is filled changes. What is read of a value, and how it
is printed, depends only on the values that can be reached from it, so in a store without dangling
references it stays the same while the store grows.

* `Store.Sound`: every reference in the store leads to a value, and what is wrapped was there
  before its wrapping.
* `Store.Grows`: a store and a later one in which all its places are as they were.
* `Store.Keeps`: a store and a later one that differs only in what wrapped records remember, and in
  the fields of some records.
* `Store.Keeps.readField`, `Store.Grows.readField`: fields stay the same.
* `Store.Grows.printed`: printed forms stay the same, since no printing needs more depth than it
  has. -/

namespace RecordQuery

/-! ### References of an object -/

/-- How many **places up to a reference** there are; one that needs no place has none. -/
def Ref.extent : Ref → Nat
  | .held place => place + 1
  | _ => 0

/-- A reference **comes before** a place: it leads to an earlier place, or needs none. -/
def Ref.Before (r : Ref) (place : Nat) : Prop := r.extent ≤ place

instance (r : Ref) (place : Nat) : Decidable (r.Before place) := inferInstanceAs (Decidable (_ ≤ _))

theorem Ref.Before.mono {r : Ref} {m n : Nat} (h : r.Before m) (hmn : m ≤ n) : r.Before n :=
  Nat.le_trans h hmn

/-- The references **in an object**. -/
def Object.refs : Object → List Ref
  | .scalar _ | .function _ | .locator _ _ => []
  | .list items | .tuple items | .set items | .frozenSet items | .stream items => items
  | .mapping entries | .readOnlyMapping entries => entries.flatMap fun entry => [entry.1, entry.2]
  | .attributes fields | .sealed fields => fields.map (·.2)
  | .node data => data.record :: data.parent :: data.children.toList
  | .collection nodes _ => nodes

/-- What an object **wraps**: the record of a node, the nodes of a collection. -/
def Object.wrapped : Object → List Ref
  | .node data => [data.record]
  | .collection nodes _ => nodes
  | _ => []

theorem Object.wrapped_subset_refs (o : Object) : ∀ r ∈ o.wrapped, r ∈ o.refs := by
  cases o <;> simp [Object.wrapped, Object.refs]

theorem Object.members_subset_refs (o : Object) : ∀ r ∈ o.members, r ∈ o.refs := by
  cases o <;> simp [Object.members, Object.refs]

theorem Object.mem_refs_of_entry {entries : List (Ref × Ref)} {entry : Ref × Ref}
    (h : entry ∈ entries) :
    entry.1 ∈ (Object.mapping entries).refs ∧ entry.2 ∈ (Object.mapping entries).refs := by
  constructor
  · exact List.mem_flatMap.mpr ⟨entry, h, List.mem_cons_self⟩
  · exact List.mem_flatMap.mpr ⟨entry, h, List.mem_cons_of_mem _ List.mem_cons_self⟩

/-! ### What objects keep -/

/-- An object **keeps** what it is, apart from the children that a wrapped record remembers, and from
the fields of a record if these may be set. -/
inductive Object.Keeps (settable : Prop) : Object → Object → Prop
  /-- Nothing changes. -/
  | same (o : Object) : Keeps settable o o
  /-- Other children are remembered, or none. -/
  | node (data : NodeData) (children : Option Ref) :
      Keeps settable (.node data) (.node { data with children })
  /-- A mapping gets other entries. -/
  | mapping (entries entries' : List (Ref × Ref)) : settable →
      Keeps settable (.mapping entries) (.mapping entries')
  /-- A record gets other attributes. -/
  | attributes (fields fields' : List (String × Ref)) : settable →
      Keeps settable (.attributes fields) (.attributes fields')

theorem Object.Keeps.trans {settable : Prop} {o o' o'' : Object} (h : o.Keeps settable o')
    (h' : o'.Keeps settable o'') : o.Keeps settable o'' := by
  cases h with
  | same => exact h'
  | node data children => cases h' <;> exact .node data _
  | mapping entries _ hset => cases h' <;> exact .mapping entries _ hset
  | attributes fields _ hset => cases h' <;> exact .attributes fields _ hset

theorem Object.Keeps.imp {p q : Prop} {o o' : Object} (h : o.Keeps p o') (hpq : p → q) :
    o.Keeps q o' := by
  cases h with
  | same => exact .same o
  | node data children => exact .node data children
  | mapping entries entries' hset => exact .mapping entries entries' (hpq hset)
  | attributes fields fields' hset => exact .attributes fields fields' (hpq hset)

namespace Store

variable {σ σ' σ'' : Store} {r : Ref}

/-- A store **has** a value when its place is filled, or when it needs none. -/
def Has (σ : Store) (r : Ref) : Prop := r.Before σ.size

instance (σ : Store) (r : Ref) : Decidable (σ.Has r) := inferInstanceAs (Decidable (r.Before _))

/-- A store is **sound** when it has every value that something in it refers to, and whatever is
wrapped was there before its wrapping. -/
structure Sound (σ : Store) : Prop where
  /-- The parts of an object are in the store. -/
  refs : ∀ place, ∀ r ∈ (σ.look (.held place)).refs, σ.Has r
  /-- The attributes that were given to objects are in the store. -/
  given : ∀ entry ∈ σ.given, σ.Has entry.2
  /-- Nothing is wrapped by itself, nor by what it wraps. -/
  wrapped : ∀ place, ∀ r ∈ (σ.look (.held place)).wrapped, r.Before place

/-- A store and one into which it **grows**: there may be new places, all others are as they were. -/
structure Grows (σ σ' : Store) : Prop where
  /-- No place is lost. -/
  size : σ.size ≤ σ'.size
  /-- No place changes. -/
  held : ∀ place < σ.size, σ'.look (.held place) = σ.look (.held place)
  /-- No attribute is given. -/
  given : σ'.given = σ.given

/-! ### Sound stores -/

theorem look_of_size_le {place : Nat} (h : σ.size ≤ place) :
    σ.look (.held place) = .scalar .null := by
  have hnone : σ.objects[place]? = none := Array.getElem?_eq_none_iff.mpr h
  rw [look, hnone]
  rfl

/-- Only a place that is filled holds anything but the absent value. -/
theorem lt_size_of_look_ne {place : Nat} (h : σ.look (.held place) ≠ .scalar .null) :
    place < σ.size := by
  by_contra hplace
  exact h (look_of_size_le (Nat.not_lt.mp hplace))

/-- A store has everything that is not the absent value. -/
theorem has_of_look_ne (h : σ.look r ≠ .scalar .null) : σ.Has r := by
  cases r with
  | held place => exact lt_size_of_look_ne h
  | _ => exact Nat.zero_le _

/-- Soundness is a matter of the places that are filled. -/
theorem sound_of_places
    (h : ∀ place < σ.size, (∀ r ∈ (σ.look (.held place)).refs, σ.Has r) ∧
      ∀ r ∈ (σ.look (.held place)).wrapped, r.Before place)
    (hgiven : ∀ entry ∈ σ.given, σ.Has entry.2) : σ.Sound := by
  have hnull : ∀ place, ¬ place < σ.size → σ.look (.held place) = .scalar .null :=
    fun place hplace => look_of_size_le (Nat.not_lt.mp hplace)
  refine ⟨fun place r hr => ?_, hgiven, fun place r hr => ?_⟩
  · by_cases hplace : place < σ.size
    · exact (h place hplace).1 r hr
    · rw [hnull place hplace] at hr
      exact absurd hr List.not_mem_nil
  · by_cases hplace : place < σ.size
    · exact (h place hplace).2 r hr
    · rw [hnull place hplace] at hr
      exact absurd hr List.not_mem_nil

/-- A sound store has the parts of every value. -/
theorem Sound.has_refs (h : σ.Sound) (r : Ref) : ∀ x ∈ (σ.look r).refs, σ.Has x := by
  cases r with
  | held place => exact h.refs place
  | _ => exact fun x hx => absurd hx List.not_mem_nil

theorem Sound.has_unwrapped (h : σ.Sound) (hr : σ.Has r) : σ.Has (σ.unwrapped r) := by
  rw [unwrapped]
  split
  · rename_i data hdata
    apply h.has_refs r
    rw [hdata]
    exact List.mem_cons_self
  · exact hr

theorem Sound.has_map_unwrapped (h : σ.Sound) {items : List Ref} (hitems : ∀ x ∈ items, σ.Has x) :
    ∀ x ∈ items.map σ.unwrapped, σ.Has x := by
  intro x hx
  obtain ⟨y, hy, rfl⟩ := List.mem_map.mp hx
  exact h.has_unwrapped (hitems y hy)

/-- **A sound store stays sound** when an object gets a place whose parts it has. -/
theorem Sound.alloc (h : σ.Sound) {o : Object} (ho : ∀ r ∈ o.refs, σ.Has r) :
    (σ.alloc o).2.Sound := by
  have hsize : (σ.alloc o).2.size = σ.size + 1 := Array.size_push ..
  have hmono : ∀ x, σ.Has x → (σ.alloc o).2.Has x := fun x hx =>
    hx.mono (by rw [hsize]; exact Nat.le_succ _)
  refine sound_of_places (fun place hplace => ?_) fun entry hentry => hmono _ (h.given entry hentry)
  rw [hsize] at hplace
  by_cases hlt : place < σ.size
  · rw [look_alloc_of_lt σ o hlt]
    exact ⟨fun x hx => hmono x (h.refs place x hx), h.wrapped place⟩
  · have heq : place = σ.size := by omega
    have hnew : (σ.alloc o).2.look (.held place) = o := heq ▸ look_alloc_self σ o
    rw [hnew]
    -- what is wrapped is a part of the object, so it was there before
    exact ⟨fun x hx => hmono x (ho x hx), fun x hx => heq ▸ ho x (o.wrapped_subset_refs x hx)⟩

/-! ### Growing -/

theorem Grows.refl (σ : Store) : σ.Grows σ := ⟨Nat.le_refl _, fun _ _ => rfl, rfl⟩

theorem Grows.trans (h : σ.Grows σ') (h' : σ'.Grows σ'') : σ.Grows σ'' where
  size := Nat.le_trans h.size h'.size
  held place hplace :=
    (h'.held place (Nat.lt_of_lt_of_le hplace h.size)).trans (h.held place hplace)
  given := h'.given.trans h.given

/-- A store grows by a new place. -/
theorem grows_alloc (σ : Store) (o : Object) : σ.Grows (σ.alloc o).2 where
  size := by
    show σ.objects.size ≤ (σ.objects.push o).size
    rw [Array.size_push]
    exact Nat.le_succ _
  held place hplace := look_alloc_of_lt σ o hplace
  given := rfl

/-- A store has what has just got a place. -/
theorem has_alloc (σ : Store) (o : Object) : (σ.alloc o).2.Has (σ.alloc o).1 := by
  have hsize : (σ.objects.push o).size = σ.objects.size + 1 := Array.size_push ..
  exact Nat.le_of_eq hsize.symm

theorem Grows.has (h : σ.Grows σ') (hr : σ.Has r) : σ'.Has r := Ref.Before.mono hr h.size

/-- **A value stays what it is** while the store grows. -/
theorem Grows.look (h : σ.Grows σ') (hr : σ.Has r) : σ'.look r = σ.look r := by
  cases r with
  | held place => exact h.held place hr
  | _ => rfl

theorem Grows.text? (h : σ.Grows σ') (hr : σ.Has r) : σ'.text? r = σ.text? r := by
  rw [Store.text?, Store.text?, h.look hr]

theorem Grows.isNull (h : σ.Grows σ') (hr : σ.Has r) : σ'.isNull r = σ.isNull r := by
  rw [Store.isNull, Store.isNull, h.look hr]

theorem Grows.unwrapped (h : σ.Grows σ') (hr : σ.Has r) : σ'.unwrapped r = σ.unwrapped r := by
  rw [Store.unwrapped, Store.unwrapped, h.look hr]

theorem Grows.map_unwrapped (h : σ.Grows σ') {items : List Ref} (hitems : ∀ x ∈ items, σ.Has x) :
    items.map σ'.unwrapped = items.map σ.unwrapped :=
  List.map_congr_left fun x hx => h.unwrapped (hitems x hx)

/-! ### What is remembered, and fields that are set -/

/-- A store and a later one in which nothing has changed but **what is remembered and the fields of
some records**; there may be new places. -/
structure Keeps (settable : Ref → Prop) (σ σ' : Store) : Prop where
  /-- No place is lost. -/
  size : σ.size ≤ σ'.size
  /-- Every object keeps what it is. -/
  held : ∀ place < σ.size,
    (σ.look (.held place)).Keeps (settable (.held place)) (σ'.look (.held place))
  /-- No other record is given an attribute. -/
  given : ∀ r name, ¬ settable r → σ'.given? r name = σ.given? r name

section

variable {settable : Ref → Prop}

theorem Grows.keeps (h : σ.Grows σ') (settable : Ref → Prop) : σ.Keeps settable σ' where
  size := h.size
  held place hplace := by
    rw [h.held place hplace]
    exact .same _
  given r name _ := by
    cases r with
    | held place => rw [given?, given?, h.given]
    | _ => rfl

theorem Keeps.trans (h : σ.Keeps settable σ') (h' : σ'.Keeps settable σ'') :
    σ.Keeps settable σ'' where
  size := Nat.le_trans h.size h'.size
  held place hplace :=
    (h.held place hplace).trans (h'.held place (Nat.lt_of_lt_of_le hplace h.size))
  given r name hr := (h'.given r name hr).trans (h.given r name hr)

theorem Keeps.imp {settable' : Ref → Prop} (h : σ.Keeps settable σ')
    (himp : ∀ r, settable r → settable' r) : σ.Keeps settable' σ' where
  size := h.size
  held place hplace := (h.held place hplace).imp (himp _)
  given r name hr := h.given r name fun hset => hr (himp r hset)

/-- A value keeps what it is. -/
theorem Keeps.look (h : σ.Keeps settable σ') (hr : σ.Has r) :
    (σ.look r).Keeps (settable r) (σ'.look r) := by
  cases r with
  | held place => exact h.held place hr
  | _ => exact .same _

/-! ### Fields and children -/

theorem Keeps.text? (h : σ.Keeps settable σ') (hr : σ.Has r) : σ'.text? r = σ.text? r := by
  have hlook := h.look hr
  rw [Store.text?, Store.text?]
  generalize σ.look r = o, σ'.look r = o' at hlook
  cases hlook <;> rfl

theorem Keeps.lookup? (h : σ.Keeps settable σ') (name : String) {entries : List (Ref × Ref)}
    (hkeys : ∀ entry ∈ entries, σ.Has entry.1) :
    σ'.lookup? name entries = σ.lookup? name entries := by
  rw [Store.lookup?, Store.lookup?]
  congr 1
  induction entries with
  | nil => rfl
  | cons entry entries ih =>
    obtain ⟨hentry, hentries⟩ := List.forall_mem_cons.mp hkeys
    rw [List.find?_cons, List.find?_cons, h.text? hentry, ih hentries]

/-- **A field does not depend on what is remembered**, nor on new values or on the fields of other
records. -/
theorem Keeps.field? (h : σ.Keeps settable σ') (hσ : σ.Sound) (hr : σ.Has r) (hnot : ¬ settable r)
    (name : String) : σ'.field? r name = σ.field? r name := by
  have hrefs := hσ.has_refs r
  have hlook := h.look hr
  rw [Store.field?, Store.field?, h.given r name hnot]
  generalize σ.look r = o, σ'.look r = o' at hlook hrefs
  cases hlook with
  | same =>
    cases o with
    | mapping entries =>
      exact h.lookup? name fun entry hentry => hrefs _ (Object.mem_refs_of_entry hentry).1
    | readOnlyMapping entries =>
      exact h.lookup? name fun entry hentry => hrefs _ (Object.mem_refs_of_entry hentry).1
    | _ => rfl
  | node => rfl
  | mapping _ _ hset => exact absurd hset hnot
  | attributes _ _ hset => exact absurd hset hnot

theorem Keeps.readField (h : σ.Keeps settable σ') (hσ : σ.Sound) (hr : σ.Has r)
    (hnot : ¬ settable r) (name : String) : σ'.readField r name = σ.readField r name := by
  rw [Store.readField, Store.readField, h.field? hσ hr hnot]

theorem Keeps.childrenOf (h : σ.Keeps settable σ') (hr : σ.Has r) :
    σ'.childrenOf r = σ.childrenOf r := by
  have hlook := h.look hr
  rw [Store.childrenOf, Store.childrenOf]
  generalize σ.look r = o, σ'.look r = o' at hlook
  cases hlook <;> rfl

end

theorem Grows.lookup? (h : σ.Grows σ') (name : String) {entries : List (Ref × Ref)}
    (hkeys : ∀ entry ∈ entries, σ.Has entry.1) :
    σ'.lookup? name entries = σ.lookup? name entries :=
  (h.keeps fun _ => False).lookup? name hkeys

/-- **A field stays the same** while the store grows. -/
theorem Grows.field? (h : σ.Grows σ') (hσ : σ.Sound) (hr : σ.Has r) (name : String) :
    σ'.field? r name = σ.field? r name :=
  (h.keeps fun _ => False).field? hσ hr id name

theorem Grows.readField (h : σ.Grows σ') (hσ : σ.Sound) (hr : σ.Has r) (name : String) :
    σ'.readField r name = σ.readField r name :=
  (h.keeps fun _ => False).readField hσ hr id name

theorem Grows.childrenOf (h : σ.Grows σ') (hr : σ.Has r) : σ'.childrenOf r = σ.childrenOf r :=
  (h.keeps fun _ => False).childrenOf hr

theorem Sound.has_childrenOf (h : σ.Sound) (r : Ref) : ∀ c ∈ σ.childrenOf r, σ.Has c :=
  fun c hc => h.has_refs r c (Object.members_subset_refs _ c hc)

theorem exists_mem_of_lookup? {name : String} {entries : List (Ref × Ref)} {x : Ref}
    (h : σ.lookup? name entries = some x) : ∃ entry ∈ entries, entry.2 = x := by
  obtain ⟨entry, hentry, rfl⟩ := Option.map_eq_some_iff.mp h
  exact ⟨entry, List.mem_of_find?_eq_some hentry, rfl⟩

theorem mem_of_lookup {κ α : Type} [BEq κ] [LawfulBEq κ] {entries : List (κ × α)} {key : κ} {x : α}
    (h : entries.lookup key = some x) : (key, x) ∈ entries := by
  obtain ⟨before, after, rfl, -⟩ := List.lookup_eq_some_iff.mp h
  exact List.mem_append_right _ List.mem_cons_self

/-- A scalar made on the spot needs no place. -/
theorem has_scalar (σ : Store) (s : Scalar) : σ.Has s.ref := by
  rw [Scalar.ref]
  split <;> exact Nat.zero_le _

theorem has_numberPart (hr : σ.Has r) {name : String} {s : Scalar} {x : Ref}
    (h : numberPart r name s = some x) : σ.Has x := by
  cases s with
  | bool b | int n | double y =>
    simp only [numberPart] at h
    grind [has_scalar]
  | _ => cases h

/-- A sound store has every field of its values. -/
theorem Sound.has_field? (h : σ.Sound) (hr : σ.Has r) {name : String} {x : Ref}
    (hx : σ.field? r name = some x) : σ.Has x := by
  have hrefs := h.has_refs r
  have hgiven : σ.given? r name = some x → σ.Has x := by
    intro hx
    cases r with
    | held place => exact h.given _ (mem_of_lookup hx)
    | _ => cases hx
  rw [Store.field?] at hx
  cases ho : σ.look r with
  | mapping entries | readOnlyMapping entries =>
    rw [ho] at hx hrefs
    obtain ⟨entry, hentry, rfl⟩ := exists_mem_of_lookup? hx
    exact hrefs _ (Object.mem_refs_of_entry hentry).2
  | attributes fields | sealed fields =>
    rw [ho] at hx hrefs
    exact hrefs x (List.mem_map.mpr ⟨_, mem_of_lookup hx, rfl⟩)
  | scalar s =>
    rw [ho] at hx
    exact has_numberPart hr hx
  | _ =>
    rw [ho] at hx
    exact hgiven hx

theorem Sound.has_readField (h : σ.Sound) (hr : σ.Has r) (name : String) :
    σ.Has (σ.readField r name) := by
  rw [Store.readField]
  cases hx : σ.field? r name with
  | none => exact Nat.zero_le _
  | some x => exact h.has_field? hr hx

end Store

/-! ### Printed forms -/

/-- The references that are **printed** for an object, where `record` takes the wrapping off. -/
def Object.shown (record : Ref → Ref) : Object → List Ref
  | .node data => [data.record]
  | .collection nodes _ => nodes.map record
  | .stream _ => []
  | o => o.refs

/-- The printed form of an object depends on the printed forms of what is shown of it. -/
theorem Object.printedWith_congr {inner inner' : Ref → String} {record record' : Ref → Ref}
    (o : Object) (hrecord : ∀ r ∈ o.refs, record' r = record r)
    (h : ∀ r ∈ o.shown record, inner' r = inner r) :
    o.printedWith inner' record' = o.printedWith inner record := by
  have hitems (items : List Ref) (hmem : ∀ r ∈ items, inner' r = inner r) :
      items.map inner' = items.map inner := List.map_congr_left hmem
  have hentries (entries : List (Ref × Ref))
      (hmem : ∀ r ∈ (Object.mapping entries).refs, inner' r = inner r) :
      ∀ entry ∈ entries, (inner' entry.1, inner' entry.2) = (inner entry.1, inner entry.2) := by
    intro entry hentry
    obtain ⟨hkey, hvalue⟩ := mem_refs_of_entry hentry
    rw [hmem _ hkey, hmem _ hvalue]
  cases o with
  | scalar s | stream items | function number | locator l n => rfl
  | list items => rw [printedWith, printedWith, hitems items h]
  | tuple items =>
    -- a tuple of one item is printed in its own way
    rcases items with - | ⟨x, - | ⟨y, rest⟩⟩
    · rfl
    · rw [printedWith, printedWith, h x List.mem_cons_self]
    · show listed "(" _ ")" = listed "(" _ ")"
      rw [hitems (x :: y :: rest) h]
  | set items =>
    cases items with
    | nil => rfl
    | cons x rest =>
      show listed "\x7b" _ "\x7d" = listed "\x7b" _ "\x7d"
      rw [hitems (x :: rest) h]
  | frozenSet items =>
    cases items with
    | nil => rfl
    | cons x rest =>
      show listed "frozenset(\x7b" _ "\x7d)" = listed "frozenset(\x7b" _ "\x7d)"
      rw [hitems (x :: rest) h]
  | mapping entries => exact congrArg braced (List.map_congr_left (hentries entries h))
  | readOnlyMapping entries =>
    rw [printedWith, printedWith]
    congr 3
    exact List.map_congr_left (hentries entries h)
  | attributes fields =>
    rw [printedWith, printedWith]
    congr 1
    refine List.map_congr_left fun field hfield => ?_
    have hvalue := h field.2 (List.mem_map_of_mem (List.mem_filter.mp hfield).1)
    show field.1 ++ "=" ++ inner' field.2 = field.1 ++ "=" ++ inner field.2
    rw [hvalue]
  | sealed fields =>
    rw [printedWith, printedWith]
    congr 3
    refine List.map_congr_left fun field hfield => ?_
    have hvalue := h field.2 (List.mem_map_of_mem hfield)
    show (Text.quoted field.1, inner' field.2) = (Text.quoted field.1, inner field.2)
    rw [hvalue]
  | node data => rw [printedWith, printedWith, h data.record List.mem_cons_self]
  | collection nodes n =>
    rw [printedWith, printedWith]
    congr 1
    refine List.map_congr_left fun node hnode => ?_
    rw [hrecord node hnode, h _ (List.mem_map_of_mem hnode)]

namespace Store

variable {σ σ' : Store} {r : Ref}

/-- A sound store has what is shown of its values. -/
theorem Sound.has_shown (h : σ.Sound) (r : Ref) : ∀ x ∈ (σ.look r).shown σ.unwrapped, σ.Has x := by
  have hrefs := h.has_refs r
  intro x hx
  cases ho : σ.look r with
  | node data =>
    rw [ho] at hx hrefs
    rw [List.mem_singleton.mp hx]
    exact hrefs _ List.mem_cons_self
  | collection nodes n =>
    rw [ho] at hx hrefs
    exact h.has_map_unwrapped hrefs x hx
  | stream items =>
    rw [ho] at hx
    exact absurd hx List.not_mem_nil
  | _ =>
    rw [ho] at hx hrefs
    exact hrefs x hx

/-- What is taken out of a wrapping comes before everything that the wrapping comes before. -/
theorem Sound.before_unwrapped (h : σ.Sound) {place : Nat} (hr : r.Before place) :
    (σ.unwrapped r).Before place := by
  cases r with
  | held inner =>
    rw [unwrapped]
    split
    · rename_i data hdata
      have hrecord : data.record.Before inner := by
        apply h.wrapped inner
        rw [hdata]
        exact List.mem_cons_self
      exact hrecord.mono (Nat.le_of_lt hr)
    · exact hr
  | _ => trivial

/-- What is shown of a wrapping was there before it. -/
theorem Sound.before_of_shown (h : σ.Sound) {place : Nat}
    (hcut : (σ.look (.held place)).cut? = none) :
    ∀ x ∈ (σ.look (.held place)).shown σ.unwrapped, x.Before place := by
  have hwrapped := h.wrapped place
  intro x hx
  cases ho : σ.look (.held place) with
  | node data =>
    rw [ho] at hx hwrapped
    exact hwrapped x hx
  | collection nodes n =>
    rw [ho] at hx hwrapped
    obtain ⟨node, hnode, rfl⟩ := List.mem_map.mp hx
    exact h.before_unwrapped (hwrapped node hnode)
  | scalar | function | locator | stream =>
    rw [ho] at hx
    exact absurd hx List.not_mem_nil
  | _ =>
    rw [ho] at hcut
    cases hcut

/-- How much **depth** the printing of a value inside the given places may take: for each place that
is not open yet as much as there are places, and then as far back as the value's place is. -/
def depthNeeded (σ : Store) (inside : List Nat) (r : Ref) : Nat :=
  Graph.unopened (List.range σ.size) inside * (σ.size + 1) + r.extent

theorem depthNeeded_held_pos (σ : Store) (inside : List Nat) (place : Nat) :
    0 < σ.depthNeeded inside (.held place) :=
  Nat.add_pos_right _ (Nat.succ_pos place)

/-- A wrapping takes more depth than what was there before it. -/
theorem depthNeeded_lt_of_before {inside : List Nat} {place : Nat} (hr : r.Before place) :
    σ.depthNeeded inside r < σ.depthNeeded inside (.held place) := by
  rw [depthNeeded, depthNeeded]
  apply Nat.add_lt_add_left
  exact Nat.lt_succ_of_le hr

/-- A place that is opened takes more depth than what is inside it. -/
theorem depthNeeded_cons_lt {inside : List Nat} {place : Nat} (hplace : place < σ.size)
    (hnew : place ∉ inside) (hr : σ.Has r) :
    σ.depthNeeded (place :: inside) r < σ.depthNeeded inside (.held place) := by
  have hless : Graph.unopened (List.range σ.size) (place :: inside) <
      Graph.unopened (List.range σ.size) inside :=
    Graph.unopened_cons_lt (List.mem_range.mpr hplace) hnew
  have hback : r.extent ≤ σ.size := hr
  have hmul := Nat.mul_le_mul_right (σ.size + 1) (Nat.succ_le_of_lt hless)
  rw [Nat.succ_mul] at hmul
  rw [depthNeeded, depthNeeded]
  omega

/-- **Enough depth is enough**: the printed form is the same for every depth from the needed one on,
also in a store that has grown. The induction is on the depth; a wrapping leads back to an earlier
place, and any other object opens its place. -/
theorem Grows.printedInside (h : σ.Grows σ') (hσ : σ.Sound) {inside : List Nat} {depth depth' : Nat}
    (hr : σ.Has r) (hdepth : σ.depthNeeded inside r ≤ depth)
    (hdepth' : σ.depthNeeded inside r ≤ depth') :
    σ'.printedInside depth' inside r = σ.printedInside depth inside r := by
  induction depth generalizing depth' inside r with
  | zero =>
    cases r with
    | held place =>
      exact absurd hdepth (Nat.not_le.mpr (σ.depthNeeded_held_pos inside place))
    | _ => cases depth' <;> rfl
  | succ depth ih =>
    cases r with
    | held place =>
      obtain ⟨depth', rfl⟩ : ∃ n, depth' = n + 1 := by
        have hpos := Nat.lt_of_lt_of_le (σ.depthNeeded_held_pos inside place) hdepth'
        exact Nat.exists_eq_succ_of_ne_zero (Nat.ne_of_gt hpos)
      have hrecord : ∀ x ∈ (σ.look (.held place)).refs, σ'.unwrapped x = σ.unwrapped x :=
        fun x hx => h.unwrapped (hσ.refs place x hx)
      have hshown : ∀ x ∈ (σ.look (.held place)).shown σ.unwrapped, σ.Has x := hσ.has_shown _
      rw [Store.printedInside, Store.printedInside, h.look hr]
      cases hcut : (σ.look (.held place)).cut? with
      | none =>
        refine Object.printedWith_congr _ hrecord fun x hx => ih (hshown x hx) ?_ ?_
        all_goals
          have hlt : σ.depthNeeded inside x < σ.depthNeeded inside (.held place) :=
            depthNeeded_lt_of_before (hσ.before_of_shown hcut x hx)
          omega
      | some mark =>
        by_cases hin : place ∈ inside
        · simp [hin]
        · have hopen : inside.contains place = false := by simpa using hin
          simp only [hopen]
          refine Object.printedWith_congr _ hrecord fun x hx => ih (hshown x hx) ?_ ?_
          all_goals
            have hlt := depthNeeded_cons_lt hr hin (hshown x hx)
            omega
    | _ => cases depth' <;> rfl

/-- Printing has as much depth as any value needs. -/
theorem depthNeeded_le (hr : σ.Has r) (inside : List Nat) :
    σ.depthNeeded inside r ≤ σ.printingDepth := by
  have hopen : Graph.unopened (List.range σ.size) inside ≤ σ.size := by
    have hle := List.length_filter_le (fun x => decide (x ∉ inside)) (List.range σ.size)
    rwa [List.length_range] at hle
  have hmul := Nat.mul_le_mul_right (σ.size + 1) hopen
  have hback : r.extent ≤ σ.size := hr
  rw [depthNeeded, printingDepth, Nat.succ_mul]
  omega

theorem Grows.printingDepth_le (h : σ.Grows σ') : σ.printingDepth ≤ σ'.printingDepth :=
  Nat.mul_le_mul (Nat.succ_le_succ h.size) (Nat.succ_le_succ h.size)

/-- **A printed form stays the same** while the store grows. -/
theorem Grows.printed (h : σ.Grows σ') (hσ : σ.Sound) (hr : σ.Has r) :
    σ'.printed r = σ.printed r := by
  have hneed := depthNeeded_le hr []
  exact h.printedInside hσ hr hneed (Nat.le_trans hneed h.printingDepth_le)

theorem Grows.plainText (h : σ.Grows σ') (hσ : σ.Sound) (hr : σ.Has r) :
    σ'.plainText r = σ.plainText r := by
  have hprinted := h.printed hσ hr
  have hlook := h.look hr
  have hrefs := hσ.has_refs r
  rw [Store.plainText.eq_def, Store.plainText.eq_def, hlook]
  split
  · rfl
  · rename_i place entries ho
    rw [ho] at hrefs
    refine Object.printedWith_congr _ (fun x hx => h.unwrapped (hrefs x hx)) fun x hx => ?_
    have hneed := depthNeeded_le (hrefs x hx) [place]
    exact h.printedInside hσ (hrefs x hx) hneed (Nat.le_trans hneed h.printingDepth_le)
  · exact hprinted

end Store

end RecordQuery
