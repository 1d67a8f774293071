import RecordQuery.Proofs.Record.Evolving

/-! # Fields that are set

A field can be set in a mapping that can be written to, in a record with attributes, in a function
and in a locator, and in nothing else that is not wrapped or collected. Setting it gives the record
this field and touches nothing besides: no other field of the record, no other record, and no wrapped
record, until one forgets its children.

* `Object.holdsFields`: the objects in which a field can be set.
* `Store.SetsField`: a store and a later one in which a field of some records was set.
* `Store.exists_writeField`, `Store.writeField_refused`: a field is set, or refused.
* `Store.SetsField.append`: setting a field of some records, and then of others. -/

namespace RecordQuery

/-- Whether a field can be **set** in an object that is neither wrapped nor collected: in a mapping
that can be written to, a record with attributes, a function or a locator. -/
def Object.holdsFields : Object → Bool
  | .mapping _ | .attributes _ | .function _ | .locator .. => true
  | _ => false

/-- An object in which a field can be set stays one. -/
theorem Object.Becomes.holdsFields_eq {o o' : Object} (h : o.Becomes o') :
    o'.holdsFields = o.holdsFields := by
  cases h <;> rfl

namespace Store

/-! ### Entries -/

section

variable {κ α : Type} {p q : κ → Bool} {key : κ}

/-- Setting a field keeps the entries under **other names**, in their order. -/
theorem filter_setEntry (hkey : p key) (value : α) (entries : List (κ × α)) :
    (setEntry p key value entries).filter (fun entry => !p entry.1) =
      entries.filter fun entry => !p entry.1 := by
  induction entries with
  | nil => simp [setEntry, hkey]
  | cons entry entries ih =>
    rw [setEntry]
    split
    case isTrue hentry => simp [hentry]
    case isFalse hentry => simp [hentry, ih]

/-- The first entry under the name has the value that was set. -/
theorem find?_setEntry_self (hkey : p key) (value : α) (entries : List (κ × α)) :
    ((setEntry p key value entries).find? fun entry => p entry.1).map (·.2) =
      some value := by
  induction entries with
  | nil => simp [setEntry, hkey]
  | cons entry entries ih =>
    rw [setEntry]
    split
    case isTrue hentry => simp [hentry]
    case isFalse hentry => simpa [hentry] using ih

/-- The first entry under another name stays the same. -/
theorem find?_setEntry_of_disjoint (hkey : p key)
    (h : ∀ k, q k → p k = false) (value : α) (entries : List (κ × α)) :
    ((setEntry p key value entries).find? fun entry => q entry.1) =
      entries.find? fun entry => q entry.1 := by
  -- an entry under the other name is among those that are kept
  have hother : (fun entry : κ × α => q entry.1) =
      fun entry => decide ((!p entry.1) = true ∧ q entry.1 = true) := by
    funext entry
    cases hentry : q entry.1 with
    | false => simp
    | true => simp [h _ hentry]
  rw [hother, ← List.find?_filter, ← List.find?_filter, filter_setEntry hkey]

theorem lookup_setEntry_self [BEq κ] [LawfulBEq κ] (key : κ) (value : α) (entries : List (κ × α)) :
    (setEntry (· == key) key value entries).lookup key = some value := by
  induction entries with
  | nil => simp [setEntry]
  | cons entry entries ih =>
    rw [setEntry]
    split
    case isTrue hentry => rw [List.lookup_cons, eq_of_beq hentry, beq_self_eq_true]
    case isFalse hentry =>
      have hne : (key == entry.1) = false := beq_false_of_ne fun heq => hentry (heq ▸ beq_self_eq_true _)
      rw [List.lookup_cons, hne, ih]

end

variable {σ σ₁ σ' : Store} {r s : Ref} {name other : String} {key value : Ref}
  {records records' nodes nodes' : List Ref}

/-! ### What stays the same -/

/-- Without new places, every object has become what can become of it. -/
theorem Evolves.becomes (h : σ.Evolves σ') (hsize : σ'.size = σ.size) (r : Ref) :
    (σ.look r).Becomes (σ'.look r) := by
  by_cases hr : σ.look r = .scalar .null
  · by_cases hr' : σ'.look r = .scalar .null
    · rw [hr, hr']
      exact .same _
    · exact h.look_of hsize hr'
  · exact h.look hr

/-- Without new places, every text is what it was. -/
theorem Evolves.text?_eq (h : σ.Evolves σ') (hsize : σ'.size = σ.size) : σ'.text? = σ.text? := by
  funext r
  have hbecomes := h.becomes hsize r
  rw [text?, text?]
  generalize σ.look r = o, σ'.look r = o' at hbecomes
  cases hbecomes <;> rfl

/-- A field is read off the object, the texts of the keys, and the attributes that were given. -/
theorem field?_congr (hlook : σ'.look r = σ.look r) (htext : σ'.text? = σ.text?)
    (hgiven : σ'.given? r name = σ.given? r name) : σ'.field? r name = σ.field? r name := by
  have hlookup : σ'.lookup? name = σ.lookup? name := by
    funext entries
    rw [lookup?, lookup?, htext]
  rw [field?, field?, hlook, hgiven, hlookup]

/-- A store and a later one in which a **field of some records was set** to a value, and some wrapped
records have forgotten their children. -/
structure SetsField (records nodes : List Ref) (name : String) (value : Ref) (σ σ' : Store) :
    Prop where
  /-- There are no new places. -/
  size : σ'.size = σ.size
  /-- Every object has become what can become of it. -/
  evolves : σ.Evolves σ'
  /-- The records have the field. -/
  written : ∀ r ∈ records, σ'.readField r name = value
  /-- No other field of the records has changed, and no field of anything else. -/
  fields : ∀ r other, (r ∈ records → other ≠ name) → σ'.field? r other = σ.field? r other
  /-- A mapping keeps its entries under other keys, in their order. -/
  entries : ∀ r entries, σ.look r = .mapping entries →
    ∃ entries', σ'.look r = .mapping entries' ∧
      entries'.filter (fun entry => !(σ.text? entry.1 == some name)) =
        entries.filter fun entry => !(σ.text? entry.1 == some name)
  /-- Nothing else has changed, unless it is wrapped. -/
  others : ∀ r ∉ records, (∀ data, σ.look r ≠ .node data) → σ'.look r = σ.look r
  /-- Of the wrapped records, these have forgotten their children, and no others. -/
  remembered : ∀ r data, σ.look r = .node data →
    σ'.look r = .node (if r ∈ nodes then { data with children := none } else data)

theorem SetsField.refl (name : String) (value : Ref) (σ : Store) :
    SetsField [] [] name value σ σ where
  size := rfl
  evolves := .refl σ
  written := List.forall_mem_nil _
  fields _ _ _ := rfl
  entries _ entries h := ⟨entries, h, rfl⟩
  others _ _ _ := rfl
  remembered _ _ h := by simpa using h

/-- **Setting a field of some records and then of others** is setting it of all of them. -/
theorem SetsField.append (h : SetsField records nodes name value σ σ₁)
    (h' : SetsField records' nodes' name value σ₁ σ') :
    SetsField (records ++ records') (nodes ++ nodes') name value σ σ' where
  size := h'.size.trans h.size
  evolves := h.evolves.trans h'.evolves
  written r hr := by
    by_cases hagain : r ∈ records'
    · exact h'.written r hagain
    · have hfirst := (List.mem_append.mp hr).resolve_right hagain
      have hkept := h'.fields r name fun hmem => absurd hmem hagain
      rw [readField, hkept]
      exact h.written r hfirst
  fields r other hother :=
    (h'.fields r other fun hr => hother (List.mem_append_right _ hr)).trans
      (h.fields r other fun hr => hother (List.mem_append_left _ hr))
  entries r entries hr := by
    obtain ⟨entries₁, hr₁, hkept⟩ := h.entries r entries hr
    obtain ⟨entries', hr', hkept'⟩ := h'.entries r entries₁ hr₁
    rw [h.evolves.text?_eq h.size] at hkept'
    exact ⟨entries', hr', hkept'.trans hkept⟩
  others r hr hnode := by
    obtain ⟨hr₁, hr₂⟩ := not_or.mp fun hmem => hr (List.mem_append.mpr hmem)
    have hlook := h.others r hr₁ hnode
    rw [h'.others r hr₂ (hlook ▸ hnode), hlook]
  remembered r data hr := by
    rw [h'.remembered r _ (h.remembered r data hr)]
    by_cases hr₁ : r ∈ nodes <;> by_cases hr₂ : r ∈ nodes' <;> simp [hr₁, hr₂]

/-! ### Setting a field of one record -/

/-- An object in which a field can be set has a place. -/
theorem exists_place_of_holdsFields (h : (σ.look r).holdsFields) :
    ∃ place, r = .held place ∧ place < σ.size := by
  cases r with
  | held place =>
    refine ⟨place, rfl, lt_size_of_look_ne fun hnull => ?_⟩
    rw [hnull] at h
    cases h
  | _ => cases h

/-- What is to be shown when a field of **one record** is set. -/
theorem SetsField.of_record (hkeeps : σ.Keeps (· = r) σ') (hsize : σ'.size = σ.size)
    (hlook : ∀ s ≠ r, σ'.look s = σ.look s) (hnode : ∀ data, σ.look r ≠ .node data)
    (hwritten : σ'.field? r name = some value)
    (hfields : ∀ other ≠ name, σ'.field? r other = σ.field? r other)
    (hentries : ∀ entries, σ.look r = .mapping entries →
      ∃ entries', σ'.look r = .mapping entries' ∧
        entries'.filter (fun entry => !(σ.text? entry.1 == some name)) =
          entries.filter fun entry => !(σ.text? entry.1 == some name)) :
    SetsField [r] [] name value σ σ' where
  size := hsize
  evolves := hkeeps.evolves
  written s hs := by
    rw [List.mem_singleton.mp hs, readField, hwritten, Option.getD_some]
  fields s other hother := by
    by_cases hs : s = r
    · subst hs
      exact hfields other (hother List.mem_cons_self)
    · have htext := hkeeps.evolves.text?_eq hsize
      exact field?_congr (hlook s hs) htext (hkeeps.given s other hs)
  entries s entries hr := by
    by_cases hs : s = r
    · subst hs
      exact hentries entries hr
    · exact ⟨entries, (hlook s hs).trans hr, rfl⟩
  others s hs _ := hlook s fun heq => hs (List.mem_singleton.mpr heq)
  remembered s data hs := by
    have hne : s ≠ r := by
      rintro rfl
      exact hnode data hs
    rw [hlook s hne, hs, if_neg List.not_mem_nil]

/-- Setting a field of a **mapping**. -/
theorem setsField_mapping {place : Nat} {entries : List (Ref × Ref)} (hkey : σ.text? key = some name)
    (hplace : place < σ.size) (hlook : σ.look (.held place) = .mapping entries)
    (hwrite : σ.writeField (.held place) name key value = .ok σ') :
    SetsField [.held place] [] name value σ σ' := by
  have hkeeps : σ.Keeps (· = .held place) σ' := keeps_writeField hwrite rfl
  have hsize := size_writeField hwrite
  have htext := hkeeps.evolves.text?_eq hsize
  have hname : (σ.text? key == some name) = true := by rw [hkey, beq_self_eq_true]
  rw [writeField, hlook] at hwrite
  cases hwrite
  have hlook' := look_put_held hplace
    (.mapping (setEntry (fun k => σ.text? k == some name) key value entries))
  have hnode : ∀ data, σ.look (.held place) ≠ .node data := by simp [hlook]
  refine .of_record hkeeps hsize (fun s hs => look_put_of_ne σ _ hs) hnode ?_ (fun other hother => ?_)
    fun old hold => ?_
  · rw [field?, hlook']
    show lookup? _ name _ = some value
    rw [lookup?, htext]
    exact find?_setEntry_self (p := fun k => σ.text? k == some name) hname value entries
  · rw [field?, field?, hlook', hlook]
    show lookup? _ other _ = lookup? _ other entries
    rw [lookup?, lookup?, htext]
    refine congrArg _ (find?_setEntry_of_disjoint (p := fun k => σ.text? k == some name)
      (q := fun k => σ.text? k == some other) hname (fun k hk => ?_) value entries)
    rw [eq_of_beq hk]
    exact beq_false_of_ne fun heq => hother (Option.some.inj heq)
  · cases hlook.symm.trans hold
    exact ⟨_, hlook', filter_setEntry (p := fun k => σ.text? k == some name) hname value entries⟩

/-- Setting a field of a **record with attributes**. -/
theorem setsField_attributes {place : Nat} {fields : List (String × Ref)} (hplace : place < σ.size)
    (hlook : σ.look (.held place) = .attributes fields)
    (hwrite : σ.writeField (.held place) name key value = .ok σ') :
    SetsField [.held place] [] name value σ σ' := by
  have hkeeps : σ.Keeps (· = .held place) σ' := keeps_writeField hwrite rfl
  have hsize := size_writeField hwrite
  rw [writeField, hlook] at hwrite
  cases hwrite
  have hlook' := look_put_held hplace (.attributes (setEntry (· == name) name value fields))
  have hnode : ∀ data, σ.look (.held place) ≠ .node data := by simp [hlook]
  refine .of_record hkeeps hsize (fun s hs => look_put_of_ne σ _ hs) hnode ?_ (fun other hother => ?_)
    fun old hold => ?_
  · rw [field?, hlook']
    exact lookup_setEntry_self name value fields
  · rw [field?, field?, hlook', hlook]
    exact lookup_setEntry_of_ne hother value fields
  · cases hlook.symm.trans hold

/-- Setting a field of an object that has none **by itself**: it is given the attribute. -/
theorem setsField_give {place : Nat}
    (hlook : (∃ n, σ.look (.held place) = .function n) ∨
      ∃ l n, σ.look (.held place) = .locator l n)
    (hwrite : σ.writeField (.held place) name key value = .ok σ') :
    SetsField [.held place] [] name value σ σ' := by
  have hkeeps : σ.Keeps (· = .held place) σ' := keeps_writeField hwrite rfl
  have hsize := size_writeField hwrite
  have hgives : σ' = σ.give (.held place) name value ∧
      ∀ τ : Store, τ.look (.held place) = σ.look (.held place) →
        τ.field? (.held place) = τ.given? (.held place) := by
    obtain ⟨n, hlook⟩ | ⟨l, n, hlook⟩ := hlook <;> rw [writeField, hlook] at hwrite <;>
      refine ⟨(Except.ok.inj hwrite).symm, fun τ hτ => funext fun other => ?_⟩ <;>
      rw [field?, hτ, hlook]
  obtain ⟨rfl, hgiven⟩ := hgives
  have hlook' := σ.look_give (.held place) (.held place) name value
  refine .of_record hkeeps hsize (fun s _ => look_give σ _ s name value) (fun data hdata => ?_) ?_
    (fun other hother => ?_) fun old hold => ?_
  · obtain ⟨n, hlook⟩ | ⟨l, n, hlook⟩ := hlook <;> cases hlook.symm.trans hdata
  · rw [hgiven _ hlook']
    exact lookup_setEntry_self (place, name) value σ.given
  · rw [hgiven _ hlook', hgiven _ rfl]
    exact lookup_setEntry_of_ne (fun heq => hother (Prod.mk.inj heq).2) value σ.given
  · obtain ⟨n, hlook⟩ | ⟨l, n, hlook⟩ := hlook <;> cases hlook.symm.trans hold

/-- **A field can be set** in every object that holds fields. -/
theorem exists_writeField (hkey : σ.text? key = some name) (value : Ref)
    (h : (σ.look r).holdsFields) :
    ∃ σ', σ.writeField r name key value = .ok σ' ∧ SetsField [r] [] name value σ σ' := by
  obtain ⟨place, rfl, hplace⟩ := exists_place_of_holdsFields h
  have hwrite : ∃ σ', σ.writeField (.held place) name key value = .ok σ' := by
    rw [writeField]
    cases hlook : σ.look (.held place) with
    | mapping | attributes | function | locator => exact ⟨_, rfl⟩
    | _ =>
      rw [hlook] at h
      cases h
  obtain ⟨σ', hwrite⟩ := hwrite
  refine ⟨σ', hwrite, ?_⟩
  cases hlook : σ.look (.held place) with
  | mapping => exact setsField_mapping hkey hplace hlook hwrite
  | attributes => exact setsField_attributes hplace hlook hwrite
  | function n => exact setsField_give (.inl ⟨n, hlook⟩) hwrite
  | locator l n => exact setsField_give (.inr ⟨l, n, hlook⟩) hwrite
  | _ =>
    rw [hlook] at h
    cases h

/-- **A field is refused** by every other object that is neither wrapped nor collected. -/
theorem exists_refusal (name : String) (key value : Ref) (h : (σ.look r).holdsFields = false)
    (hwrapper : (σ.look r).isWrapper = false) :
    ∃ refusal, σ.writeField r name key value = .error refusal := by
  rw [writeField]
  cases hlook : σ.look r with
  | mapping | attributes | function | locator =>
    rw [hlook] at h
    cases h
  | node | collection =>
    rw [hlook] at hwrapper
    cases hwrapper
  | _ => exact ⟨_, rfl⟩

/-- The refusal is a matter of the object alone. -/
theorem writeField_refused (hlook : σ'.look r = σ.look r) {refusal : Refusal}
    (h : σ.writeField r name key value = .error refusal) :
    σ'.writeField r name key value = .error refusal := by
  rw [writeField] at h ⊢
  rw [hlook]
  cases hr : σ.look r with
  | node =>
    rw [hr] at h
    dsimp only at h ⊢
    split at h
    case isTrue hlabel => rwa [if_pos hlabel]
    case isFalse => cases h
  | _ =>
    rw [hr] at h
    first | exact h | cases h

/-- **A wrapped record that forgets its children** changes nothing else. -/
theorem setsField_forget {data : NodeData} (name : String) (value : Ref)
    (hr : σ.look r = .node data) :
    SetsField [] [r] name value σ (σ.put r (.node { data with children := none })) := by
  have hkeeps : σ.Keeps (fun _ => False) _ := keeps_remember hr none
  have hsize := size_put σ r (.node { data with children := none })
  have htext := hkeeps.evolves.text?_eq hsize
  have hother (s : Ref) (hs : s ≠ r) := look_put_of_ne σ (.node { data with children := none }) hs
  refine ⟨hsize, hkeeps.evolves, List.forall_mem_nil _, fun s other _ => ?_, fun s entries hs => ?_,
    fun s _ hs => ?_, fun s old hs => ?_⟩
  · by_cases hs : s = r
    · subst hs
      rw [field?, field?, look_remember hr, hr]
      exact hkeeps.given s other id
    · exact field?_congr (hother s hs) htext (hkeeps.given s other id)
  · refine ⟨entries, (hother s ?_).trans hs, rfl⟩
    rintro rfl
    cases hr.symm.trans hs
  · refine hother s ?_
    rintro rfl
    exact hs data hr
  · by_cases heq : s = r
    · subst heq
      cases hr.symm.trans hs
      rw [look_remember hr, if_pos List.mem_cons_self]
    · rw [hother s heq, hs, if_neg fun hmem => heq (List.mem_singleton.mp hmem)]

end Store

end RecordQuery
