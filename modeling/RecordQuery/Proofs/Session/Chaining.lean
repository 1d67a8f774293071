import RecordQuery.Proofs.Search.Chaining
import RecordQuery.Proofs.Session.Lasting

/-! # Searching a collection twice

A collection can be searched for one selector, and the collection of what was found for another.
Written in one selector with a blank between them, they find a part of this, unless the second
selector starts with a direct part: in the same order where no record lies below itself, and in any
case nothing else. The two ways start their second search differently, once from children that have
just been read, and once from records that are kept in a collection.

* `Adapter.Steady.find_settled`: what is found from values and from what they have become.
* `Collection.combined_within_chained`: two searches one behind the other, and one for both. -/

namespace RecordQuery

/-- A part of a list is related to a part of a related list. -/
theorem sublistForall₂_of_sublist {α β : Type} {R : α → β → Prop} {xs ys : List α} {zs : List β}
    (hsub : xs.Sublist ys) (h : List.Forall₂ R ys zs) : List.SublistForall₂ R xs zs := by
  induction hsub generalizing zs with
  | slnil => exact .nil
  | cons _ _ ih =>
    cases h with
    | cons _ hrest => exact (ih hrest).cons_right
  | cons_cons _ _ ih =>
    cases h with
    | cons hxz hrest => exact .cons hxz (ih hrest)

/-- **From values and from what they have become**, a steady adapter leads a search to values and to
what these have become: to all of them in order where there are no cycles, and in any case to
each. -/
theorem Adapter.Steady.find_settled {A : Adapter} {σ σ' : Store} {seeds seeds' : List Ref}
    (hA : A.Steady σ) (hσ : σ.Sound) (hg : σ.Grows σ') (hσ' : σ'.Sound)
    (hseeds : List.Forall₂ (σ.Settles σ') seeds seeds') (h : (A.view σ).Searchable seeds)
    (l : Locator) :
    ∃ found found', ((A.view σ).find l seeds).result = .ok found ∧
      ((A.view σ').find l seeds').result = .ok found' ∧
      ((A.view σ).Acyclic seeds → List.Forall₂ (σ.Settles σ') found found') ∧
      ∀ r ∈ found, ∃ r' ∈ found', σ.Settles σ' r r' := by
  have hagree := hA.agree hσ hg hσ' h l.parts
  have hreached := forall₂_and_left hseeds fun r hr => Graph.reaches_of_mem (G := (A.view σ).toGraph) hr
  have hfinite' := hA.finiteBelow_settled hσ hg hσ' hseeds h
  obtain ⟨found, found', hfound, hfound', hmem⟩ :=
    hagree.exists_mem_find l hreached h.finite hfinite'
  refine ⟨found, found', hfound, hfound', fun hacyclic => ?_, fun r hr => ?_⟩
  · have hacyclic' : (A.view σ').Acyclic seeds' :=
      hagree.acyclic (fun _ _ _ hr hx => hr.1.left_unique hx.1) hreached hacyclic
    obtain ⟨out, out', hout, hout', hrelated⟩ :=
      (hagree.bothReached seeds seeds').find (View.repeatAlike_of_acyclic hacyclic hacyclic')
        (fun _ hp => hp) (View.forall₂_bothReached hreached) h.finite hfinite'
    rw [hfound, Except.ok.injEq] at hout
    rw [hfound', Except.ok.injEq] at hout'
    subst hout hout'
    exact hrelated.imp fun _ _ hr => hr.1.1
  · obtain ⟨r', hr', hsettles, -⟩ := hmem r hr
    exact ⟨r', hr', hsettles⟩

namespace Collection

open Session

variable {w w₁ : World} {c : Ref} {nodes : List Ref} {n : Nat} {s : String} {l : Locator}
  {found : List Ref}

/-- A **search in a collection of what was found**: it finds what a search from the records found
finds, all of it in order where there are no cycles, and in any case each record. -/
theorem exists_find_settled (hA : (w.adapterAt n).Steady w.store) (hσ : w.store.Sound)
    (hcollects : w.Collects w₁ n c found)
    (hsearch : ((w.adapterAt n).view w.store).Searchable found)
    (hplain : ∀ r, ((w.adapterAt n).view w.store).Reaches found r → w.store.isNode r = false)
    (hparse : Locator.parse s = .ok l) :
    ∃ out c' w', (((w.adapterAt n).view w.store).find l found).result = .ok out ∧
      Leads (find s c) w₁ (.ok c') w' ∧
      (((w.adapterAt n).view w.store).Acyclic found →
        List.Forall₂ (w.store.Settles w'.store) out (w'.store.recordsOf c')) ∧
      ∀ r ∈ out, ∃ r' ∈ w'.store.recordsOf c', w.store.Settles w'.store r r' := by
  have hg := hcollects.grows
  have hunwrapped : ∀ {rs : List Ref}, (∀ r ∈ rs, ((w.adapterAt n).view w.store).Reaches found r) →
      rs.map w.store.unwrapped = rs := fun hrs =>
    Store.map_unwrapped_of_not_isNode fun r hr => hplain r (hrs r hr)
  -- the records in the collection are looked at again without their wrapping
  have hseeds : List.Forall₂ (w.store.Settles w₁.store) found
      ((w₁.store.recordsOf c).map w₁.store.unwrapped) := by
    have hrecords := Store.forall₂_unwrapped hcollects.records hg hσ
    rwa [hunwrapped fun r hr => Graph.reaches_of_mem hr,
      hunwrapped fun r hr => Graph.reaches_of_mem hr] at hrecords
  obtain ⟨out, out', hout, hout', hrelated, hmem⟩ :=
    hA.find_settled hσ hg hcollects.sound hseeds hsearch l
  have hadapter := World.adapterAt_congr hcollects.adapters n
  have hcovers : (w.adapterAt n).Covers w₁.store
      ((w₁.store.recordsOf c).map w₁.store.unwrapped) := by
    refine ⟨hA.of_grows hg, hcollects.sound, fun x hx => ?_,
      hA.finiteBelow_settled hσ hg hcollects.sound hseeds hsearch⟩
    obtain ⟨x₀, -, hsettles⟩ := exists_related_of_mem hseeds.flip hx
    exact hsettles.has_settled hg
  obtain ⟨nodes, hc⟩ := hcollects.collection
  obtain ⟨c', w', hrun, hcollects'⟩ :=
    exists_find hparse hc hcollects.sound (hadapter.symm ▸ hout') (hcovers.has_found hout')
  have hg' := hcollects'.grows
  have hplainout : out.map w.store.unwrapped = out := hunwrapped fun r hr =>
    View.reaches_of_find hsearch.finite hout r hr
  refine ⟨out, c', w', hout, hrun, fun hacyclic => ?_, fun r hr => ?_⟩
  · have hlater := Store.forall₂_unwrapped (hrelated hacyclic) hg hσ
    rw [hplainout] at hlater
    exact Store.forall₂_settles_trans hlater hcollects'.records hg hg'
  · obtain ⟨r', hr', hsettles⟩ := hmem r hr
    obtain ⟨x, hx, hsettles'⟩ := exists_related_of_mem hcollects'.records
      (List.mem_map_of_mem hr')
    have hr₀ : w.store.unwrapped r = r := Store.unwrapped_of_not_isNode
      (hplain r (View.reaches_of_find hsearch.finite hout r hr))
    exact ⟨x, hx, hr₀ ▸ (hsettles.unwrapped hg hσ).trans hsettles' hg hg'⟩

/-- **Two searches one behind the other find all that one search for both selectors finds**, where no
accessor fails, no record is a wrapped one and nothing can be taken only once, unless the second
selector starts with a direct part: what the one search finds is a subsequence of what the two find if
no record lies below itself, and each record of it is among these in any case. Afterwards there is
still nothing that can be taken only once. The first selector must not end with a combinator that
waits for a part. -/
theorem combined_within_chained (w : World) (c : Ref) (nodes : List Ref) (n : Nat) (s₁ s₂ : String)
    (l₁ l₂ : Locator) (hσ : w.store.Sound) (hlasting : w.store.Lasting)
    (hc : w.store.look c = .collection nodes n)
    (hA : (w.adapterAt n).Steady w.store)
    (h : ((w.adapterAt n).view w.store).Searchable (w.store.recordsOf c))
    (hplain : ∀ r, ((w.adapterAt n).view w.store).Reaches (w.store.recordsOf c) r →
      w.store.isNode r = false)
    (h₁ : Locator.parse s₁ = .ok l₁) (h₂ : Locator.parse s₂ = .ok l₂) (hend : ¬ EndsPending s₁)
    (hfirst : ∀ p ∈ l₂.parts.head?, p.direct = false) :
    ∃ c₁ w₁ c₂ w₂ c₃ w₃, Leads (find s₁ c) w (.ok c₁) w₁ ∧ Leads (find s₂ c₁) w₁ (.ok c₂) w₂ ∧
      Leads (find (s₁ ++ " " ++ s₂) c) w (.ok c₃) w₃ ∧
      (w₁.store.Lasting ∧ w₂.store.Lasting ∧ w₃.store.Lasting) ∧
      (((w.adapterAt n).view w.store).Acyclic (w.store.recordsOf c) →
        List.SublistForall₂ (w.store.SameValue w₃.store w₂.store) (w₃.store.recordsOf c₃)
          (w₂.store.recordsOf c₂)) ∧
      ∀ r ∈ w₃.store.recordsOf c₃, ∃ r' ∈ w₂.store.recordsOf c₂,
        w.store.SameValue w₃.store w₂.store r r' := by
  have hblank : ∀ c ∈ " ".toList, isBlank c := List.all_eq_true.mp (by decide)
  have hparse : RecordQuery.parse (s₁ ++ " " ++ s₂) = .ok (l₁.parts ++ l₂.parts) :=
    parse_juxtaposed (Locator.parse_parts h₁) (Locator.parse_parts h₂) hend hblank (by decide)
  obtain ⟨found, chained, combined, hfound, hreach, hchained, hcombined, hsub, hmem⟩ :=
    View.find_chained l₁ l₂ ⟨_, _, parse_supported hparse⟩ rfl hfirst h
  have hhas := hA.has_reached hσ (hσ.has_recordsOf hc)
  have hseeds : (w.store.recordsOf c).map w.store.unwrapped = w.store.recordsOf c :=
    Store.map_unwrapped_of_not_isNode fun r hr => hplain r (Graph.reaches_of_mem hr)
  have hcombinedreach := View.reaches_of_find h.finite hcombined
  -- the first search, and the search for both selectors
  obtain ⟨c₁, w₁, hrun₁, hcollects₁⟩ := exists_find h₁ hc hσ (hseeds.symm ▸ hfound)
    fun r hr => hhas r (hreach r hr)
  obtain ⟨c₃, w₃, hrun₃, hcollects₃⟩ := exists_find (Locator.parse_eq_ok hparse) hc hσ
    (hseeds.symm ▸ hcombined) fun r hr => hhas r (hcombinedreach r hr)
  have hrecords₃ := hcollects₃.records
  rw [Store.map_unwrapped_of_not_isNode fun r hr => hplain r (hcombinedreach r hr)] at hrecords₃
  -- the second search, from what the first one found
  have hbelow : ∀ r, ((w.adapterAt n).view w.store).Reaches found r →
      ((w.adapterAt n).view w.store).Reaches (w.store.recordsOf c) r :=
    fun r hr => hr.of_reached hreach
  obtain ⟨out, c₂, w₂, hout, hrun₂, hrecords₂, hmem₂⟩ := exists_find_settled hA hσ hcollects₁
    (h.of_reaches hbelow) (fun r hr => hplain r (hbelow r hr)) h₂
  rw [hchained, Except.ok.injEq] at hout
  subst hout
  have hlasting₁ := (keepsLasting_find s₁ c).leads hrun₁ hlasting
  refine ⟨c₁, w₁, c₂, w₂, c₃, w₃, hrun₁, hrun₂, hrun₃, ⟨hlasting₁, ?_, ?_⟩, fun hacyclic => ?_,
    fun r₃ hr₃ => ?_⟩
  · exact (keepsLasting_find s₂ c₁).leads hrun₂ hlasting₁
  · exact (keepsLasting_find _ c).leads hrun₃ hlasting
  · have hpart := sublistForall₂_of_sublist (hsub hacyclic)
      (hrecords₂ (hacyclic.of_reaches hbelow))
    obtain ⟨part, hpart, hpartsub⟩ := List.sublistForall₂_iff.mp hpart
    exact List.sublistForall₂_iff.mpr ⟨part, Store.forall₂_sameValue hrecords₃ hpart, hpartsub⟩
  · obtain ⟨r, hr, hsettles⟩ := exists_related_of_mem hrecords₃.flip hr₃
    obtain ⟨r₂, hr₂, hsettles₂⟩ := hmem₂ r (hmem r hr)
    exact ⟨r₂, hr₂, r, hsettles, hsettles₂⟩

end Collection

/-! ### A collection of one record -/

/-- A record with one child that it has twice, in a collection. -/
def keptSharing : World where
  store := {
    objects := #[
      .attributes [("name", .text "a"), ("children", .held 1)],
      .list [.held 2, .held 2],
      .attributes [("name", .text "b")],
      .node ⟨.held 0, .null, 0, none⟩,
      .collection [.held 3] 0] }

/-- One part that looks for a name. -/
def named (name : String) : List Part := [{ kind := .name, value := name }]

theorem laysOut_named : ∀ name ∈ ["a", "b"], LaysOut false (named name) name.toList := by
  have hnil : ∀ c ∈ ([] : List Char), isBlank c := List.forall_mem_nil _
  intro name hname
  simp only [List.mem_cons, List.not_mem_nil, or_false] at hname
  rcases hname with rfl | rfl <;>
    exact .part [] rfl hnil (fun h => nomatch h) (.done [] hnil)

theorem keptSharing_sound : keptSharing.store.Sound :=
  Store.sound_of_places (by decide) (by decide)

theorem keptSharing_lasting : keptSharing.store.Lasting := Store.lasting_of_places (by decide)

theorem keptSharing_reaches :
    ∀ r, (Adapter.usual.view keptSharing.store).Reaches [.held 0] r → r ∈ [Ref.held 0, .held 2] := by
  have hclosed : Closed (Adapter.usual.view keptSharing.store).children [.held 0, .held 2] :=
    forall_child_of_readable (by decide)
  rintro r ⟨x, hx, hr⟩
  exact hr.mem_of_closed (List.mem_singleton.mp hx ▸ List.mem_cons_self) hclosed

theorem keptSharing_plain : ∀ r, (Adapter.usual.view keptSharing.store).Reaches [.held 0] r →
    keptSharing.store.isNode r = false := by
  have hplain : ∀ r ∈ [Ref.held 0, .held 2], keptSharing.store.isNode r = false := by decide
  exact fun r hr => hplain r (keptSharing_reaches r hr)

theorem keptSharing_acyclic : (Adapter.usual.view keptSharing.store).Acyclic [.held 0] :=
  Graph.acyclic_of_rank Ref.place [.held 0, .held 2] (by decide) (by decide)

/-- The names `a` and `b` are searched for one behind the other, and in one. -/
theorem combined_within_chained_keptSharing :
    ∃ l₁ l₂, keptSharing.store.Sound ∧ keptSharing.store.Lasting ∧
      keptSharing.store.look (.held 4) = .collection [.held 3] 0 ∧
      (keptSharing.adapterAt 0).Steady keptSharing.store ∧
      ((keptSharing.adapterAt 0).view keptSharing.store).Searchable [.held 0] ∧
      (∀ r, ((keptSharing.adapterAt 0).view keptSharing.store).Reaches [.held 0] r →
        keptSharing.store.isNode r = false) ∧
      Locator.parse "a" = .ok l₁ ∧ Locator.parse "b" = .ok l₂ ∧ ¬ EndsPending "a" ∧
      (∀ p ∈ l₂.parts.head?, p.direct = false) ∧
      ((keptSharing.adapterAt 0).view keptSharing.store).Acyclic [.held 0] ∧
      ∃ c₁ w₁ c₂ w₂ c₃ w₃, Session.Leads (Collection.find "a" (.held 4)) keptSharing (.ok c₁) w₁ ∧
        Session.Leads (Collection.find "b" c₁) w₁ (.ok c₂) w₂ ∧
        Session.Leads (Collection.find ("a" ++ " " ++ "b") (.held 4)) keptSharing (.ok c₃) w₃ ∧
        (w₁.store.Lasting ∧ w₂.store.Lasting ∧ w₃.store.Lasting) ∧
        List.SublistForall₂ (keptSharing.store.SameValue w₃.store w₂.store)
          (w₃.store.recordsOf c₃) (w₂.store.recordsOf c₂) := by
  have hwritable : ∀ name ∈ ["a", "b"], ∀ p ∈ named name, p.Writable := by decide
  have hlaysOut₁ := laysOut_named "a" (by decide)
  have hlaysOut₂ := laysOut_named "b" (by decide)
  have h₁ := Locator.parse_eq_ok (parse_of_laysOut (hwritable "a" (by decide)) hlaysOut₁)
  have h₂ := Locator.parse_eq_ok (parse_of_laysOut (hwritable "b" (by decide)) hlaysOut₂)
  have hend := not_endsPending_of_laysOut (hwritable "a" (by decide)) hlaysOut₁
  have hfirst : ∀ p ∈ ((named "b").map Part.asWritten).head?, p.direct = false := by decide
  have hsearch := Adapter.usual_searchable keptSharing.store [.held 0]
  have hA := Adapter.usual_steady keptSharing.store
  obtain ⟨c₁, w₁, c₂, w₂, c₃, w₃, hrun₁, hrun₂, hrun₃, hlasting, hsub, -⟩ :=
    Collection.combined_within_chained keptSharing (.held 4) [.held 3] 0 "a" "b" _ _
      keptSharing_sound keptSharing_lasting rfl hA hsearch keptSharing_plain h₁ h₂ hend hfirst
  exact ⟨_, _, keptSharing_sound, keptSharing_lasting, rfl, hA, hsearch, keptSharing_plain, h₁, h₂,
    hend, hfirst, keptSharing_acyclic, c₁, w₁, c₂, w₂, c₃, w₃, hrun₁, hrun₂, hrun₃, hlasting,
    hsub keptSharing_acyclic⟩

end RecordQuery
