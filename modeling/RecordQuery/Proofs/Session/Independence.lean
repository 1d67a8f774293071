import RecordQuery.Proofs.Session.Lasting

/-! # Queries do not affect one another

A query can be asked again and again. Asking it only adds to the store what was found, so a later
answer is the answer that a new query over the same records gives at once, whatever was asked before
and whether or not that failed. This needs a context that can be gone through more than once: items
that come one by one are gone after the first search.

* `Query.worldAfter`: the world after some selectors have been asked.
* `Query.Ready`, `Query.Renewable`: queries that can be asked, and that can be asked again.
* `Query.Ready.ask`: a ready query answers by what its records are in the store it started from.
* `Query.ask_independent`: an answer does not depend on what was asked before.
* `Query.Ready.ask_exhausted`: a context whose items can be taken only once is searched only once. -/

namespace RecordQuery

namespace Store

variable {σ σ₀ σ' : Store} {r s : Ref} {o : Object}

/-- The records that a **query over a context** starts from; an absent context has none. -/
def recordsAsked (σ : Store) (context : Ref) : List Ref :=
  if σ.isNull context then [] else σ.seedsOf context

/-! ### Contexts in a grown store -/

/-- What is wrapped or listed in a value stays the same while the store grows. -/
theorem Grows.seedsOf (hg : σ.Grows σ') (hσ : σ.Sound) (hr : σ.Has r) :
    σ'.seedsOf r = σ.seedsOf r := by
  have hrefs := hσ.has_refs r
  rw [Store.seedsOf, Store.seedsOf, hg.look hr]
  cases ho : σ.look r with
  | list items | tuple items | set items | frozenSet items | stream items | collection items n =>
    rw [ho] at hrefs
    exact hg.map_unwrapped hrefs
  | _ => rfl

/-- A sound store has the records that a value stands for. -/
theorem Sound.has_seedsOf (hσ : σ.Sound) (hr : σ.Has r) : ∀ x ∈ σ.seedsOf r, σ.Has x := by
  have hrefs := hσ.has_refs r
  rw [Store.seedsOf]
  cases ho : σ.look r with
  | list items | tuple items | set items | frozenSet items | stream items | collection items n =>
    rw [ho] at hrefs
    exact hσ.has_map_unwrapped hrefs
  | node data =>
    rw [ho] at hrefs
    exact List.forall_mem_singleton.mpr (hrefs _ List.mem_cons_self)
  | _ => exact List.forall_mem_singleton.mpr hr

theorem Sound.has_recordsAsked (hσ : σ.Sound) (hr : σ.Has r) : ∀ x ∈ σ.recordsAsked r, σ.Has x := by
  rw [recordsAsked]
  split
  · exact List.forall_mem_nil _
  · exact hσ.has_seedsOf hr

/-! ### Items that are taken -/

/-- A place of the store that holds items can be written to. -/
theorem look_put_self {items : List Ref} (hr : σ.Has r) (hitems : σ.look r = .stream items) :
    (σ.put r o).look r = o := by
  cases r with
  | held place => exact look_put_held hr o
  | _ => cases hitems

/-- Taking items leaves a sound store sound. -/
theorem Sound.drained (h : σ.Sound) (r : Ref) : (σ.drained r).Sound := by
  rw [Store.drained]
  split
  · have hnone : ∀ x ∈ (Object.stream []).refs, σ.Has x := List.forall_mem_nil _
    exact h.put hnone fun x hx => absurd hx List.not_mem_nil
  · exact h

/-- **Taking items that are not in a store does not touch it**, however it has grown. -/
theorem Grows.drained_of_new (hg : σ₀.Grows σ)
    (hnew : ∀ items, σ.look r = .stream items → ¬ σ₀.Has r) : σ₀.Grows (σ.drained r) := by
  rw [Store.drained]
  split
  · rename_i items ho
    refine ⟨by rw [size_put]; exact hg.size, fun place hplace => ?_, (given_put σ r _).trans hg.given⟩
    rcases σ.look_put r (.held place) (.stream []) with hlook | ⟨rfl, -⟩
    · exact hlook.trans (hg.held place hplace)
    · exact absurd hplace (hnew items ho)
  · exact hg

/-- Taking new items does not touch a **lasting store** that has grown: none of its places holds such
items. -/
theorem Grows.drained (hg : σ₀.Grows σ) (hlasting : σ₀.Lasting) (r : Ref) :
    σ₀.Grows (σ.drained r) := by
  refine hg.drained_of_new fun items ho hr => ?_
  have hstream := hlasting r
  rw [← hg.look hr, ho] at hstream
  cases hstream

end Store

namespace Query

open Session

variable {q : Query} {A : Adapter} {σ₀ : Store} {seeds : List Ref} {w : World} {options : Options}
  {context : Ref}

/-- The **world after some selectors** have been asked, one after the other, whatever came of
each. -/
def worldAfter (q : Query) (selectors : List String) (w : World) : World :=
  selectors.foldl (fun w s => ((q.ask s).run.run w).2) w

/-- What a selector gives from some records of a store: the records found, or the failure. -/
def answer (A : Adapter) (σ : Store) (seeds : List Ref) (s : String) :
    Except Failure (List Ref) :=
  match Locator.parse s with
  | .error e => .error (.selector s e)
  | .ok l => ((A.view σ).find l seeds).result

/-- An outcome **gives an answer** of a store: the same failure, or a collection of what the records
found have become, without their wrapping. -/
def Gives (σ₀ : Store) (answer : Except Failure (List Ref)) (o : Except Failure Ref) (w : World) :
    Prop :=
  Alike (fun found c => List.Forall₂ (σ₀.Settles w.store) (found.map σ₀.unwrapped)
    (w.store.recordsOf c)) answer o

/-- A query is **ready** in a world to search some records of an earlier store. -/
structure Ready (q : Query) (A : Adapter) (σ₀ : Store) (seeds : List Ref) (w : World) : Prop where
  /-- The store has grown since. -/
  grows : σ₀.Grows w.store
  /-- The items of the context can be taken without touching the earlier store. -/
  drained : σ₀.Grows (w.store.drained q.context)
  /-- The store is sound. -/
  sound : w.store.Sound
  /-- The query has this adapter. -/
  adapter : w.adapterAt q.adapter = A
  /-- The context stands for these records. -/
  seeds : w.store.seedsOf q.context = seeds

/-- A query is **renewable** in a world when its context can be searched more than once. -/
structure Renewable (q : Query) (w : World) : Prop where
  /-- The context is in the store. -/
  has : w.store.Has q.context
  /-- The context is not items that can be taken only once. -/
  lasting : (w.store.look q.context).isStream = false

/-! ### One query -/

/-- A ready query shows the records of the earlier store as they were, also when its items are
taken. -/
theorem Ready.find_eq (h : q.Ready A σ₀ seeds w) (hA : A.Covers σ₀ seeds) (l : Locator) :
    ((w.adapterAt q.adapter).view (w.store.drained q.context)).find l seeds =
      (A.view σ₀).find l seeds := by
  rw [h.adapter]
  exact hA.find_eq h.drained (h.sound.drained q.context) l

/-- **A ready query finds what a locator finds in the earlier store.** -/
theorem Ready.askWith (h : q.Ready A σ₀ seeds w) (hA : A.Covers σ₀ seeds) (l : Locator) :
    ∃ o w', Leads (q.askWith l) w o w' ∧ Gives σ₀ ((A.view σ₀).find l seeds).result o w' ∧
      w'.store.Sound ∧ w'.adapters = w.adapters ∧ (w.store.drained q.context).Grows w'.store := by
  have hσ := h.sound.drained q.context
  have hsearch := h.find_eq hA l
  cases hresult : ((A.view σ₀).find l seeds).result with
  | error e =>
    rw [← hsearch] at hresult
    obtain ⟨log, hfind⟩ :=
      @findFrom_error { w with store := w.store.drained q.context } q.adapter l seeds e hresult
    rw [← h.seeds] at hfind
    exact ⟨_, _, (leads_find hfind).bind_error, .error _, hσ, rfl, .refl _⟩
  | ok found =>
    have hfound := hA.has_found hresult
    rw [← hsearch] at hresult
    obtain ⟨found', w₁, c, w', hfind, hitems, hcollects⟩ :=
      @Collection.exists_findFrom_ofItems { w with store := w.store.drained q.context } q.adapter l
        seeds found hσ hresult fun r hr => h.drained.has (hfound r hr)
    rw [← h.seeds] at hfind
    refine ⟨_, _, (leads_find hfind).bind hitems, .ok ?_, hcollects.sound, hcollects.adapters,
      hcollects.grows⟩
    -- the records found were in the earlier store, so they settle from there
    have hstays : List.Forall₂ (σ₀.Settles (w.store.drained q.context)) found found :=
      List.forall₂_same.mpr fun r hr => .same (hfound r hr)
    exact Store.forall₂_settles_trans (Store.forall₂_unwrapped hstays h.drained hA.sound)
      hcollects.records h.drained hcollects.grows

/-- **A ready query gives the answer of the earlier store.** After it nothing else has changed but the
items of the context, if they can be taken only once. -/
theorem Ready.ask (h : q.Ready A σ₀ seeds w) (hA : A.Covers σ₀ seeds) (s : String) :
    ∃ o w', Leads (q.ask s) w o w' ∧ Gives σ₀ (answer A σ₀ seeds s) o w' ∧ w'.store.Sound ∧
      w'.adapters = w.adapters ∧
      ((∃ e, Locator.parse s = .error e) ∧ w'.store = w.store ∨
        (w.store.drained q.context).Grows w'.store) := by
  cases hparse : Locator.parse s with
  | error e =>
    have hanswer : answer A σ₀ seeds s = .error (.selector s e) := by rw [answer, hparse]
    rw [hanswer]
    exact ⟨_, w, (leads_parseLocator_error hparse).bind_error, .error _, h.sound, rfl,
      Or.inl ⟨⟨e, rfl⟩, rfl⟩⟩
  | ok l =>
    have hanswer : answer A σ₀ seeds s = ((A.view σ₀).find l seeds).result := by rw [answer, hparse]
    obtain ⟨log, hlocator⟩ := leads_parseLocator (w := w) hparse
    have hlogged : q.Ready A σ₀ seeds { w with log } :=
      ⟨h.grows, h.drained, h.sound, h.adapter, h.seeds⟩
    obtain ⟨o, w', hask, hgives, hσ, hadapters, hg⟩ := hlogged.askWith hA l
    rw [hanswer]
    exact ⟨o, w', hlocator.bind hask, hgives, hσ, hadapters, Or.inr hg⟩

/-- **A renewable query is ready again** after it was asked. -/
theorem Ready.ask_again (h : q.Ready A σ₀ seeds w) (hrenew : q.Renewable w)
    (hA : A.Covers σ₀ seeds) (s : String) :
    q.Ready A σ₀ seeds ((q.ask s).run.run w).2 ∧ q.Renewable ((q.ask s).run.run w).2 := by
  obtain ⟨o, w', hrun, -, hσ, hadapters, hstore⟩ := h.ask hA s
  rw [Store.drained_of_not_isStream hrenew.lasting] at hstore
  have hg : w.store.Grows w'.store := by
    rcases hstore with ⟨-, heq⟩ | hg
    · rw [heq]
      exact .refl _
    · exact hg
  have hlasting : (w'.store.look q.context).isStream = false := by
    rw [hg.look hrenew.has]
    exact hrenew.lasting
  rw [show (q.ask s).run.run w = (o, w') from hrun]
  refine ⟨⟨h.grows.trans hg, ?_, hσ, ?_, ?_⟩, ⟨hg.has hrenew.has, hlasting⟩⟩
  · rw [Store.drained_of_not_isStream hlasting]
    exact h.grows.trans hg
  · exact (World.adapterAt_congr hadapters q.adapter).trans h.adapter
  · rw [hg.seedsOf h.sound hrenew.has]
    exact h.seeds

/-- **A query over items that can be taken only once has none left** after a selector that can be
parsed: it is ready again, but to search no records. -/
theorem Ready.ask_exhausted (h : q.Ready A σ₀ seeds w) (hlasting : σ₀.Lasting)
    (hA : A.Covers σ₀ seeds) {items : List Ref} (hhas : w.store.Has q.context)
    (hstream : w.store.look q.context = .stream items) {s : String} {l : Locator}
    (hparse : Locator.parse s = .ok l) :
    q.Ready A σ₀ [] ((q.ask s).run.run w).2 := by
  obtain ⟨o, w', hrun, -, hσ, hadapters, hstore⟩ := h.ask hA s
  have hg : (w.store.drained q.context).Grows w'.store := by
    rcases hstore with ⟨⟨e, he⟩, -⟩ | hg
    · cases hparse.symm.trans he
    · exact hg
  have hempty : (w.store.drained q.context).look q.context = .stream [] := by
    rw [Store.drained, hstream]
    exact Store.look_put_self hhas hstream
  have hhas' : (w.store.drained q.context).Has q.context := by
    rw [Store.drained, hstream, Store.Has, Store.size_put]
    exact hhas
  rw [show (q.ask s).run.run w = (o, w') from hrun]
  have hgrows := h.drained.trans hg
  refine ⟨hgrows, hgrows.drained hlasting q.context, hσ, ?_, ?_⟩
  · exact (World.adapterAt_congr hadapters q.adapter).trans h.adapter
  · rw [Store.seedsOf, hg.look hhas', hempty]
    rfl

/-- **A renewable query stays ready**, whatever is asked. -/
theorem Ready.worldAfter (h : q.Ready A σ₀ seeds w) (hrenew : q.Renewable w)
    (hA : A.Covers σ₀ seeds) (selectors : List String) :
    q.Ready A σ₀ seeds (q.worldAfter selectors w) := by
  induction selectors generalizing w with
  | nil => exact h
  | cons s selectors ih =>
    obtain ⟨hready, hrenew'⟩ := h.ask_again hrenew hA s
    exact ih hready hrenew'

/-! ### A new query -/

theorem adapterAt_push (w : World) (A : Adapter) :
    ({ w with adapters := w.adapters.push A } : World).adapterAt w.adapters.size = A := by
  simp [World.adapterAt]

/-- **A new query is ready** to search the records of its context, and it can be asked again unless
the items of the context can be taken only once. -/
theorem exists_start (hA : Adapter.ofOptions options = .ok A) (hlasting : σ₀.Lasting)
    (hg : σ₀.Grows w.store) (hσ : w.store.Sound) (context : Ref) :
    ∃ q w', Leads (start context options) w (.ok q) w' ∧
      q.Ready A σ₀ (w.store.recordsAsked context) w' ∧
      (w.store.Has context → (w.store.look context).isStream = false → q.Renewable w') := by
  rw [start, hA, Store.recordsAsked]
  by_cases hnull : w.store.isNull context = true
  · -- an absent context is replaced by a new list without items
    have hlook := w.store.look_alloc_self (.list [])
    have hgrows := hg.trans (w.store.grows_alloc (.list []))
    have hstream : ((w.store.alloc (.list [])).2.look (w.store.alloc (.list [])).1).isStream = false := by
      rw [hlook]
      rfl
    refine ⟨⟨(w.store.alloc (.list [])).1, w.adapters.size⟩,
      { w with adapters := w.adapters.push A, store := (w.store.alloc (.list [])).2 }, ?_,
      ⟨hgrows, ?_, hσ.alloc fun r hr => absurd hr List.not_mem_nil, adapterAt_push w A, ?_⟩,
      fun _ _ => ⟨w.store.has_alloc _, hstream⟩⟩
    · refine (leads_attempt _).bind ((leads_addAdapter A).bind (leads_store.bind ?_))
      rw [if_pos hnull]
      exact (leads_alloc _).bind (leads_pure _)
    · rw [Store.drained_of_not_isStream hstream]
      exact hgrows
    · rw [if_pos hnull, Store.seedsOf, hlook]
      rfl
  · refine ⟨⟨context, w.adapters.size⟩, { w with adapters := w.adapters.push A }, ?_,
      ⟨hg, hg.drained hlasting context, hσ, adapterAt_push w A, (if_neg hnull).symm⟩,
      fun hhas hstream => ⟨hhas, hstream⟩⟩
    refine (leads_attempt _).bind ((leads_addAdapter A).bind (leads_store.bind ?_))
    rw [if_neg hnull]
    exact leads_pure _

/-- Two outcomes that give the same answer are the same failure, or collections of the same
records. -/
theorem Gives.alike {answer : Except Failure (List Ref)} {o o' : Except Failure Ref} {w w' : World}
    (h : Gives σ₀ answer o w) (h' : Gives σ₀ answer o' w') :
    Alike (fun c c' => List.Forall₂ (σ₀.SameValue w.store w'.store) (w.store.recordsOf c)
      (w'.store.recordsOf c')) o o' := by
  cases h with
  | error e =>
    cases h' with
    | error _ => exact .error e
  | ok hrecords =>
    cases h' with
    | ok hrecords' => exact .ok (Store.forall₂_sameValue hrecords hrecords')

/-- **Queries do not affect one another.** In a sound store without items that can be taken only once,
let a query over a context, below which there are finitely many records, be asked some selectors, of
which any may fail, and then one more. A new query over a context that stands for the same records,
in any sound store into which this one has grown, gives at once what the first one gives then: the
same failure, or a collection of the same records. The context of the new query may be new items that
can be taken only once. -/
theorem ask_independent (w w₂ : World) (options : Options) (A : Adapter) (context context₂ : Ref)
    (earlier : List String) (s : String) (hA : Adapter.ofOptions options = .ok A)
    (hsteady : A.Steady w.store) (hσ : w.store.Sound) (hlasting : w.store.Lasting)
    (hcontext : w.store.Has context)
    (hfinite : (A.view w.store).FiniteBelow (w.store.recordsAsked context))
    (hg : w.store.Grows w₂.store) (hσ₂ : w₂.store.Sound)
    (hsame : w₂.store.recordsAsked context₂ = w.store.recordsAsked context) :
    ∃ q w' q₂ w₂' o v o₂ v₂, Leads (start context options) w (.ok q) w' ∧
      Leads (start context₂ options) w₂ (.ok q₂) w₂' ∧
      Leads (q.ask s) (q.worldAfter earlier w') o v ∧ Leads (q₂.ask s) w₂' o₂ v₂ ∧
      Alike (fun c c₂ => List.Forall₂ (w.store.SameValue v.store v₂.store) (v.store.recordsOf c)
        (v₂.store.recordsOf c₂)) o o₂ := by
  have hcovers : A.Covers w.store (w.store.recordsAsked context) :=
    ⟨hsteady, hσ, hσ.has_recordsAsked hcontext, hfinite⟩
  obtain ⟨q, w', hstart, hready, hrenew⟩ := exists_start hA hlasting (.refl _) hσ context
  obtain ⟨q₂, w₂', hstart₂, hready₂, -⟩ := exists_start hA hlasting hg hσ₂ context₂
  have hlater := hready.worldAfter (hrenew hcontext (hlasting context)) hcovers earlier
  rw [hsame] at hready₂
  obtain ⟨o, v, hask, hgives, -⟩ := hlater.ask hcovers s
  obtain ⟨o₂, v₂, hask₂, hgives₂, -⟩ := hready₂.ask hcovers s
  exact ⟨q, w', q₂, w₂', o, v, o₂, v₂, hstart, hstart₂, hask, hask₂, hgives.alike hgives₂⟩

end Query

/-! ### A list, and items that can be taken only once -/

theorem partners_sound : partners.Sound := Store.sound_of_places (by decide) (by decide)

theorem partners_lasting : partners.Lasting := Store.lasting_of_places (by decide)

/-- What is asked of a list of two partners after other questions is what is asked at once of the
same partners coming one by one. -/
theorem ask_independent_partners :
    Adapter.ofOptions {} = .ok Adapter.usual ∧ Adapter.usual.Steady partners ∧ partners.Sound ∧
      partners.Lasting ∧ partners.Has (.held 1) ∧
      (Adapter.usual.view partners).FiniteBelow (partners.recordsAsked (.held 1)) ∧
      partners.Grows (partners.alloc (.stream [.held 2, .held 2])).2 ∧
      (partners.alloc (.stream [.held 2, .held 2])).2.Sound ∧
      (partners.alloc (.stream [.held 2, .held 2])).2.recordsAsked (.held 4) =
        partners.recordsAsked (.held 1) ∧
      ∃ q w' q₂ w₂' o v o₂ v₂,
        Session.Leads (Query.start (.held 1) {}) { store := partners } (.ok q) w' ∧
        Session.Leads (Query.start (.held 4) {})
          { store := (partners.alloc (.stream [.held 2, .held 2])).2 } (.ok q₂) w₂' ∧
        Session.Leads (q.ask "b a") (q.worldAfter ["a b", "> >", ""] w') o v ∧
        Session.Leads (q₂.ask "b a") w₂' o₂ v₂ ∧
        Alike (fun c c₂ => List.Forall₂ (partners.SameValue v.store v₂.store)
          (v.store.recordsOf c) (v₂.store.recordsOf c₂)) o o₂ := by
  have hA := Adapter.usual_steady partners
  have hhas : partners.Has (.held 1) := by decide
  have hfinite := Adapter.usual_finiteBelow partners (partners.recordsAsked (.held 1))
  have hg := partners.grows_alloc (.stream [.held 2, .held 2])
  have hσ₂ := partners_sound.alloc (o := .stream [.held 2, .held 2]) (by decide)
  exact ⟨rfl, hA, partners_sound, partners_lasting, hhas, hfinite, hg, hσ₂, rfl,
    Query.ask_independent { store := partners }
      { store := (partners.alloc (.stream [.held 2, .held 2])).2 } {} Adapter.usual (.held 1)
      (.held 4) ["a b", "> >", ""] "b a" rfl hA partners_sound partners_lasting hhas hfinite hg hσ₂
      rfl⟩

/-- A record with an id. -/
def lone : Store where
  objects := #[.mapping [(.text "id", .text "y")]]

/-- The part that looks for this id. -/
def idPart : Part := { kind := .id, value := "y" }

theorem parse_idPart : Locator.parse "#y" = .ok ⟨"#y", [idPart.asWritten], by decide⟩ := by
  have hnil : ∀ c ∈ ([] : List Char), isBlank c := List.forall_mem_nil _
  have hlaysOut : LaysOut false [idPart] "#y".toList :=
    .part [] rfl hnil (fun h => nomatch h) (.done [] hnil)
  exact Locator.parse_eq_ok (parse_of_laysOut (by decide) hlaysOut)

/-- The record is found where it is asked for, and nothing is found among no records. -/
theorem answer_idPart : Query.answer Adapter.usual lone [.held 0] "#y" = .ok [.held 0] ∧
    Query.answer Adapter.usual lone [] "#y" = .ok [] := by
  have hanswer {seeds found : List Ref}
      (h : (Adapter.usual.view lone).Finds [idPart.asWritten] seeds found) :
      Query.answer Adapter.usual lone seeds "#y" = .ok found := by
    rw [Query.answer, parse_idPart]
    exact h.find_eq
  constructor
  · exact hanswer (View.finds_of_findWithin (n := 2) rfl)
  · exact hanswer (View.finds_of_findWithin (n := 1) rfl)

/-- The record as the only item that can be taken, and only once. -/
def loneStream : World where
  store := (lone.alloc (.stream [.held 0])).2

/-- **Items that can be taken only once are searched only once**: the first question finds the record,
the same question asked again finds nothing. -/
theorem asked_again_loneStream :
    ∃ q w c v c' v', Session.Leads (Query.start (.held 1) {}) loneStream (.ok q) w ∧
      Session.Leads (q.ask "#y") w (.ok c) v ∧ v.store.recordsOf c = [.held 0] ∧
      Session.Leads (q.ask "#y") v (.ok c') v' ∧ v'.store.recordsOf c' = [] := by
  have hσ : lone.Sound := Store.sound_of_places (by decide) (by decide)
  have hlasting : lone.Lasting := Store.lasting_of_places (by decide)
  have hg := lone.grows_alloc (.stream [.held 0])
  have hseeds : ∀ r ∈ [Ref.held 0], lone.Has r := by decide
  have hcovers {seeds : List Ref} (h : ∀ r ∈ seeds, lone.Has r) : Adapter.usual.Covers lone seeds :=
    ⟨Adapter.usual_steady lone, hσ, h, Adapter.usual_finiteBelow lone seeds⟩
  have hready : Query.Ready ⟨.held 1, 0⟩ Adapter.usual lone [.held 0]
      { loneStream with adapters := #[Adapter.usual] } :=
    ⟨hg, hg.drained hlasting _, hσ.alloc hseeds, rfl, rfl⟩
  have hagain := hready.ask_exhausted hlasting (hcovers hseeds) (by decide) rfl parse_idPart
  obtain ⟨o, v, hask, hgives, -⟩ := hready.ask (hcovers hseeds) "#y"
  rw [show (Query.ask ⟨.held 1, 0⟩ "#y").run.run _ = (o, v) from hask] at hagain
  obtain ⟨o', v', hask', hgives', -⟩ := hagain.ask (hcovers (List.forall_mem_nil _)) "#y"
  rw [answer_idPart.1] at hgives
  rw [answer_idPart.2] at hgives'
  cases hgives with
  | @ok _ c hrecords =>
    cases hgives' with
    | @ok _ c' hrecords' =>
      have hkept : ∀ r ∈ [Ref.held 0], ∀ s, r ≠ .fresh s := by simp
      exact ⟨_, _, c, v, c', v', rfl, hask, Store.eq_of_settles hrecords hkept, hask',
        List.forall₂_nil_left_iff.mp hrecords'⟩

end RecordQuery
