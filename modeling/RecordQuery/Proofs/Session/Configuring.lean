import RecordQuery.Proofs.Session.Steps

/-! # Options that are not recognized

A mapping of options may have any entries. Those under the four keys that mean something decide what
adapter it asks for, and whether there is one; all others are ignored, whatever their values are and
wherever they stand. But the ignored ones are told about by their names, so a key without a name,
one that is no text, makes everything fail, even where the four values suit.

* `World.Suits`: a value that an accessor can be made of.
* `World.ownOptions`: the options that hold just the values under the four keys.
* `Options.names_of_named`, `Options.names_of_unnamed`: the names of the ignored keys, or the first
  key that has none.
* `Adapter.ofOptions_eq_error_iff`: options are refused for the first value that does not suit.
* `Session.unrecognized_ignored`: the adapter that a mapping asks for. -/

namespace RecordQuery

/-! ### Values that suit -/

namespace Setting

/-- The type of a value that **does not suit**. -/
def unsuitable? : Setting → Option String
  | .unsuitable typeName => some typeName
  | _ => none

/-- A setting asks for an accessor, or is refused with its type. -/
theorem resolve_cases (usual : Accessor) (s : Setting) :
    (s.unsuitable? = none ∧ ∃ a, s.resolve usual = .ok a) ∨
      ∃ typeName, s.unsuitable? = some typeName ∧
        s.resolve usual = .error (.unsuitableAccessor typeName) := by
  cases s with
  | unsuitable typeName => exact .inr ⟨typeName, rfl, rfl⟩
  | _ => exact .inl ⟨rfl, _, rfl⟩

end Setting

namespace World

/-- The function that a value is, if it is one. -/
def functionOf? (w : World) (v : Ref) : Option RecordFunction :=
  match w.store.look v with
  | .function number => w.functions[number]?
  | _ => none

/-- A value **suits** as a setting: it is the absent value, a text, or a function. -/
def Suits (w : World) (v : Ref) : Prop :=
  w.store.isNull v ∨ (∃ name, w.store.text? v = some name) ∨ ∃ f, w.functionOf? v = some f

/-- The setting of a value suits just if the value does; otherwise it has the type of the value. -/
theorem suits_cases (w : World) (v : Ref) :
    (w.Suits v ∧ (Setting.ofValue w.functions w.store v).unsuitable? = none) ∨
      ¬ w.Suits v ∧
        (Setting.ofValue w.functions w.store v).unsuitable? = some (w.store.typeName v) := by
  rw [Suits, Store.isNull, Store.text?, functionOf?, Setting.ofValue, Store.typeName]
  -- only a function is not settled by its form: its number must be one that is known
  cases hv : w.store.look v with
  | scalar s => cases s <;> simp [Setting.unsuitable?, Object.typeName]
  | function number =>
    cases hf : w.functions[number]? <;> simp [Setting.unsuitable?, Object.typeName, hf]
  | _ => simp [Setting.unsuitable?, Object.typeName]

theorem unsuitable?_ofValue_eq_none_iff {w : World} {v : Ref} :
    (Setting.ofValue w.functions w.store v).unsuitable? = none ↔ w.Suits v := by
  obtain ⟨hsuits, hnone⟩ | ⟨hsuits, hsome⟩ := w.suits_cases v
  · exact iff_of_true hnone hsuits
  · rw [hsome]
    exact iff_of_false (Option.some_ne_none _) hsuits

theorem unsuitable?_ofValue_eq_some_iff {w : World} {v : Ref} {typeName : String} :
    (Setting.ofValue w.functions w.store v).unsuitable? = some typeName ↔
      ¬ w.Suits v ∧ w.store.typeName v = typeName := by
  obtain ⟨hsuits, hnone⟩ | ⟨hsuits, hsome⟩ := w.suits_cases v
  · rw [hnone]
    exact iff_of_false (Option.some_ne_none _).symm fun h => h.1 hsuits
  · rw [hsome, Option.some_inj, and_iff_right hsuits]

/-- The **own options** of a mapping: those that hold just the values under the four keys, of which
an absent one leaves the usual accessor. -/
def ownOptions (w : World) (r : Ref) : Options where
  id := .ofValue w.functions w.store (w.store.readField r "id")
  name := .ofValue w.functions w.store (w.store.readField r "name")
  className := .ofValue w.functions w.store (w.store.readField r "class")
  children := .ofValue w.functions w.store (w.store.readField r "children")

end World

/-! ### Options that are refused -/

/-- The settings of options, in the order in which they are resolved. -/
def Options.settings (o : Options) : List Setting := [o.id, o.name, o.className, o.children]

/-- **Options are refused** for the first of their settings that does not suit. -/
theorem Adapter.ofOptions_eq_error_iff {o : Options} {e : Failure} :
    ofOptions o = .error e ↔ ∃ typeName, o.settings.findSome? Setting.unsuitable? = some typeName ∧
      e = .unsuitableAccessor typeName := by
  rw [ofOptions, Options.settings]
  -- a setting is resolved only if those before it suit, so the cases lie in one another
  obtain ⟨hid, a, ha⟩ | ⟨t, hid, ha⟩ := o.id.resolve_cases (.field "id")
  · obtain ⟨hname, b, hb⟩ | ⟨t, hname, hb⟩ := o.name.resolve_cases (.field "name")
    · obtain ⟨hclass, c, hc⟩ | ⟨t, hclass, hc⟩ := o.className.resolve_cases (.field "class")
      · obtain ⟨hchildren, d, hd⟩ | ⟨t, hchildren, hd⟩ :=
          o.children.resolve_cases (.field "children")
        · simp [*, bind, Except.bind, pure, Except.pure]
        · simp [*, bind, Except.bind, eq_comm]
      · simp [*, bind, Except.bind, eq_comm]
    · simp [*, bind, Except.bind, eq_comm]
  · simp [*, bind, Except.bind, eq_comm]

/-- Options ask for an adapter just if all their settings suit. -/
theorem Adapter.exists_ofOptions_iff {o : Options} :
    (∃ A, ofOptions o = .ok A) ↔ ∀ s ∈ o.settings, s.unsuitable? = none := by
  rw [← List.findSome?_eq_none_iff]
  cases hsome : o.settings.findSome? Setting.unsuitable? with
  | none =>
    cases ho : ofOptions o with
    | ok A => exact iff_of_true ⟨A, rfl⟩ rfl
    | error e =>
      obtain ⟨typeName, hsome', -⟩ := ofOptions_eq_error_iff.mp ho
      cases hsome.symm.trans hsome'
  | some typeName =>
    rw [ofOptions_eq_error_iff.mpr ⟨typeName, hsome, rfl⟩]
    exact iff_of_false (fun ⟨_, h⟩ => nomatch h) (Option.some_ne_none _)

namespace World

variable {w : World} {r : Ref}

theorem settings_ownOptions : (w.ownOptions r).settings =
    Options.keys.map fun key => .ofValue w.functions w.store (w.store.readField r key) := rfl

/-- The own options of a mapping are refused for **the first value that does not suit**. -/
theorem ofOptions_ownOptions_eq_error_iff {e : Failure} :
    Adapter.ofOptions (w.ownOptions r) = .error e ↔ ∃ before key after,
      Options.keys = before ++ key :: after ∧ (∀ k ∈ before, w.Suits (w.store.readField r k)) ∧
      ¬ w.Suits (w.store.readField r key) ∧
      e = .unsuitableAccessor (w.store.typeName (w.store.readField r key)) := by
  rw [Adapter.ofOptions_eq_error_iff, settings_ownOptions, List.findSome?_map]
  simp only [List.findSome?_eq_some_iff, Function.comp_apply, unsuitable?_ofValue_eq_none_iff,
    unsuitable?_ofValue_eq_some_iff]
  constructor
  · rintro ⟨_, ⟨before, key, after, hkeys, ⟨hkey, rfl⟩, hbefore⟩, rfl⟩
    exact ⟨before, key, after, hkeys, hbefore, hkey, rfl⟩
  · rintro ⟨before, key, after, hkeys, hbefore, hkey, rfl⟩
    exact ⟨_, ⟨before, key, after, hkeys, ⟨hkey, rfl⟩, hbefore⟩, rfl⟩

/-- The own options of a mapping ask for an adapter just if **all four values suit**. -/
theorem exists_ofOptions_ownOptions_iff :
    (∃ A, Adapter.ofOptions (w.ownOptions r) = .ok A) ↔
      ∀ key ∈ Options.keys, w.Suits (w.store.readField r key) := by
  rw [Adapter.exists_ofOptions_iff, settings_ownOptions, List.forall_mem_map]
  simp only [unsuitable?_ofValue_eq_none_iff]

end World

/-! ### The names of the keys -/

namespace Options

variable {σ : Store}

/-- Keys that are texts have these as **their names**. -/
theorem names_of_named {keys : List Ref} (h : ∀ key ∈ keys, ∃ name, σ.text? key = some name)
    (index : Nat) : names σ index keys = .ok (keys.filterMap σ.text?) := by
  induction keys generalizing index with
  | nil => rfl
  | cons key keys ih =>
    obtain ⟨⟨name, hname⟩, hkeys⟩ := List.forall_mem_cons.mp h
    rw [names, hname, ih hkeys, List.filterMap_cons_some hname]
    rfl

/-- **The first key without a name** is told of by its place and type. -/
theorem names_of_unnamed {before after : List Ref} {key : Ref}
    (hbefore : ∀ k ∈ before, ∃ name, σ.text? k = some name) (hkey : σ.text? key = none)
    (index : Nat) : names σ index (before ++ key :: after) =
      .error (.unnamedOption (index + before.length) (σ.typeName key)) := by
  induction before generalizing index with
  | nil =>
    rw [List.nil_append, names, hkey]
    rfl
  | cons k before ih =>
    obtain ⟨⟨name, hname⟩, hbefore⟩ := List.forall_mem_cons.mp hbefore
    rw [List.cons_append, names, hname, ih hbefore, List.length_cons,
      Nat.add_right_comm index 1, Nat.add_assoc]
    rfl

end Options

/-! ### Entries and settings -/

/-- A field of a mapping is the value under its name. -/
theorem Store.readField_of_entries {σ : Store} {r : Ref} {entries : List (Ref × Ref)}
    (hr : (σ.look r).entries? = some entries) (name : String) :
    σ.readField r name = (σ.lookup? name entries).getD .null := by
  rw [readField, field?]
  cases ho : σ.look r with
  | mapping es | readOnlyMapping es =>
    rw [ho] at hr
    cases hr
    rfl
  | _ =>
    rw [ho] at hr
    cases hr

namespace World

/-- The **settings** of the entries of a mapping. -/
def settings (w : World) (entries : List (Ref × Ref)) : List (Ref × Setting) :=
  entries.map fun (key, value) => (key, .ofValue w.functions w.store value)

variable {w : World} {r : Ref} {entries : List (Ref × Ref)}

/-- The setting under a key is that of the value under it; where there is none, it is unset. -/
theorem settingAt_settings (key : String) :
    Options.settingAt w.store key (w.settings entries) =
      .ofValue w.functions w.store ((w.store.lookup? key entries).getD .null) := by
  rw [Options.settingAt, settings, List.find?_map, Store.lookup?]
  simp only [Function.comp_def]
  cases entries.find? fun entry => w.store.text? entry.1 == some key <;> rfl

/-- The settings of a mapping make its own options. -/
theorem ofSettings_eq_ownOptions (hr : (w.store.look r).entries? = some entries) :
    Options.ofSettings w.store (w.settings entries) = w.ownOptions r := by
  rw [Options.ofSettings, ownOptions]
  simp only [settingAt_settings, Store.readField_of_entries hr]

end World

/-- The keys of a mapping that **mean nothing**. -/
def Store.ignoredKeys (σ : Store) (entries : List (Ref × Ref)) : List Ref :=
  (entries.map (·.1)).filter fun key => !(σ.text? key).any Options.keys.contains

namespace World

variable {w : World} {r : Ref} {entries : List (Ref × Ref)}

theorem ignored_settings : Options.ignored w.store (w.settings entries) =
    w.store.ignoredKeys entries := by
  rw [Options.ignored, settings, List.map_map]
  rfl

/-- **The entries of a mapping** give its own options and the names of the keys that mean nothing,
if these have names. -/
theorem ofEntries_settings (hr : (w.store.look r).entries? = some entries) :
    Options.ofEntries w.store (w.settings entries) =
      (Options.names w.store 0 (w.store.ignoredKeys entries)).map (w.ownOptions r, ·) := by
  rw [Options.ofEntries, ofSettings_eq_ownOptions hr, ignored_settings]
  cases Options.names w.store 0 (w.store.ignoredKeys entries) <;> rfl

/-- The log once ignored options have been told about, if there are any. -/
def toldIgnored (w : World) (names : List String) : Array LogEntry :=
  if names.isEmpty then w.log else w.log.push (.ignoredOptions names)

end World

namespace Session

/-- The **adapter** that a mapping of options asks for. -/
def adapterFrom (r : Ref) : Session Adapter := do attempt (Adapter.ofOptions (← optionsOf r))

variable {w : World} {r : Ref} {entries : List (Ref × Ref)}

theorem leads_attempt_of {α : Type} {x o : Except Failure α} (h : x = o) :
    Leads (attempt x) w o w := by
  subst h
  exact leads_attempt x

theorem leads_settingsOf (hr : (w.store.look r).entries? = some entries) :
    Leads (settingsOf r) w (.ok (w.settings entries)) w := by
  have hsettings : Leads (settingsOf r) w
      (.ok (w.settings ((w.store.look r).entries?.getD []))) w := rfl
  rwa [hr] at hsettings

/-- The options of a mapping are its own ones, and the ignored keys are told about by name. -/
theorem leads_optionsOf (hr : (w.store.look r).entries? = some entries) {names : List String}
    (hnames : Options.names w.store 0 (w.store.ignoredKeys entries) = .ok names) :
    Leads (optionsOf r) w (.ok (w.ownOptions r)) { w with log := w.toldIgnored names } := by
  have hentries := World.ofEntries_settings hr
  rw [hnames] at hentries
  refine leads_store.bind ((leads_settingsOf hr).bind ((leads_attempt_of hentries).bind ?_))
  -- nothing is told where no key is ignored
  rw [World.toldIgnored]
  cases names with
  | nil => exact leads_pure _
  | cons name names => exact (leads_tell _).bind (leads_pure _)

/-- Without all these names there are no options, and nothing is told. -/
theorem leads_optionsOf_error (hr : (w.store.look r).entries? = some entries) {e : Failure}
    (hnames : Options.names w.store 0 (w.store.ignoredKeys entries) = .error e) :
    Leads (optionsOf r) w (.error e) w := by
  have hentries := World.ofEntries_settings hr
  rw [hnames] at hentries
  exact leads_store.bind ((leads_settingsOf hr).bind (leads_attempt_of hentries).bind_error)

/-- **Options that are not recognized are ignored**, if their keys are texts: whatever they are, a
mapping asks for the adapter that the four values alone ask for, and the names of the ignored keys
are told about. These values are refused, for the first one that does not suit, just if one of them
is neither absent, a text nor a function. The first ignored key that is no text, though, makes
everything fail before the values are looked at. -/
theorem unrecognized_ignored (w : World) (r : Ref) (entries : List (Ref × Ref))
    (hr : (w.store.look r).entries? = some entries) :
    ((∀ key ∈ w.store.ignoredKeys entries, ∃ name, w.store.text? key = some name) →
      Leads (adapterFrom r) w (Adapter.ofOptions (w.ownOptions r))
        { w with log := w.toldIgnored ((w.store.ignoredKeys entries).filterMap w.store.text?) }) ∧
    ((∃ A, Adapter.ofOptions (w.ownOptions r) = .ok A) ↔
      ∀ key ∈ Options.keys, w.Suits (w.store.readField r key)) ∧
    (∀ e, Adapter.ofOptions (w.ownOptions r) = .error e ↔ ∃ before key after,
      Options.keys = before ++ key :: after ∧ (∀ k ∈ before, w.Suits (w.store.readField r k)) ∧
      ¬ w.Suits (w.store.readField r key) ∧
      e = .unsuitableAccessor (w.store.typeName (w.store.readField r key))) ∧
    ∀ before key after, w.store.ignoredKeys entries = before ++ key :: after →
      (∀ k ∈ before, ∃ name, w.store.text? k = some name) → w.store.text? key = none →
      Leads (adapterFrom r) w (.error (.unnamedOption before.length (w.store.typeName key))) w := by
  refine ⟨fun hnamed => ?_, World.exists_ofOptions_ownOptions_iff,
    fun e => World.ofOptions_ownOptions_eq_error_iff, fun before key after hkeys hbefore hkey => ?_⟩
  · exact (leads_optionsOf hr (Options.names_of_named hnamed 0)).bind (leads_attempt _)
  · have hnames : Options.names w.store 0 (w.store.ignoredKeys entries) =
        .error (.unnamedOption before.length (w.store.typeName key)) := by
      rw [hkeys, Options.names_of_unnamed hbefore hkey, Nat.zero_add]
    exact (leads_optionsOf_error hr hnames).bind_error

end Session

/-! ### A key without a name, and keys with odd ones -/

/-- A mapping with an integer as its only key. -/
def integerKey : World where
  store := { objects := #[.mapping [(.plain (.int 1), .text "x")]] }

/-- **A key that is no text is not ignored**: nothing stands under the four keys, so all four values
suit, and yet there is no adapter. -/
theorem unnamed_refused_integerKey :
    (∀ key ∈ Options.keys, integerKey.Suits (integerKey.store.readField (.held 0) key)) ∧
      Session.Leads (Session.adapterFrom (.held 0)) integerKey
        (.error (.unnamedOption 0 "int")) integerKey ∧
      ¬ ∃ A w', Session.Leads (Session.adapterFrom (.held 0)) integerKey (.ok A) w' := by
  have hfails : Session.Leads (Session.adapterFrom (.held 0)) integerKey
      (.error (.unnamedOption 0 "int")) integerKey := rfl
  refine ⟨fun key hkey => .inl ?_, hfails, fun ⟨A, w', h⟩ => ?_⟩
  · revert key
    decide
  · cases (hfails.unique h).1

/-- Entries with the empty text as the name of the id field, the absent value for the name, and keys
that are nearly those that mean something. -/
def oddEntries : List (Ref × Ref) :=
  [(.text "class_", .plain (.int 3)), (.text "id", .text ""), (.text "", .null),
    (.text "name", .null), (.text "Id", .held 0)]

/-- Two mappings with these entries, of which the second has a zero for the children as well. -/
def oddKeys : World where
  store := {
    objects := #[.mapping oddEntries,
      .mapping ((.text "children", .plain (.int 0)) :: oddEntries)] }

/-- Three of the keys are ignored and told about; the empty name is kept, the zero is refused. -/
theorem unrecognized_ignored_oddKeys :
    (oddKeys.store.look (.held 0)).entries? = some oddEntries ∧
      (oddKeys.store.look (.held 1)).entries? =
        some ((.text "children", .plain (.int 0)) :: oddEntries) ∧
      Session.Leads (Session.adapterFrom (.held 0)) oddKeys
        (.ok { Adapter.usual with options := { id := .field "" }, id := .field "" })
        { oddKeys with log := #[.ignoredOptions ["class_", "", "Id"]] } ∧
      Session.Leads (Session.adapterFrom (.held 1)) oddKeys (.error (.unsuitableAccessor "int"))
        { oddKeys with log := #[.ignoredOptions ["class_", "", "Id"]] } := by
  obtain ⟨hkept, -⟩ := Session.unrecognized_ignored oddKeys (.held 0) _ rfl
  obtain ⟨hrefused, -⟩ := Session.unrecognized_ignored oddKeys (.held 1) _ rfl
  have hnamed : ∀ key ∈ oddKeys.store.ignoredKeys oddEntries,
      (oddKeys.store.text? key).isSome := by decide
  have hnames : ∀ key ∈ oddKeys.store.ignoredKeys oddEntries,
      ∃ name, oddKeys.store.text? key = some name :=
    fun key hkey => Option.isSome_iff_exists.mp (hnamed key hkey)
  exact ⟨rfl, rfl, hkept hnames, hrefused hnames⟩

end RecordQuery
