import RecordQuery.Proofs.Selector.Juxtaposition
import RecordQuery.Selector.Locator

/-! # Writing parts and reading them back

Parts are written one behind the other, each with its mark, its value and the condition in brackets,
and with the combinator in front if it is direct. Blanks may stand anywhere between these, and must
stand between a part and a part behind it that has no combinator. Whatever is written in this way is
read back as the same parts, and only such parts are ever read.

* `Part.Writable`, `Part.written`: the parts that can be written, and how.
* `LaysOut`: a text writes parts with some blanks between them; `render` is one such text.
* `StandsFor`: pieces of a text that can be read in only one way.
* `parse_of_laysOut`: what is written is read back.
* `parse_inverts_writing`: reading and writing are inverse. -/

namespace RecordQuery

/-! ### Parts as they are written -/

/-- A condition **can be written** when it tests for equality, its attribute has a name of name
characters, and no quote stands in its literal. -/
structure Condition.Writable (c : Condition) : Prop where
  /-- The operator is equality. -/
  supported : c.Supported
  /-- The attribute has a name. -/
  property_ne_nil : c.property.toList ≠ []
  /-- The name consists of name characters. -/
  property_chars : ∀ x ∈ c.property.toList, isIdentifierChar x
  /-- No quote stands in the literal. -/
  value_chars : ∀ x ∈ c.value.toList, x ≠ '"'

instance (c : Condition) : Decidable c.Writable :=
  decidable_of_iff
    (c.Supported ∧ c.property.toList ≠ [] ∧ c.property.toList.all isIdentifierChar ∧
      '"' ∉ c.value.toList)
    ⟨fun ⟨hc, hne, hproperty, hvalue⟩ =>
        ⟨hc, hne, List.all_eq_true.mp hproperty, fun _ hx => ne_of_mem_of_not_mem hx hvalue⟩,
      fun ⟨hc, hne, hproperty, hvalue⟩ =>
        ⟨hc, hne, List.all_eq_true.mpr hproperty, fun hquote => hvalue _ hquote rfl⟩⟩

namespace Part

/-- A part **can be written** when its value is a word and its condition, if any, can be written. -/
structure Writable (p : Part) : Prop where
  /-- There is a value. -/
  value_ne_nil : p.value.toList ≠ []
  /-- The value consists of word characters. -/
  value_chars : ∀ x ∈ p.value.toList, isWordChar x
  /-- The condition can be written. -/
  condition : ∀ c ∈ p.condition, c.Writable

instance (p : Part) : Decidable p.Writable :=
  decidable_of_iff
    (p.value.toList ≠ [] ∧ p.value.toList.all isWordChar ∧ ∀ c ∈ p.condition, c.Writable)
    ⟨fun ⟨hne, hvalue, hcondition⟩ => ⟨hne, List.all_eq_true.mp hvalue, hcondition⟩,
      fun ⟨hne, hvalue, hcondition⟩ => ⟨hne, List.all_eq_true.mpr hvalue, hcondition⟩⟩

/-- A part **as it is written**: its mark, its value, and the condition in brackets. -/
def written (p : Part) : String :=
  String.ofList p.kind.sigil ++ p.value ++
    match p.condition with
    | none => ""
    | some c => "[" ++ c.text ++ "]"

/-- A part with what is written for it as its source. -/
def asWritten (p : Part) : Part := { p with source := p.written }

/-- A part as it is written with the combinator in front, if it is direct. -/
def marked (p : Part) : String := (if p.direct then ">" else "") ++ p.written

end Part

/-- A text **lays out** parts, `behind` telling whether it follows a part: blanks stand before each
part or its combinator and behind the combinator, and may stand at the end. -/
inductive LaysOut : Bool → List Part → List Char → Prop
  /-- There is no part left. -/
  | done {behind : Bool} (gap : List Char) : (∀ c ∈ gap, isBlank c) → LaysOut behind [] gap
  /-- A part that is not direct is kept apart from the part before it. -/
  | part {behind : Bool} {p : Part} {ps : List Part} {text : List Char} (gap : List Char) :
      p.direct = false → (∀ c ∈ gap, isBlank c) → (behind = true → gap ≠ []) →
      LaysOut true ps text → LaysOut behind (p :: ps) (gap ++ (p.written.toList ++ text))
  /-- A direct part has the combinator in front, which keeps it apart. -/
  | child {behind : Bool} {p : Part} {ps : List Part} {text : List Char} (gap gap' : List Char) :
      p.direct = true → (∀ c ∈ gap, isBlank c) → (∀ c ∈ gap', isBlank c) → LaysOut true ps text →
      LaysOut behind (p :: ps) (gap ++ '>' :: (gap' ++ (p.written.toList ++ text)))

/-- Parts written with one blank between them. -/
def render (parts : List Part) : String := " ".intercalate (parts.map Part.marked)

/-- Behind a part, further parts are laid out by a blank before each. -/
theorem laysOut_flatMap (ps : List Part) :
    LaysOut true ps (ps.flatMap fun p => ' ' :: p.marked.toList) := by
  have hblank : ∀ c ∈ [' '], isBlank c := List.all_eq_true.mp rfl
  induction ps with
  | nil => exact .done [] (List.forall_mem_nil _)
  | cons p ps ih =>
    rw [List.flatMap_cons, Part.marked, String.toList_append]
    cases hp : p.direct with
    | false => exact .part [' '] hp hblank (fun _ => List.cons_ne_nil _ _) ih
    | true =>
      exact .child [' '] [] hp hblank (List.forall_mem_nil _) ih

theorem toList_render_cons (p : Part) (ps : List Part) :
    (render (p :: ps)).toList = p.marked.toList ++ ps.flatMap fun p => ' ' :: p.marked.toList := by
  induction ps generalizing p with
  | nil => simp [render]
  | cons q ps ih =>
    have hq := ih q
    rw [render] at hq ⊢
    rw [List.map_cons] at hq ⊢
    rw [List.map_cons, String.intercalate_cons_cons, String.toList_append, String.toList_append, hq]
    simp

/-- **Parts written with one blank between them** are laid out. -/
theorem laysOut_render (ps : List Part) : LaysOut false ps (render ps).toList := by
  have hnil : ∀ c ∈ ([] : List Char), isBlank c := List.forall_mem_nil _
  cases ps with
  | nil => exact .done [] hnil
  | cons p ps =>
    have hrest := laysOut_flatMap ps
    rw [toList_render_cons, Part.marked, String.toList_append]
    cases hp : p.direct with
    | false => exact .part [] hp hnil (fun h => nomatch h) hrest
    | true => exact .child [] [] hp hnil hnil hrest

/-! ### Part texts and the parts that can be written -/

/-- **A part that is read is written as its text.** -/
theorem written_toPart (t : PartText) (direct : Bool) :
    (t.toPart direct).written = String.ofList t.chars := by
  rw [← String.toList_inj]
  cases hcondition : t.condition with
  | none => simp [Part.written, PartText.toPart, PartText.chars, PartText.bracketed, hcondition]
  | some c =>
    simp [Part.written, PartText.toPart, PartText.chars, PartText.bracketed, hcondition,
      ConditionText.chars, ConditionText.toCondition, Condition.text]

theorem ConditionText.writable_toCondition (t : ConditionText) : t.toCondition.Writable where
  supported := rfl
  property_ne_nil := by
    rw [toCondition, String.toList_ofList]
    exact t.property_ne_nil
  property_chars := by
    rw [toCondition, String.toList_ofList]
    exact t.property_chars
  value_chars := by
    rw [toCondition, String.toList_ofList]
    exact t.literal_chars

/-- **A part that is read can be written.** -/
theorem writable_toPart (t : PartText) (direct : Bool) : (t.toPart direct).Writable where
  value_ne_nil := by
    rw [PartText.toPart, String.toList_ofList]
    exact t.word_ne_nil
  value_chars := by
    rw [PartText.toPart, String.toList_ofList]
    exact t.word_chars
  condition := by
    intro c hc
    obtain ⟨condition, -, rfl⟩ := Option.map_eq_some_iff.mp hc
    exact condition.writable_toCondition

/-- A condition that can be written is that of a condition text. -/
theorem Condition.Writable.exists_text {c : Condition} (h : c.Writable) :
    ∃ t : ConditionText, t.toCondition = c := by
  obtain ⟨property, value, operator⟩ := c
  obtain ⟨hsupported, hne, hproperty, hvalue⟩ := h
  refine ⟨⟨property.toList, value.toList, hne, hproperty, hvalue⟩, ?_⟩
  have hoperator : operator = "=" := hsupported
  rw [ConditionText.toCondition, String.ofList_toList, String.ofList_toList, hoperator]

/-- **A part that can be written** is that of a part text, with what is written as its source. -/
theorem Part.Writable.exists_text {p : Part} (h : p.Writable) :
    ∃ t : PartText, t.chars = p.written.toList ∧ ∀ direct,
      t.toPart direct = { p.asWritten with direct := direct } := by
  have hcondition : ∃ condition : Option ConditionText,
      condition.map ConditionText.toCondition = p.condition := by
    cases hp : p.condition with
    | none => exact ⟨none, rfl⟩
    | some c =>
      obtain ⟨t, rfl⟩ := (h.condition c hp).exists_text
      exact ⟨some t, rfl⟩
  obtain ⟨condition, hcondition⟩ := hcondition
  let t : PartText := ⟨p.kind, p.value.toList, condition, h.value_ne_nil, h.value_chars⟩
  have hfields : ∀ direct,
      t.toPart direct = { p with direct, source := String.ofList t.chars } := by
    intro direct
    rw [PartText.toPart, hcondition, String.ofList_toList]
  -- the text is what is written for its part, in which the source plays no role
  have hwritten : p.written = String.ofList t.chars := by
    rw [← written_toPart t p.direct, hfields]
    rfl
  refine ⟨t, ?_, fun direct => ?_⟩
  · rw [hwritten, String.toList_ofList]
  · rw [hfields, ← hwritten]
    rfl

/-! ### Pieces that can be read in only one way -/

/-- Pieces **stand for** parts, depending on whether a combinator is pending before them: none of
them are joined, and no combinators clash. -/
structure StandsFor (pieces : List Piece) (parts : Bool → List Part) : Prop where
  /-- No pieces are joined. -/
  merged : merge pieces = pieces
  /-- No combinators clash. -/
  not_redundant : ¬ Redundant pieces
  /-- The parts are those that the pieces list. -/
  parts_eq : ∀ before, partsAfter before pieces = parts (lastToken? before = some .child)

namespace StandsFor

variable {pieces : List Piece} {parts : Bool → List Part}

theorem nil : StandsFor [] fun _ => [] := ⟨rfl, not_redundant_nil, fun _ => rfl⟩

/-- Blanks in front change nothing. -/
theorem blanks_append {blanks : List Piece} (hblanks : ∀ x ∈ blanks, x.token? = none)
    (h : StandsFor pieces parts) : StandsFor (blanks ++ pieces) parts where
  merged := by rw [merge_blanks_append hblanks, h.merged]
  not_redundant := by
    rw [redundant_append_iff, lastToken?_eq_none_iff.mpr hblanks]
    simp [not_redundant_of_blanks hblanks, h.not_redundant]
  parts_eq before := by
    rw [partsAfter_append, partsAfter_blanks hblanks, h.parts_eq, lastToken?_append,
      lastToken?_eq_none_iff.mpr hblanks]
    rfl

/-- A part in front is direct if a combinator is pending, and then none is pending any more. -/
theorem part_cons (t : PartText) (hhead : ∀ y ∈ pieces.head?, ¬ y.GoesOn)
    (h : StandsFor pieces parts) :
    StandsFor (.token (.part t) :: pieces) fun pending => t.toPart pending :: parts false where
  merged := by rw [merge_cons, h.merged, attach_of_head _ hhead]
  not_redundant := by
    rw [redundant_cons_iff]
    simp [h.not_redundant]
  parts_eq before := by
    rw [partsAfter_cons, h.parts_eq, lastToken?_append_token]
    rfl

/-- A combinator in front is pending for what follows, unless another one is next. -/
theorem child_cons (hnext : ¬ ChildNext pieces) (h : StandsFor pieces parts) :
    StandsFor (.token .child :: pieces) fun _ => parts true where
  merged := by
    rw [merge_cons, h.merged]
    cases pieces <;> rfl
  not_redundant := by
    rw [redundant_cons_iff]
    simp [h.not_redundant, hnext]
  parts_eq before := by
    rw [partsAfter_cons, h.parts_eq, lastToken?_append_token]
    rfl

/-- **A text whose pieces stand for parts is parsed to these parts.** -/
theorem parse_eq (h : StandsFor pieces parts) {s : String} (hs : spelled pieces = s.toList) :
    parse s = .ok (parts false) := by
  rw [parse_of_not_redundant hs h.not_redundant, h.merged, h.parts_eq]
  rfl

end StandsFor

/-! ### What is written is read back -/

/-- **A text that lays out parts has pieces that stand for them.** The induction is on the layout;
behind a part its text starts with no piece that goes on a word, and no combinator waits at its
end. -/
theorem LaysOut.exists_pieces {behind : Bool} {ps : List Part} {text : List Char}
    (h : LaysOut behind ps text) (hps : ∀ p ∈ ps, p.Writable) :
    ∃ pieces parts, spelled pieces = text ∧ StandsFor pieces parts ∧
      parts false = ps.map Part.asWritten ∧
      (behind = true → ∀ y ∈ pieces.head?, ¬ y.GoesOn) ∧ lastToken? pieces ≠ some .child := by
  induction h with
  | done gap hgap =>
    obtain ⟨blanks, hspelled, hblanks⟩ := exists_blanks hgap
    refine ⟨blanks ++ [], _, ?_, StandsFor.nil.blanks_append hblanks, rfl, fun _ => ?_, ?_⟩
    · rw [List.append_nil, hspelled]
    · exact head_blanks_append hblanks fun _ y hy => nomatch hy
    · rw [List.append_nil, lastToken?_eq_none_iff.mpr hblanks]
      exact (Option.some_ne_none _).symm
  | @part behind p ps text gap hdirect hgap hne _ ih =>
    obtain ⟨hp, hps⟩ := List.forall_mem_cons.mp hps
    obtain ⟨pieces, parts, hpieces, hstands, hparts, hhead, hlast⟩ := ih hps
    obtain ⟨blanks, hspelled, hblanks⟩ := exists_blanks hgap
    obtain ⟨t, hchars, htoPart⟩ := hp.exists_text
    refine ⟨blanks ++ .token (.part t) :: pieces, _, ?_,
      (hstands.part_cons t (hhead rfl)).blanks_append hblanks, ?_, fun hbehind => ?_, ?_⟩
    · rw [spelled_append, spelled_cons, hspelled, hpieces, Piece.chars, Token.chars, hchars]
    · show t.toPart false :: parts false = p.asWritten :: ps.map Part.asWritten
      rw [htoPart, hparts, ← hdirect]
      rfl
    · refine head_blanks_append hblanks fun hnil => ?_
      rw [hnil] at hspelled
      exact absurd hspelled.symm (hne hbehind)
    · exact lastToken?_append_part_ne blanks t hlast
  | @child behind p ps text gap gap' hdirect hgap hgap' _ ih =>
    obtain ⟨hp, hps⟩ := List.forall_mem_cons.mp hps
    obtain ⟨pieces, parts, hpieces, hstands, hparts, hhead, hlast⟩ := ih hps
    obtain ⟨blanks, hspelled, hblanks⟩ := exists_blanks hgap
    obtain ⟨blanks', hspelled', hblanks'⟩ := exists_blanks hgap'
    obtain ⟨t, hchars, htoPart⟩ := hp.exists_text
    have hpart := (hstands.part_cons t (hhead rfl)).blanks_append hblanks'
    have hnext : ¬ ChildNext (blanks' ++ .token (.part t) :: pieces) := by
      rw [childNext_append_iff, childNext_cons_iff]
      simp [not_childNext_of_blanks hblanks', Piece.token?]
    refine ⟨blanks ++ .token .child :: (blanks' ++ .token (.part t) :: pieces), _, ?_,
      (hpart.child_cons hnext).blanks_append hblanks, ?_, fun _ => ?_, ?_⟩
    · rw [spelled_append, spelled_cons, spelled_append, spelled_cons, hspelled, hspelled', hpieces,
        Piece.chars, Piece.chars, Token.chars, Token.chars, hchars]
      rfl
    · show t.toPart true :: parts false = p.asWritten :: ps.map Part.asWritten
      rw [htoPart, hparts, ← hdirect]
      rfl
    · refine head_blanks_append hblanks fun _ => ?_
      rintro y ⟨⟩
      exact id
    · have hbehind := lastToken?_append_part_ne (blanks ++ .token .child :: blanks') t hlast
      rwa [List.append_assoc] at hbehind

/-- A text that lays out parts **does not end with a combinator** that waits for a part. -/
theorem not_endsPending_of_laysOut {ps : List Part} {text : String} (hps : ∀ p ∈ ps, p.Writable)
    (h : LaysOut false ps text.toList) : ¬ EndsPending text := by
  obtain ⟨pieces, parts, hspelled, -, -, -, hlast⟩ := h.exists_pieces hps
  rwa [endsPending_iff hspelled]

/-- **What is written is read back**, each part with what is written for it as its source. -/
theorem parse_of_laysOut {ps : List Part} {text : String} (hps : ∀ p ∈ ps, p.Writable)
    (h : LaysOut false ps text.toList) : parse text = .ok (ps.map Part.asWritten) := by
  obtain ⟨pieces, parts, hspelled, hstands, hparts, -, -⟩ := h.exists_pieces hps
  rw [hstands.parse_eq hspelled, hparts]

/-! ### Only what can be written is read -/

/-- Every part that a splitting lists is that of a part text. -/
theorem exists_toPart_of_mem_partsAfter {before pieces : List Piece} {p : Part}
    (hp : p ∈ partsAfter before pieces) :
    ∃ (t : PartText) (direct : Bool), p = t.toPart direct := by
  induction pieces generalizing before with
  | nil => exact absurd hp List.not_mem_nil
  | cons x rest ih =>
    rw [partsAfter_cons, List.mem_append] at hp
    rcases hp with hp | hp
    · cases x with
      | blank c hc => exact absurd hp List.not_mem_nil
      | token t =>
        cases t with
        | child => exact absurd hp List.not_mem_nil
        | part t => exact ⟨t, _, List.mem_singleton.mp hp⟩
    · exact ih hp

/-- **A part that is read can be written**, and its source is what is written for it. -/
theorem writable_of_parse {s : String} {ps : List Part} (h : parse s = .ok ps) :
    ∀ p ∈ ps, p.Writable ∧ p.source = p.written := by
  obtain ⟨pieces, -, -, rfl⟩ := exists_pieces_of_parse h
  intro p hp
  obtain ⟨t, direct, rfl⟩ := exists_toPart_of_mem_partsAfter hp
  exact ⟨writable_toPart t direct, (written_toPart t direct).symm⟩

/-- Parts whose sources are what is written for them stay the same when they are written. -/
theorem map_asWritten_eq {ps : List Part} (h : ∀ p ∈ ps, p.source = p.written) :
    ps.map Part.asWritten = ps := by
  have hsame : ∀ p ∈ ps, p.asWritten = p := by
    intro p hp
    rw [Part.asWritten, ← h p hp]
  exact (List.map_congr_left hsame).trans (List.map_id ps)

/-! ### Locators from parts that were read -/

namespace Part

/-- A part without the combinator in front. -/
def indirect (p : Part) : Part := { p with direct := false }

/-- Without the combinator nothing but the part is written. -/
theorem marked_indirect (p : Part) : p.indirect.marked = p.written := String.empty_append

/-- A part that can be written is called by its source, if this is what is written for it. -/
theorem Writable.label_eq {p : Part} (h : p.Writable) (hsource : p.source = p.written) :
    p.label = p.source := by
  have hne : p.written ≠ "" := by
    intro hempty
    have hchars := congrArg String.toList hempty
    simp [written, h.value_ne_nil] at hchars
  rw [label, if_neg]
  rwa [hsource, String.isEmpty_iff]

end Part

variable {ps : List Part}

/-- The text of parts that were read is made of their sources. -/
theorem sourceOf_eq (h : ∀ p ∈ ps, p.Writable ∧ p.source = p.written) :
    Locator.sourceOf ps = " ".intercalate (ps.map Part.source) :=
  congrArg _ (List.map_congr_left fun p hp => (h p hp).1.label_eq (h p hp).2)

/-- This text is what is written for the parts without their combinators. -/
theorem render_map_indirect (h : ∀ p ∈ ps, p.source = p.written) :
    render (ps.map Part.indirect) = " ".intercalate (ps.map Part.source) := by
  rw [render, List.map_map]
  exact congrArg _ (List.map_congr_left fun p hp => (p.marked_indirect).trans (h p hp).symm)

/-- **The text of a locator from parts that were read** is read as these parts without their
combinators. -/
theorem parse_sourceOf (h : ∀ p ∈ ps, p.Writable ∧ p.source = p.written) :
    parse (Locator.sourceOf ps) = .ok (ps.map Part.indirect) := by
  have hwritable : ∀ p ∈ ps.map Part.indirect, p.Writable := by
    rw [List.forall_mem_map]
    intro p hp
    obtain ⟨hne, hvalue, hcondition⟩ := (h p hp).1
    exact ⟨hne, hvalue, hcondition⟩
  have hsources : ∀ p ∈ ps.map Part.indirect, p.source = p.written := by
    rw [List.forall_mem_map]
    exact fun p hp => (h p hp).2
  rw [sourceOf_eq h, ← render_map_indirect fun p hp => (h p hp).2,
    parse_of_laysOut hwritable (laysOut_render _), map_asWritten_eq hsources]

/-! ### Writing and reading -/

/-- **Writing and reading are inverse.** Parts that can be written are read back from every text
that lays them out, each with what is written for it as its source. Only such parts are ever read,
so they are read again from every text that lays them out; and the text of a locator that is made
from them, their sources with one blank between them, is read as the same parts without
combinators. -/
theorem parse_inverts_writing :
    (∀ (ps : List Part) (text : String), (∀ p ∈ ps, p.Writable) → LaysOut false ps text.toList →
      parse text = .ok (ps.map Part.asWritten)) ∧
    ∀ (s : String) (ps : List Part), parse s = .ok ps →
      (∀ p ∈ ps, p.Writable ∧ p.source = p.written) ∧
      (∀ text : String, LaysOut false ps text.toList → parse text = .ok ps) ∧
      parse (render ps) = .ok ps ∧
      ∃ l, Locator.ofParts ps = .ok l ∧ l.parts = ps ∧
        l.source = " ".intercalate (ps.map Part.source) ∧
        parse l.source = .ok (ps.map Part.indirect) := by
  refine ⟨fun ps text hps h => parse_of_laysOut hps h, fun s ps hparse => ?_⟩
  have hps := writable_of_parse hparse
  have hagain : ∀ text : String, LaysOut false ps text.toList → parse text = .ok ps := by
    intro text htext
    rw [parse_of_laysOut (fun p hp => (hps p hp).1) htext,
      map_asWritten_eq fun p hp => (hps p hp).2]
  have hlocator := Locator.ofParts_eq_ok (parse_supported hparse)
  exact ⟨hps, hagain, hagain _ (laysOut_render ps), _, hlocator, rfl, sourceOf_eq hps,
    parse_sourceOf hps⟩

/-! ### A text with many delimiters -/

/-- Parts whose values and literals contain what delimits them. -/
def delimiters : List Part :=
  [{ kind := .id, value := "a", direct := true, condition := some ⟨"x", "]> #b", "="⟩ },
    { kind := .className, value := "b-1" },
    { kind := .name, value := "c", direct := true }]

/-- These parts with as few blanks as possible in one place and many in another. -/
theorem laysOut_delimiters : LaysOut false delimiters ">\n#a[x=\"]> #b\"]\t .b-1>c".toList := by
  have hnil : ∀ c ∈ ([] : List Char), isBlank c := List.forall_mem_nil _
  have hline : ∀ c ∈ ['\n'], isBlank c := List.all_eq_true.mp rfl
  have hgap : ∀ c ∈ ['\t', ' '], isBlank c := List.all_eq_true.mp rfl
  have hlast : LaysOut true (delimiters.drop 2) ">c".toList :=
    .child [] [] rfl hnil hnil (.done [] hnil)
  have hbehind : LaysOut true (delimiters.drop 1) "\t .b-1>c".toList :=
    .part ['\t', ' '] rfl hgap (fun _ => List.cons_ne_nil _ _) hlast
  exact .child [] ['\n'] rfl hnil hline hbehind

theorem writable_delimiters : ∀ p ∈ delimiters, p.Writable := by decide

/-- They are read back, and read again from what they are written as. -/
theorem parse_delimiters :
    parse ">\n#a[x=\"]> #b\"]\t .b-1>c" = .ok (delimiters.map Part.asWritten) ∧
      parse (render (delimiters.map Part.asWritten)) = .ok (delimiters.map Part.asWritten) := by
  have hparse := parse_inverts_writing.1 _ _ writable_delimiters laysOut_delimiters
  exact ⟨hparse, (parse_inverts_writing.2 _ _ hparse).2.2.1⟩

end RecordQuery
