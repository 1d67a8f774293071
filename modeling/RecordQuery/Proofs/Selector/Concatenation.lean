import RecordQuery.Proofs.Selector.ErrorPlaces

/-! # Errors of one selector behind another

Two selectors with blanks between them are read one after the other, so an error in the second one is
met at the same place in it. An error in the text itself wins over a redundant combinator in either
of them. A combinator that waits at the end of the first one makes the first part of the second one
direct, or meets a combinator at its start.

* `tokensFrom_spelled_append`: a text that can be split is read before whatever follows its blanks.
* `tokensFrom_shift`: the same text further on is refused at a later place.
* `StartsWithChild`: a combinator is the first token of a text.
* `redundantAt_append_iff`, `redundantAt_iff_of_before`: redundant combinators of two splittings.
* `firstDirect`, `partsAfter_of_pending`: the parts behind a combinator that waits.
* `reportedOffsets`, `Splits.isLeast_reportedOffsets`: which redundant combinator is the first one.
* `parse_concatenated`: what parsing makes of two selectors with blanks between them. -/

namespace RecordQuery

/-! ### Reading two texts -/

/-- A piece of a maximal splitting is the next token, whatever text follows the splitting that goes on
neither with a word nor with a bracket. -/
theorem scanToken_spelled_append {x : Piece} {pieces : List Piece} (h : Maximal (x :: pieces))
    {rest : List Char} (hrest : ∀ c ∈ rest.head?, isWordChar c = false ∧ c ≠ '[') :
    scanToken (x.chars ++ (spelled pieces ++ rest)) = some (x.token?, spelled pieces ++ rest) := by
  cases x with
  | blank c hc => exact scanToken_blank hc _
  | token t =>
    cases t with
    | child => exact scanToken_child _
    | part p =>
      refine scanToken_part_iff.mpr (scanPart_chars_append_iff.mpr fun hp => ?_)
      have hword := (scanPart_chars_append_iff.mp (maximal_part_iff.mp h).1 hp).1
      have hhead : ∀ c ∈ (spelled pieces ++ rest).head?, isWordChar c = false ∧ c ≠ '[' := by
        cases hspelled : spelled pieces with
        | nil => exact hrest
        | cons d ds =>
          rintro c ⟨⟩
          rw [hspelled, List.takeWhile_cons] at hword
          refine ⟨by simpa using hword, head_spelled_ne pieces d ?_⟩
          rw [hspelled]
          rfl
      exact ⟨(takeWhile_of_stop fun c hc => (hhead c hc).1).1,
        congrArg Prod.fst (scanOptional_of_head fun c hc => (hhead c hc).2)⟩

/-- **A maximal splitting is read before whatever follows it**, if this goes on neither with a word nor
with a bracket. -/
theorem tokensFrom_spelled_append {pieces : List Piece} (h : Maximal pieces) {rest : List Char}
    (hrest : ∀ c ∈ rest.head?, isWordChar c = false ∧ c ≠ '[') (place : Place)
    (previous : Option Token) :
    ∃ previous', tokensFrom place previous (spelled pieces ++ rest) =
      (tokensFrom (place.past (spelled pieces)) previous' rest).map
        (lexemesAt place pieces ++ ·) := by
  induction pieces generalizing place previous with
  | nil =>
    refine ⟨previous, ?_⟩
    rw [spelled_nil, List.nil_append, Place.past_nil]
    cases tokensFrom place previous rest <;> rfl
  | cons x pieces ih =>
    have hscan := scanToken_spelled_append h hrest
    rw [spelled_cons, List.append_assoc, tokensFrom_eq, hscan, Place.past_append]
    cases x with
    | blank c hc => exact ih h.tail (place.past [c]) previous
    | token t =>
      obtain ⟨previous', hpieces⟩ := ih h.tail (place.past t.chars) (some t)
      refine ⟨previous', ?_⟩
      show (tokensFrom (place.past t.chars) (some t) _).map _ = _
      rw [hpieces]
      show _ = (tokensFrom ((place.past t.chars).past (spelled pieces)) previous' rest).map _
      cases tokensFrom _ previous' rest <;> rfl

/-- Blanks are read over. -/
theorem tokensFrom_blanks_append {gap : List Char} (h : ∀ c ∈ gap, isBlank c) (place : Place)
    (previous : Option Token) (rest : List Char) :
    tokensFrom place previous (gap ++ rest) = tokensFrom (place.past gap) previous rest := by
  induction gap generalizing place with
  | nil => rfl
  | cons c gap ih =>
    obtain ⟨hc, hgap⟩ := List.forall_mem_cons.mp h
    rw [List.cons_append, tokensFrom_eq, scanToken_blank hc]
    show tokensFrom (place.past [c]) previous (gap ++ rest) = _
    rw [ih hgap, ← Place.past_append, List.singleton_append]

/-- **The same text further on** is refused at a place that is as much later. -/
theorem tokensFrom_shift {place place' : Place} {previous : Option Token} {cs : List Char}
    {u : Unrecognized} {shift : Nat} (h : tokensFrom place previous cs = .error u)
    (hshift : place'.offset = shift + place.offset) (previous' : Option Token) :
    ∃ u', tokensFrom place' previous' cs = .error u' ∧
      u'.place.offset = shift + u.place.offset := by
  -- a token takes as many characters wherever it starts
  have hpast {place place' : Place} (ds : List Char) (h : place'.offset = shift + place.offset) :
      (place'.past ds).offset = shift + (place.past ds).offset := by
    rw [Place.offset_past, Place.offset_past, h, Nat.add_assoc]
  fun_induction tokensFrom place previous cs generalizing u place' previous' with
  | case1 => cases h
  | case2 place previous cs hscan hne =>
    cases h
    exact ⟨⟨place', previous'⟩, by rw [tokensFrom_eq, hscan]; simp [hne], hshift⟩
  | case3 place previous cs rest hscan ih =>
    obtain ⟨u', hread, hoffset⟩ := ih h (hpast _ hshift) previous'
    exact ⟨u', by rw [tokensFrom_eq, hscan]; exact hread, hoffset⟩
  | case4 => cases h
  | case5 place previous cs token rest hscan u' hread ih =>
    cases h
    obtain ⟨u', hread, hoffset⟩ := ih hread (hpast _ hshift) (some token)
    refine ⟨u', ?_, hoffset⟩
    rw [tokensFrom_eq, hscan]
    show (tokensFrom (place'.past token.chars) (some token) rest).map _ = _
    rw [hread]
    rfl

/-- **An error in the second text** is met behind the first one. -/
theorem parse_gap_error {s₁ gap s₂ : String} {pieces : List Piece} {u : Unrecognized}
    (h₁ : spelled pieces = s₁.toList) (hgap : ∀ c ∈ gap.toList, isBlank c) (hne : gap.toList ≠ [])
    (h₂ : parse s₂ = .error (.unrecognized u)) :
    ∃ u', parse (s₁ ++ gap ++ s₂) = .error (.unrecognized u') ∧
      u'.place.offset = s₁.length + gap.length + u.place.offset := by
  have hhead : ∀ c ∈ (gap.toList ++ s₂.toList).head?, isWordChar c = false ∧ c ≠ '[' := by
    obtain ⟨c, cs, hcs⟩ := List.exists_cons_of_ne_nil hne
    rw [hcs]
    rintro d ⟨⟩
    obtain ⟨-, -, -, hbracket, hword⟩ := isBlank_ne (hgap c (hcs ▸ List.mem_cons_self))
    exact ⟨hword, hbracket⟩
  obtain ⟨previous, hread⟩ := tokensFrom_spelled_append (maximal_merge pieces) hhead {} none
  rw [tokensFrom_blanks_append hgap, spelled_merge, h₁] at hread
  have hshift : ((Place.past {} s₁.toList).past gap.toList).offset = s₁.length + gap.length + 0 := by
    simp [String.length_toList]
  have hsecond : tokensFrom {} none s₂.toList = .error u := parse_eq_unrecognized_iff.mp h₂
  obtain ⟨u', hplace, hoffset⟩ := tokensFrom_shift hsecond hshift previous
  refine ⟨u', parse_eq_unrecognized_iff.mpr ?_, hoffset⟩
  rw [String.toList_append, String.toList_append, List.append_assoc, tokens, hread, hplace]
  rfl

/-! ### Redundant combinators of two texts -/

/-- A combinator is the **first token** of a text, at an offset. -/
def StartsWithChild (cs : List Char) (offset : Nat) : Prop :=
  ∃ gap after, cs = gap ++ '>' :: after ∧ (∀ c ∈ gap, isBlank c) ∧ gap.length = offset

/-- A blank before a text moves its first token, any other character is part of its first token. -/
theorem startsWithChild_cons_iff {c : Char} {cs : List Char} {offset : Nat} :
    StartsWithChild (c :: cs) offset ↔
      (c = '>' ∧ offset = 0) ∨
        (isBlank c ∧ ∃ later, StartsWithChild cs later ∧ offset = 1 + later) := by
  constructor
  · rintro ⟨gap, after, h, hgap, rfl⟩
    cases gap with
    | nil => exact .inl ⟨(List.cons.inj h).1, rfl⟩
    | cons d gap =>
      obtain ⟨rfl, rfl⟩ := List.cons.inj h
      obtain ⟨hc, hgap⟩ := List.forall_mem_cons.mp hgap
      exact .inr ⟨hc, _, ⟨gap, after, rfl, hgap, rfl⟩, Nat.add_comm _ _⟩
  · rintro (⟨rfl, rfl⟩ | ⟨hc, _, ⟨gap, after, rfl, hgap, rfl⟩, rfl⟩)
    · exact ⟨[], cs, rfl, List.forall_mem_nil _, rfl⟩
    · exact ⟨c :: gap, after, rfl, List.forall_mem_cons.mpr ⟨hc, hgap⟩, Nat.add_comm _ _⟩

/-- A combinator is the first token of a splitting if it is the first piece, or behind blanks. -/
theorem startsWithChild_spelled_cons_iff {x : Piece} {rest : List Piece} {offset : Nat} :
    StartsWithChild (spelled (x :: rest)) offset ↔
      (x = .token .child ∧ offset = 0) ∨
        (x.token? = none ∧ ∃ later, StartsWithChild (spelled rest) later ∧ offset = 1 + later) := by
  rw [spelled_cons]
  cases x with
  | blank c hc =>
    have hne : c ≠ '>' := (isBlank_ne hc).2.2.1
    rw [Piece.chars, List.singleton_append, startsWithChild_cons_iff]
    simp [hne, hc, Piece.token?]
  | token t =>
    cases t with
    | child =>
      rw [Piece.chars, Token.chars, List.singleton_append, startsWithChild_cons_iff]
      simp [Piece.token?, isBlank]
    | part p =>
      -- a part starts with its sigil or its word, and neither is a blank or a combinator
      obtain ⟨c, word, hword⟩ := List.exists_cons_of_ne_nil p.word_ne_nil
      have hc : isWordChar c := p.word_chars c (hword ▸ List.mem_cons_self)
      have hblank : isBlank c = false := by
        by_contra hblank
        have hnot := (isBlank_ne (by simpa using hblank)).2.2.2.2
        rw [hc] at hnot
        cases hnot
      have hchild : c ≠ '>' := by
        rintro rfl
        cases hc
      rw [Piece.chars, Token.chars, PartText.chars, hword]
      cases p.kind with
      | id => simp [Kind.sigil, startsWithChild_cons_iff, Piece.token?, isBlank]
      | className => simp [Kind.sigil, startsWithChild_cons_iff, Piece.token?, isBlank]
      | name => simp [Kind.sigil, startsWithChild_cons_iff, Piece.token?, hblank, hchild]

/-- The first token of a text is at one offset only. -/
theorem StartsWithChild.unique {cs : List Char} {offset offset' : Nat}
    (h : StartsWithChild cs offset) (h' : StartsWithChild cs offset') : offset = offset' := by
  induction cs generalizing offset offset' with
  | nil =>
    obtain ⟨gap, after, hnil, -⟩ := h
    exact absurd hnil.symm (List.append_ne_nil_of_right_ne_nil _ (List.cons_ne_nil _ _))
  | cons c cs ih =>
    rw [startsWithChild_cons_iff] at h h'
    rcases h with ⟨rfl, rfl⟩ | ⟨hc, later, hlater, rfl⟩
    · rcases h' with ⟨-, rfl⟩ | ⟨hc, -⟩
      · rfl
      · cases hc
    · rcases h' with ⟨rfl, -⟩ | ⟨-, later', hlater', rfl⟩
      · cases hc
      · rw [ih hlater hlater']

theorem not_startsWithChild_nil {offset : Nat} : ¬ StartsWithChild [] offset := by
  rintro ⟨gap, after, h, -⟩
  exact absurd h.symm (List.append_ne_nil_of_right_ne_nil _ (List.cons_ne_nil _ _))

/-- Redundant combinators of **two splittings**, the second behind the first. -/
theorem redundantAt_append_iff {before xs ys : List Piece} {offset : Nat} :
    RedundantAt before (xs ++ ys) offset ↔ RedundantAt before xs offset ∨
      ∃ later, RedundantAt (before ++ xs) ys later ∧ offset = (spelled xs).length + later := by
  induction xs generalizing before offset with
  | nil => simp [not_redundantAt_nil]
  | cons x xs ih =>
    simp only [List.cons_append, redundantAt_cons_iff, ih, spelled_cons, List.length_append,
      List.append_assoc, List.nil_append]
    grind

/-- Blanks have no redundant combinator. -/
theorem not_redundantAt_of_blanks {before blanks : List Piece} (h : ∀ x ∈ blanks, x.token? = none)
    {offset : Nat} : ¬ RedundantAt before blanks offset := by
  rintro ⟨between, after, rfl, -⟩
  cases h (.token .child) (List.mem_append_right _ List.mem_cons_self)

/-- **Behind a combinator that waits**, one that is the first token is redundant as well. -/
theorem redundantAt_iff_of_before {before ys : List Piece} {offset : Nat} :
    RedundantAt before ys offset ↔
      (lastToken? before = some .child ∧ StartsWithChild (spelled ys) offset) ∨
        RedundantAt [] ys offset := by
  induction ys generalizing before offset with
  | nil => simp [not_redundantAt_nil, not_startsWithChild_nil]
  | cons x ys ih =>
    cases x with
    | blank c hc =>
      have hblank : ∀ {before' : List Piece} {later : Nat},
          RedundantAt (before' ++ [.blank c hc]) ys later ↔ RedundantAt before' ys later :=
        redundantAt_congr (iff_of_eq (congrArg (· = some Token.child) (lastToken?_append_blank _ hc)))
      simp only [redundantAt_cons_iff, startsWithChild_spelled_cons_iff, hblank, @ih before]
      simp [Piece.token?, Piece.chars]
      grind
    | token t =>
      have hlast : lastToken? (before ++ [.token t]) = lastToken? ([] ++ [.token t]) := by
        rw [lastToken?_append_token, lastToken?_append_token]
      simp only [redundantAt_cons_iff, startsWithChild_spelled_cons_iff,
        redundantAt_congr (iff_of_eq (congrArg (· = some Token.child) hlast))]
      simp [Piece.token?, lastToken?]
      grind

/-! ### The parts of two texts -/

/-- Parts of which the **first is direct**. -/
def firstDirect : List Part → List Part
  | [] => []
  | p :: ps => { p with direct := true } :: ps

/-- **Behind a combinator that waits** the first part is direct, and nothing else is different. -/
theorem partsAfter_of_pending {before pieces : List Piece} (h : lastToken? before = some .child)
    (hfirst : ∀ offset, ¬ StartsWithChild (spelled pieces) offset) :
    partsAfter before pieces = firstDirect (partsAfter [] pieces) := by
  induction pieces generalizing before with
  | nil => rfl
  | cons x pieces ih =>
    rw [partsAfter_cons, partsAfter_cons]
    cases x with
    | blank c hc =>
      have hrest : ∀ offset, ¬ StartsWithChild (spelled pieces) offset := fun offset hoffset =>
        hfirst _ (startsWithChild_spelled_cons_iff.mpr (.inr ⟨rfl, offset, hoffset, rfl⟩))
      have hbehind : partsAfter ([] ++ [.blank c hc]) pieces = partsAfter [] pieces :=
        partsAfter_congr (by rw [lastToken?_append_blank]) pieces
      rw [hbehind]
      exact ih (by rw [lastToken?_append_blank, h]) hrest
    | token t =>
      cases t with
      | child => exact absurd (startsWithChild_spelled_cons_iff.mpr (.inl ⟨rfl, rfl⟩)) (hfirst 0)
      | part p =>
        have hbehind : partsAfter (before ++ [.token (.part p)]) pieces =
            partsAfter ([] ++ [.token (.part p)]) pieces :=
          partsAfter_congr (by rw [lastToken?_append_token, lastToken?_append_token]) pieces
        rw [hbehind]
        simp [Piece.parts, h, firstDirect, PartText.toPart]

/-! ### What parsing makes of two texts -/

/-- A selector that is parsed has no redundant combinator, and the parts of its merged splitting. -/
theorem not_redundant_of_parse {s : String} {pieces : List Piece} {parts : List Part}
    (h : parse s = .ok parts) (hpieces : spelled pieces = s.toList) :
    ¬ Redundant pieces ∧ parts = partsAfter [] (merge pieces) := by
  by_cases hredundant : Redundant pieces
  · obtain ⟨place, herror⟩ := parse_of_redundant hpieces hredundant
    cases h.symm.trans herror
  · rw [parse_of_not_redundant hpieces hredundant, Except.ok.injEq] at h
    exact ⟨hredundant, h.symm⟩

/-- A selector that can be split and is not parsed has a redundant combinator. -/
theorem redundant_of_error {s : String} {pieces : List Piece} {e : ParseError}
    (h : parse s = .error e) (hpieces : spelled pieces = s.toList) : Redundant pieces := by
  by_contra hnot
  cases h.symm.trans (parse_of_not_redundant hpieces hnot)

/-- Where two selectors with blanks between them **have a redundant combinator** that is reported: where
it is reported in one of them, or at the start of the second one if one waits at the end of the
first. -/
def reportedOffsets (s₁ gap s₂ : String) : Set Nat :=
  {offset | (∃ place, parse s₁ = .error (.redundantCombinator place) ∧ place.offset = offset) ∨
    ∃ later, offset = s₁.length + gap.length + later ∧
      ((EndsPending s₁ ∧ StartsWithChild s₂.toList later) ∨
        ∃ place, parse s₂ = .error (.redundantCombinator place) ∧ place.offset = later)}

/-- Two selectors that can be split, with blanks between them, and **splittings** of them. -/
structure Splits (s₁ gap s₂ : String) (xs blanks ys : List Piece) : Prop where
  /-- The pieces of the first selector. -/
  first : spelled xs = s₁.toList
  /-- The blanks between them. -/
  gap : spelled blanks = gap.toList
  /-- These are nothing else. -/
  blank : ∀ x ∈ blanks, x.token? = none
  /-- There is a blank. -/
  ne_nil : blanks ≠ []
  /-- The pieces of the second selector. -/
  second : spelled ys = s₂.toList

namespace Splits

variable {s₁ gap s₂ : String} {xs blanks ys : List Piece} {offset : Nat}

theorem spelled_eq (h : Splits s₁ gap s₂ xs blanks ys) :
    spelled (xs ++ (blanks ++ ys)) = (s₁ ++ gap ++ s₂).toList :=
  spelled_append_gap h.first h.gap h.second

/-- **A redundant combinator of two selectors** is one of the first, one of the second, or the first
token of the second behind one that waits. -/
theorem redundantAt_iff (h : Splits s₁ gap s₂ xs blanks ys) :
    RedundantAt [] (xs ++ (blanks ++ ys)) offset ↔ RedundantAt [] xs offset ∨
      ∃ later, offset = s₁.length + gap.length + later ∧
        ((EndsPending s₁ ∧ StartsWithChild s₂.toList later) ∨ RedundantAt [] ys later) := by
  have hlast : lastToken? (xs ++ blanks) = some .child ↔ EndsPending s₁ := by
    rw [lastToken?_append, lastToken?_eq_none_iff.mpr h.blank, Option.none_or, endsPending_iff h.first]
  have hys : ∀ {later : Nat}, RedundantAt (xs ++ blanks) ys later ↔
      (EndsPending s₁ ∧ StartsWithChild s₂.toList later) ∨ RedundantAt [] ys later := by
    intro later
    rw [redundantAt_iff_of_before, hlast, h.second]
  have hlength : (spelled xs).length = s₁.length ∧ (spelled blanks).length = gap.length := by
    rw [h.first, h.gap]
    exact ⟨String.length_toList, String.length_toList⟩
  have hbehind : ∀ {later : Nat}, RedundantAt xs (blanks ++ ys) later ↔ ∃ last,
      ((EndsPending s₁ ∧ StartsWithChild s₂.toList last) ∨ RedundantAt [] ys last) ∧
        later = gap.length + last := by
    intro later
    rw [redundantAt_append_iff, or_iff_right (not_redundantAt_of_blanks h.blank)]
    simp only [hys, hlength]
  rw [redundantAt_append_iff, List.nil_append]
  simp only [hbehind, hlength]
  refine or_congr_right ⟨?_, ?_⟩
  · rintro ⟨_, ⟨last, hlast, rfl⟩, rfl⟩
    exact ⟨last, (Nat.add_assoc _ _ _).symm, hlast⟩
  · rintro ⟨last, rfl, hlast⟩
    exact ⟨gap.length + last, ⟨last, hlast, rfl⟩, Nat.add_assoc _ _ _⟩

/-- **The first redundant combinator of two selectors** is the first of those that are reported. -/
theorem isLeast_reportedOffsets (h : Splits s₁ gap s₂ xs blanks ys) {place : Place}
    (hparse : parse (s₁ ++ gap ++ s₂) = .error (.redundantCombinator place)) :
    IsLeast (reportedOffsets s₁ gap s₂) place.offset := by
  obtain ⟨hmem, hleast⟩ := (isLeast_of_parse hparse h.spelled_eq).2
  -- the first one of a selector is told with its offset
  have htold {s : String} {pieces : List Piece} {i : Nat} (hpieces : spelled pieces = s.toList)
      (hi : IsLeast {i | RedundantAt [] pieces i} i) :
      ∃ place, parse s = .error (.redundantCombinator place) ∧ place.offset = i :=
    ⟨_, parse_eq_redundant hpieces hi, offset_placeAt (hpieces ▸ hi.1.le_length)⟩
  constructor
  · rcases h.redundantAt_iff.mp hmem with hxs | ⟨later, hlater, hchild | hys⟩
    · -- none of the first selector comes before, since it would be one of both
      refine .inl (htold h.first ⟨hxs, fun i hi => ?_⟩)
      exact hleast (h.redundantAt_iff.mpr (.inl hi))
    · exact .inr ⟨later, hlater, .inl hchild⟩
    · refine .inr ⟨later, hlater, .inr (htold h.second ⟨hys, fun i hi => ?_⟩)⟩
      have hle := hleast (h.redundantAt_iff.mpr (.inr ⟨i, rfl, .inr hi⟩))
      rw [hlater] at hle
      exact Nat.le_of_add_le_add_left hle
  · rintro i (⟨first, hfirst, rfl⟩ | ⟨later, rfl, hchild | ⟨second, hsecond, rfl⟩⟩)
    · exact hleast (h.redundantAt_iff.mpr (.inl (isLeast_of_parse hfirst h.first).2.1))
    · exact hleast (h.redundantAt_iff.mpr (.inr ⟨later, rfl, .inl hchild⟩))
    · have hlater := (isLeast_of_parse hsecond h.second).2.1
      exact hleast (h.redundantAt_iff.mpr (.inr ⟨_, rfl, .inr hlater⟩))

/-- Two selectors without errors in the text itself can be split, and so can the two with blanks
between them. -/
theorem exists_of_not_isSyntax (hgap : ∀ c ∈ gap.toList, isBlank c) (hne : gap ≠ "")
    (h₁ : ∀ e, parse s₁ = .error e → ¬ e.IsSyntax) (h₂ : ∀ e, parse s₂ = .error e → ¬ e.IsSyntax) :
    ∃ xs blanks ys, Splits s₁ gap s₂ xs blanks ys := by
  obtain ⟨xs, hxs⟩ := forall_not_isSyntax_iff.mp h₁
  obtain ⟨ys, hys⟩ := forall_not_isSyntax_iff.mp h₂
  obtain ⟨blanks, hspelled, hblanks⟩ := exists_blanks hgap
  refine ⟨xs, blanks, ys, hxs, hspelled, hblanks, ?_, hys⟩
  rintro rfl
  exact hne (String.toList_eq_nil_iff.mp hspelled.symm)

/-- **Two selectors that are parsed** have a redundant combinator just where one waits at the end of
the first and another is the first token of the second. -/
theorem redundantAt_iff_of_parse (h : Splits s₁ gap s₂ xs blanks ys) {parts₁ parts₂ : List Part}
    (h₁ : parse s₁ = .ok parts₁) (h₂ : parse s₂ = .ok parts₂) :
    RedundantAt [] (xs ++ (blanks ++ ys)) offset ↔
      ∃ later, offset = s₁.length + gap.length + later ∧ EndsPending s₁ ∧
        StartsWithChild s₂.toList later := by
  have hnot : ∀ {s : String} {pieces : List Piece} {parts : List Part}, parse s = .ok parts →
      spelled pieces = s.toList → ∀ i, ¬ RedundantAt [] pieces i := by
    intro s pieces parts hparse hpieces i hi
    exact (not_redundant_of_parse hparse hpieces).1 (redundant_iff_exists_redundantAt.mpr ⟨i, hi⟩)
  rw [h.redundantAt_iff]
  simp [hnot h₁ h.first, hnot h₂ h.second]

/-- **The parts of two selectors** that are parsed, the first of which ends with a combinator that
waits for the first part of the second one. -/
theorem parse_eq_of_pending (h : Splits s₁ gap s₂ xs blanks ys) {parts₁ parts₂ : List Part}
    (h₁ : parse s₁ = .ok parts₁) (h₂ : parse s₂ = .ok parts₂) (hend : EndsPending s₁)
    (hfirst : ∀ offset, ¬ StartsWithChild s₂.toList offset) :
    parse (s₁ ++ gap ++ s₂) = .ok (parts₁ ++ firstDirect parts₂) := by
  have hnot : ¬ Redundant (xs ++ (blanks ++ ys)) := by
    rw [redundant_iff_exists_redundantAt]
    rintro ⟨offset, hoffset⟩
    obtain ⟨later, -, -, hlater⟩ := (h.redundantAt_iff_of_parse h₁ h₂).mp hoffset
    exact hfirst later hlater
  have hlast : lastToken? (merge xs) = some .child := by
    rw [lastToken?_merge_eq_child_iff]
    exact (endsPending_iff h.first).mp hend
  have hfirst' : ∀ offset, ¬ StartsWithChild (spelled (merge ys)) offset := by
    rwa [spelled_merge, h.second]
  rw [parse_of_not_redundant h.spelled_eq hnot, merge_append_blanks_append h.blank h.ne_nil,
    partsAfter_append_blanks_append h.blank, partsAfter_of_pending hlast hfirst',
    (not_redundant_of_parse h₁ h.first).2, (not_redundant_of_parse h₂ h.second).2]

/-- Where a combinator waits at the end of the first selector and another is the first token of the
second, the latter is redundant. -/
theorem parse_eq_redundant_of_pending (h : Splits s₁ gap s₂ xs blanks ys) {parts₁ parts₂ : List Part}
    (h₁ : parse s₁ = .ok parts₁) (h₂ : parse s₂ = .ok parts₂) (hend : EndsPending s₁)
    (hfirst : StartsWithChild s₂.toList offset) :
    parse (s₁ ++ gap ++ s₂) = .error (.redundantCombinator
      (placeAt (s₁ ++ gap ++ s₂).toList (s₁.length + gap.length + offset))) := by
  refine parse_eq_redundant h.spelled_eq ⟨?_, fun i hi => ?_⟩
  · exact (h.redundantAt_iff_of_parse h₁ h₂).mpr ⟨offset, rfl, hend, hfirst⟩
  · obtain ⟨later, rfl, -, hlater⟩ := (h.redundantAt_iff_of_parse h₁ h₂).mp hi
    exact Nat.le_of_eq (congrArg _ (hfirst.unique hlater))

end Splits

/-- **Two selectors with blanks between them** are parsed one after the other, if the text of the first
one is without error. An error in the text of the second one is reported as far behind. Two selectors
that are parsed have the parts of one and then those of the other; if a combinator waits at the end of
the first one, the first part of the second one is direct, or a combinator that is its first token is
redundant. Where one of the two has a redundant combinator, the first one that is redundant in either
of them or between them is reported. -/
theorem parse_concatenated (s₁ gap s₂ : String) (hgap : ∀ c ∈ gap.toList, isBlank c)
    (hne : gap ≠ "") (h₁ : ∀ e, parse s₁ = .error e → ¬ e.IsSyntax) :
    (∀ e, parse s₂ = .error e → e.IsSyntax → ∃ e', parse (s₁ ++ gap ++ s₂) = .error e' ∧
      e'.IsSyntax ∧ e'.offset = s₁.length + gap.length + e.offset) ∧
    (∀ parts₁ parts₂, parse s₁ = .ok parts₁ → parse s₂ = .ok parts₂ →
      (∀ offset, EndsPending s₁ → StartsWithChild s₂.toList offset →
        parse (s₁ ++ gap ++ s₂) = .error (.redundantCombinator
          (placeAt (s₁ ++ gap ++ s₂).toList (s₁.length + gap.length + offset)))) ∧
      (EndsPending s₁ → (∀ offset, ¬ StartsWithChild s₂.toList offset) →
        parse (s₁ ++ gap ++ s₂) = .ok (parts₁ ++ firstDirect parts₂)) ∧
      (¬ EndsPending s₁ → parse (s₁ ++ gap ++ s₂) = .ok (parts₁ ++ parts₂))) ∧
    ((∀ e, parse s₂ = .error e → ¬ e.IsSyntax) →
      ((∃ e, parse s₁ = .error e) ∨ ∃ e, parse s₂ = .error e) →
      ∃ place, parse (s₁ ++ gap ++ s₂) = .error (.redundantCombinator place) ∧
        IsLeast (reportedOffsets s₁ gap s₂) place.offset) := by
  have hgapne : gap.toList ≠ [] := fun hnil => hne (String.toList_eq_nil_iff.mp hnil)
  refine ⟨fun e he hsyntax => ?_, fun parts₁ parts₂ hok₁ hok₂ => ?_, fun h₂ herror => ?_⟩
  · obtain ⟨u, rfl⟩ := hsyntax.exists_unrecognized he
    obtain ⟨pieces, hpieces⟩ := forall_not_isSyntax_iff.mp h₁
    obtain ⟨u', hread, hoffset⟩ := parse_gap_error hpieces hgap hgapne he
    exact ⟨_, hread, trivial, hoffset⟩
  · have h₂ : ∀ e, parse s₂ = .error e → ¬ e.IsSyntax := fun e he => nomatch he.symm.trans hok₂
    obtain ⟨xs, blanks, ys, h⟩ := Splits.exists_of_not_isSyntax hgap hne h₁ h₂
    exact ⟨fun offset hend hfirst => h.parse_eq_redundant_of_pending hok₁ hok₂ hend hfirst,
      fun hend hfirst => h.parse_eq_of_pending hok₁ hok₂ hend hfirst,
      fun hend => parse_juxtaposed hok₁ hok₂ hend hgap hgapne⟩
  · obtain ⟨xs, blanks, ys, h⟩ := Splits.exists_of_not_isSyntax hgap hne h₁ h₂
    have hredundant : Redundant (xs ++ (blanks ++ ys)) := by
      rcases herror with ⟨e, he⟩ | ⟨e, he⟩
      · exact redundant_append_iff.mpr (.inl (redundant_of_error he h.first))
      · have hys := redundant_of_error he h.second
        exact redundant_append_iff.mpr (.inr (.inr (redundant_append_iff.mpr (.inr (.inr hys)))))
    obtain ⟨place, hplace⟩ := parse_of_redundant h.spelled_eq hredundant
    exact ⟨place, hplace, h.isLeast_reportedOffsets hplace⟩

/-- A letter as a name. -/
def letter (c : Char) (hc : isWordChar c) : Piece :=
  .token (.part ⟨.name, [c], none, List.cons_ne_nil _ _, List.forall_mem_singleton.mpr hc⟩)

/-- Behind `a >` the part of `b` is direct, the combinator of `> b` is redundant, and the error of `[`
is met four characters later. -/
theorem parse_concatenated_waiting :
    (∀ c ∈ " ".toList, isBlank c) ∧ " " ≠ "" ∧ (∀ e, parse "a >" = .error e → ¬ e.IsSyntax) ∧
    parse ("a >" ++ " " ++ "b") =
      .ok [⟨.name, "a", false, none, "a"⟩, ⟨.name, "b", true, none, "b"⟩] ∧
    parse ("a >" ++ " " ++ "> b") = .error (.redundantCombinator ⟨4, 1, 0⟩) ∧
    (∃ e, parse ("a >" ++ " " ++ "[") = .error e ∧ e.IsSyntax ∧ e.offset = 4) := by
  have hgap : ∀ c ∈ " ".toList, isBlank c := List.all_eq_true.mp (by decide)
  have hspelled : spelled [letter 'a' (by decide), .blank ' ' (by decide), .token .child] =
      "a >".toList := rfl
  have ha := (parse_of_spelled hspelled).trans rfl
  have h₁ : ∀ e, parse "a >" = .error e → ¬ e.IsSyntax := by
    intro e he
    cases ha.symm.trans he
  have hend : EndsPending "a >" := (endsPending_iff hspelled).mpr rfl
  refine ⟨hgap, by decide, h₁, ?_, ?_, ?_⟩
  · have hspelled_b : spelled [letter 'b' (by decide)] = "b".toList := rfl
    have hb := (parse_of_spelled hspelled_b).trans rfl
    refine ((parse_concatenated "a >" " " "b" hgap (by decide) h₁).2.1 _ _ ha hb).2.1 hend ?_
    rintro offset ⟨gap, after, hb, -⟩
    have hmem : '>' ∈ "b".toList := by rw [hb]; simp
    exact absurd hmem (by decide)
  · have hspelled_b : spelled [.token .child, .blank ' ' (by decide), letter 'b' (by decide)] =
        "> b".toList := rfl
    have hb := (parse_of_spelled hspelled_b).trans rfl
    exact ((parse_concatenated "a >" " " "> b" hgap (by decide) h₁).2.1 _ _ ha hb).1 0 hend
      ⟨[], [' ', 'b'], by decide, List.forall_mem_nil _, rfl⟩
  · have hopen : parse "[" = .error (.unrecognized ⟨{}, none⟩) := by
      rw [parse, parseChars, tokens, tokensFrom]
      rfl
    exact (parse_concatenated "a >" " " "[" hgap (by decide) h₁).1 _ hopen trivial

end RecordQuery
