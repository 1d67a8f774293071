import RecordQuery.Proofs.Selector.Splitting

/-! # What parsing makes of a selector

Reading the longest token at each place never goes wrong: a text that can be split in any way is
read as its maximal splitting, and a text that cannot be split is refused. The tokens that were read
then become parts, unless two combinators have no part between them.

* `lexemesAt`: the tokens of a splitting with their places.
* `partsAfter`: the parts that a splitting lists, each direct if a combinator stands before it.
* `tokensFrom_spelled`: a maximal splitting is read token by token.
* `assemble_lexemesAt`: what the tokens of a splitting are assembled to.
* `parse_splits`: what `parse` says about every text. -/

namespace RecordQuery

/-- The **tokens** of a splitting that starts at a place, each with its place. -/
def lexemesAt : Place → List Piece → List Lexeme
  | _, [] => []
  | place, .token t :: rest => ⟨t, place⟩ :: lexemesAt (place.past t.chars) rest
  | place, .blank c _ :: rest => lexemesAt (place.past [c]) rest

/-- The **last token** of some pieces. -/
def lastToken? (pieces : List Piece) : Option Token := (pieces.filterMap Piece.token?).getLast?

/-- The **parts** of a splitting, `before` standing before it: every part in order, direct exactly
if the last token before it is a combinator. -/
def partsAfter (before : List Piece) : List Piece → List Part
  | [] => []
  | .token (.part p) :: rest =>
    p.toPart (lastToken? before = some .child) :: partsAfter (before ++ [.token (.part p)]) rest
  | x :: rest => partsAfter (before ++ [x]) rest

theorem lastToken?_append_token (before : List Piece) (t : Token) :
    lastToken? (before ++ [.token t]) = some t := by
  rw [lastToken?, List.filterMap_append]
  exact List.getLast?_concat

theorem lastToken?_append_blank (before : List Piece) {c : Char} (hc : isBlank c) :
    lastToken? (before ++ [.blank c hc]) = lastToken? before := by
  rw [lastToken?, List.filterMap_append]
  exact congrArg List.getLast? (List.append_nil _)

/-- Behind a blank a combinator is pending if one was pending before it. -/
theorem pending_append_blank {pending : Bool} {before : List Piece} {c : Char} (hc : isBlank c)
    (h : pending = decide (lastToken? before = some .child)) :
    pending = decide (lastToken? (before ++ [.blank c hc]) = some .child) := by
  rw [lastToken?_append_blank, h]

/-- Behind a token a combinator is pending if this token is one. -/
theorem pending_append_token (before : List Piece) (t : Token) :
    decide (t = .child) = decide (lastToken? (before ++ [.token t]) = some .child) := by
  rw [lastToken?_append_token, decide_eq_decide, Option.some_inj]

/-! ### Reading the tokens -/

/-- Cons reading of `tokensFrom`: a blank is read over, and a token is put before the tokens behind
it. -/
theorem tokensFrom_eq (place : Place) (previous : Option Token) (cs : List Char) :
    tokensFrom place previous cs =
      match scanToken cs with
      | none => if cs.isEmpty then .ok [] else .error ⟨place, previous⟩
      | some (none, rest) => tokensFrom (place.past (cs.take 1)) previous rest
      | some (some t, rest) =>
        (tokensFrom (place.past t.chars) (some t) rest).map (⟨t, place⟩ :: ·) := by
  rw [tokensFrom.eq_def]
  split
  · rename_i hscan
    rw [hscan]
  · rename_i hscan
    rw [hscan]
  · rename_i t rest hscan
    rw [hscan]
    show _ = (tokensFrom (place.past t.chars) (some t) rest).map (⟨t, place⟩ :: ·)
    cases tokensFrom (place.past t.chars) (some t) rest <;> rfl

/-- **A maximal splitting is read token by token**, from every place and behind every token. -/
theorem tokensFrom_spelled {pieces : List Piece} (h : Maximal pieces) (place : Place)
    (previous : Option Token) :
    tokensFrom place previous (spelled pieces) = .ok (lexemesAt place pieces) := by
  induction pieces generalizing place previous with
  | nil =>
    rw [tokensFrom_eq]
    rfl
  | cons x rest ih =>
    rw [tokensFrom_eq, scanToken_spelled h]
    cases x with
    | blank c hc =>
      show tokensFrom (place.past [c]) previous (spelled rest) = _
      rw [ih h.tail]
      rfl
    | token t =>
      show (tokensFrom (place.past t.chars) (some t) (spelled rest)).map _ = _
      rw [ih h.tail]
      rfl

/-- A token that was read is a piece of the text. -/
theorem exists_piece_of_scanToken {cs rest : List Char} {t : Option Token}
    (h : scanToken cs = some (t, rest)) : ∃ x : Piece, x.token? = t ∧ cs = x.chars ++ rest := by
  unfold scanToken at h
  split at h
  · rename_i p rest' hp
    cases h
    exact ⟨.token (.part p), rfl, scanPart_append hp⟩
  · split at h
    · cases h
      exact ⟨.token .child, rfl, rfl⟩
    · split at h
      · rename_i hc
        cases h
        exact ⟨.blank _ hc, rfl, rfl⟩
      · cases h
    · cases h

/-- **A text whose tokens are read can be split.** -/
theorem exists_spelled_of_tokensFrom {place : Place} {previous : Option Token} {cs : List Char}
    {lexemes : List Lexeme} (h : tokensFrom place previous cs = .ok lexemes) :
    ∃ pieces, spelled pieces = cs := by
  fun_induction tokensFrom place previous cs generalizing lexemes with
  | case1 place previous cs hscan hempty =>
    exact ⟨[], (List.isEmpty_iff.mp hempty).symm⟩
  | case2 => cases h
  | case3 place previous cs rest hscan ih =>
    obtain ⟨pieces, rfl⟩ := ih h
    obtain ⟨x, -, rfl⟩ := exists_piece_of_scanToken hscan
    exact ⟨x :: pieces, spelled_cons x pieces⟩
  | case4 place previous cs token rest hscan lexemes' hrest ih =>
    obtain ⟨pieces, rfl⟩ := ih hrest
    obtain ⟨x, -, rfl⟩ := exists_piece_of_scanToken hscan
    exact ⟨x :: pieces, spelled_cons x pieces⟩
  | case5 => cases h

/-! ### Assembling the parts -/

/-- Combinators **clash** when two of the pieces, or one and a pending one before the pieces, have
only blanks between them. -/
def Clash (pending : Bool) (pieces : List Piece) : Prop :=
  (pending ∧ ChildNext pieces) ∨ Redundant pieces

theorem clash_child_iff {pending : Bool} {rest : List Piece} :
    Clash pending (.token .child :: rest) ↔ pending ∨ Clash true rest := by
  rw [Clash, Clash, childNext_cons_iff, redundant_cons_iff]
  simp

theorem clash_part_iff {pending : Bool} {p : PartText} {rest : List Piece} :
    Clash pending (.token (.part p) :: rest) ↔ Clash false rest := by
  rw [Clash, Clash, childNext_cons_iff, redundant_cons_iff]
  simp [Piece.token?]

theorem clash_blank_iff {pending : Bool} {c : Char} {hc : isBlank c} {rest : List Piece} :
    Clash pending (.blank c hc :: rest) ↔ Clash pending rest := by
  rw [Clash, Clash, childNext_cons_iff, redundant_cons_iff]
  simp [Piece.token?]

/-- The text of a part is always accepted, so only the tokens behind it can be refused. -/
theorem assemble_part (pending : Bool) (p : PartText) (place : Place) (rest : List Lexeme) :
    assemble pending (⟨.part p, place⟩ :: rest) =
      (assemble false rest).map (p.toPart pending :: ·) := by
  rw [assemble, buildPart_chars]
  cases assemble false rest with
  | ok parts => rfl
  | error e => rfl

/-- **Combinators that clash are refused**, and nothing else is said about them. -/
theorem assemble_of_clash {pending : Bool} {pieces : List Piece} (h : Clash pending pieces)
    (start : Place) :
    ∃ place, assemble pending (lexemesAt start pieces) = .error (.redundantCombinator place) := by
  induction pieces generalizing pending start with
  | nil =>
    rcases h with ⟨-, _, _, h, -⟩ | ⟨_, _, h, -⟩
    · exact absurd h.symm (by simp)
    · exact absurd h.symm (by simp)
  | cons x rest ih =>
    cases x with
    | blank c hc => exact ih (clash_blank_iff.mp h) _
    | token t =>
      rw [lexemesAt]
      cases t with
      | child =>
        rw [assemble]
        by_cases hpending : pending
        · -- the combinator that is pending clashes with this one
          rw [if_pos hpending]
          exact ⟨start, rfl⟩
        · rw [if_neg hpending]
          exact ih ((clash_child_iff.mp h).resolve_left hpending) _
      | part p =>
        obtain ⟨place, hplace⟩ := ih (clash_part_iff.mp h) (start.past (Token.part p).chars)
        rw [assemble_part, hplace]
        exact ⟨place, rfl⟩

/-- **Where no combinators clash, the parts are listed**: a combinator is pending exactly if it is
the last token before the pieces. -/
theorem assemble_of_not_clash {pending : Bool} {pieces : List Piece} (h : ¬ Clash pending pieces)
    (start : Place) {before : List Piece}
    (hpending : pending = decide (lastToken? before = some .child)) :
    assemble pending (lexemesAt start pieces) = .ok (partsAfter before pieces) := by
  induction pieces generalizing pending start before with
  | nil => rfl
  | cons x rest ih =>
    cases x with
    | blank c hc =>
      exact ih (fun hclash => h (clash_blank_iff.mpr hclash)) _ (pending_append_blank hc hpending)
    | token t =>
      rw [lexemesAt]
      cases t with
      | child =>
        obtain ⟨hnot, hrest⟩ := not_or.mp (fun hclash => h (clash_child_iff.mpr hclash))
        rw [assemble, if_neg hnot]
        exact ih hrest _ (pending_append_token before .child)
      | part p =>
        -- behind a part no combinator is pending, whatever stood before the part
        have hnone := pending_append_token before (.part p)
        rw [assemble_part, ih (fun hclash => h (clash_part_iff.mpr hclash)) _ hnone, partsAfter,
          ← hpending]
        rfl

/-! ### What parsing says -/

/-- A text that cannot be split has a place where no token fits. -/
theorem parse_of_not_spelled {s : String} (h : ¬ ∃ pieces, spelled pieces = s.toList) :
    ∃ u, parse s = .error (.unrecognized u) := by
  cases htokens : tokens s.toList with
  | ok lexemes => exact absurd (exists_spelled_of_tokensFrom htokens) h
  | error u =>
    refine ⟨u, ?_⟩
    rw [parse, parseChars, htokens]

/-- **However a text is split**, its tokens are those of the splitting with its parts merged. -/
theorem parse_of_spelled {s : String} {pieces : List Piece} (h : spelled pieces = s.toList) :
    parse s = assemble false (lexemesAt {} (merge pieces)) := by
  have htokens : tokens s.toList = .ok (lexemesAt {} (merge pieces)) := by
    rw [← h, ← spelled_merge]
    exact tokensFrom_spelled (maximal_merge pieces) {} none
  rw [parse, parseChars, htokens]

/-- Nothing is pending before a selector, so only two of its combinators can clash. -/
theorem clash_false_merge_iff {pieces : List Piece} :
    Clash false (merge pieces) ↔ Redundant pieces := by
  rw [← redundant_merge_iff pieces, Clash]
  simp

theorem parse_of_redundant {s : String} {pieces : List Piece} (h : spelled pieces = s.toList)
    (hredundant : Redundant pieces) : ∃ place, parse s = .error (.redundantCombinator place) := by
  rw [parse_of_spelled h]
  exact assemble_of_clash (clash_false_merge_iff.mpr hredundant) {}

theorem parse_of_not_redundant {s : String} {pieces : List Piece} (h : spelled pieces = s.toList)
    (hredundant : ¬ Redundant pieces) : parse s = .ok (partsAfter [] (merge pieces)) := by
  rw [parse_of_spelled h]
  refine assemble_of_not_clash (fun hclash => hredundant (clash_false_merge_iff.mp hclash)) {} ?_
  simp [lastToken?]

/-- **Three things can happen** to a text: it cannot be split, it is split redundantly, or it is
parsed. -/
theorem parse_cases (s : String) :
    ((¬ ∃ pieces, spelled pieces = s.toList) ∧ ∃ place, parse s = .error (.unrecognized place)) ∨
    (∃ pieces, spelled pieces = s.toList ∧ Redundant pieces ∧
      ∃ place, parse s = .error (.redundantCombinator place)) ∨
    ∃ pieces, spelled pieces = s.toList ∧ ¬ Redundant pieces ∧
      parse s = .ok (partsAfter [] (merge pieces)) := by
  by_cases hsplit : ∃ pieces, spelled pieces = s.toList
  · obtain ⟨pieces, h⟩ := hsplit
    by_cases hredundant : Redundant pieces
    · exact .inr (.inl ⟨pieces, h, hredundant, parse_of_redundant h hredundant⟩)
    · exact .inr (.inr ⟨pieces, h, hredundant, parse_of_not_redundant h hredundant⟩)
  · exact .inl ⟨hsplit, parse_of_not_spelled hsplit⟩

/-- **What parsing says about a text** depends only on how it can be split. The texts that cannot be
split are those with a place where no token fits. The texts with a redundant combinator are those
that can be split with only blanks between two combinators. The text of a part is never malformed.
Every other text is parsed, however it can be split, to the parts of its one maximal splitting. -/
theorem parse_splits (s : String) :
    ((∃ place, parse s = .error (.unrecognized place)) ↔ ¬ ∃ pieces, spelled pieces = s.toList) ∧
    ((∃ place, parse s = .error (.redundantCombinator place)) ↔
      ∃ pieces, spelled pieces = s.toList ∧ Redundant pieces) ∧
    (∀ text, parse s ≠ .error (.malformed text)) ∧
    ∀ pieces, spelled pieces = s.toList → ¬ Redundant pieces →
      ∃ longest, spelled longest = s.toList ∧ Maximal longest ∧
        (∀ other, spelled other = s.toList → Maximal other → other = longest) ∧
        parse s = .ok (partsAfter [] longest) := by
  refine ⟨⟨?_, parse_of_not_spelled⟩, ⟨?_, ?_⟩, ?_, ?_⟩
  · rintro ⟨place, hplace⟩
    rcases parse_cases s with ⟨hsplit, -⟩ | ⟨_, -, -, _, h⟩ | ⟨_, -, -, h⟩
    · exact hsplit
    · exact nomatch hplace.symm.trans h
    · exact nomatch hplace.symm.trans h
  · rintro ⟨place, hplace⟩
    rcases parse_cases s with ⟨-, _, h⟩ | ⟨pieces, hpieces, hredundant, -⟩ | ⟨_, -, -, h⟩
    · exact nomatch hplace.symm.trans h
    · exact ⟨pieces, hpieces, hredundant⟩
    · exact nomatch hplace.symm.trans h
  · rintro ⟨pieces, h, hredundant⟩
    exact parse_of_redundant h hredundant
  · intro text htext
    rcases parse_cases s with ⟨-, _, h⟩ | ⟨_, -, -, _, h⟩ | ⟨_, -, -, h⟩
    · exact nomatch htext.symm.trans h
    · exact nomatch htext.symm.trans h
    · exact nomatch htext.symm.trans h
  · intro pieces h hredundant
    -- the text is the same, so a maximal splitting of it can only be the merged one
    refine ⟨merge pieces, (spelled_merge pieces).trans h, maximal_merge pieces, ?_,
      parse_of_not_redundant h hredundant⟩
    intro other hother hmaximal
    refine hmaximal.eq_of_spelled_eq (maximal_merge pieces) ?_
    rw [hother, spelled_merge, h]

end RecordQuery
