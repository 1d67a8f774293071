import Mathlib.Order.Bounds.Basic
import RecordQuery.Proofs.Selector.Juxtaposition
import RecordQuery.Proofs.Selector.Lines

/-! # Places of errors

An error in a selector tells its place. Where no token fits, this is as far as the selector can be
split: a token that is given up half-way is given up at its start, so a longer prefix is refused at
the same place. A redundant combinator is told at the first place where there is one.

* `scanToken_of_prefix`: a token is read from every prefix that it does not reach beyond.
* `exists_stop_of_tokensFrom`: where reading stops, it stops however much text is left.
* `ParseError.IsSyntax`: errors in the text itself.
* `RedundantAt`: the offsets of redundant combinators.
* `isLeast_of_assemble`: the first of them is reported.
* `parse_error_places`: the offset, the line and the column of every error. -/

namespace RecordQuery

/-! ### Reading a prefix -/

/-- **A token is read from every prefix** of the text that it does not reach beyond. -/
theorem scanToken_of_prefix {x : Piece} {rest rest' : List Char}
    (h : scanToken (x.chars ++ rest) = some (x.token?, rest)) (hstarts : rest' <+: rest) :
    scanToken (x.chars ++ rest') = some (x.token?, rest') := by
  cases x with
  | blank c hc => exact scanToken_blank hc rest'
  | token t =>
    cases t with
    | child => exact scanToken_child rest'
    | part p =>
      refine scanToken_part_iff.mpr (scanPart_append_iff_longest.mpr fun q hq => ?_)
      -- what fits in the prefix fits in the whole text, where the part is the longest
      have hlongest := scanPart_append_iff_longest.mp (scanToken_part_iff.mp h)
      exact hlongest q (hq.trans ((List.prefix_append_right_inj _).mpr hstarts))

/-- Where no token fits, none fits in a prefix. -/
theorem scanToken_eq_none_of_prefix {cs cs' : List Char} (h : scanToken cs = none)
    (hstarts : cs' <+: cs) : scanToken cs' = none := by
  cases hscan : scanToken cs' with
  | none => rfl
  | some result =>
    obtain ⟨t, rest⟩ := result
    obtain ⟨x, -, rfl⟩ := exists_piece_of_scanToken hscan
    obtain ⟨more, rfl⟩ := hstarts
    rw [List.append_assoc] at h
    cases x with
    | blank c hc =>
      have hread := scanToken_blank hc (rest ++ more)
      cases hread.symm.trans h
    | token t =>
      cases t with
      | child =>
        have hread := scanToken_child (rest ++ more)
        cases hread.symm.trans h
      | part p =>
        obtain ⟨q, rest', hq, -⟩ := scanPart_longest (List.prefix_append p.chars (rest ++ more))
        cases (scanToken_part_iff.mpr hq).symm.trans h

/-- **Where reading stops**: behind the pieces that were read there is text left at which no token fits,
and however much of it is left, reading stops at the same place. -/
theorem exists_stop_of_tokensFrom {start : Place} {previous : Option Token} {cs : List Char}
    {u : Unrecognized} (h : tokensFrom start previous cs = .error u) :
    ∃ pieces rest, cs = spelled pieces ++ rest ∧ rest ≠ [] ∧
      u.place = start.past (spelled pieces) ∧
      ∀ rest', rest' <+: rest → rest' ≠ [] →
        tokensFrom start previous (spelled pieces ++ rest') = .error u := by
  fun_induction tokensFrom start previous cs generalizing u with
  | case1 => cases h
  | case2 start previous cs hscan hne =>
    cases h
    refine ⟨[], cs, rfl, fun hnil => hne (List.isEmpty_iff.mpr hnil), rfl, fun rest' hrest' hne' => ?_⟩
    rw [spelled_nil, List.nil_append, tokensFrom_eq, scanToken_eq_none_of_prefix hscan hrest']
    simp [hne']
  | case3 start previous cs rest hscan ih =>
    obtain ⟨pieces, rest, rfl, hne, hplace, hstop⟩ := ih h
    obtain ⟨x, hx, rfl⟩ := exists_piece_of_scanToken hscan
    have htake : ∀ ds, (x.chars ++ ds).take 1 = x.chars := by cases x <;> cases hx; exact fun _ => rfl
    rw [htake] at hplace hstop
    refine ⟨x :: pieces, rest, by simp, hne, ?_, fun rest' hrest' hne' => ?_⟩
    · rw [hplace, spelled_cons, Place.past_append]
    · have hread := scanToken_of_prefix (x := x) (by rw [hx]; exact hscan)
        ((List.prefix_append_right_inj (spelled pieces)).mpr hrest')
      rw [spelled_cons, List.append_assoc, tokensFrom_eq, hread, hx]
      show tokensFrom (start.past ((x.chars ++ _).take 1)) previous _ = _
      rw [htake]
      exact hstop rest' hrest' hne'
  | case4 => cases h
  | case5 start previous cs token rest hscan u' hread ih =>
    cases h
    obtain ⟨pieces, rest, rfl, hne, hplace, hstop⟩ := ih hread
    obtain ⟨x, hx, rfl⟩ := exists_piece_of_scanToken hscan
    have hchars : x.chars = token.chars := by cases x <;> cases hx; rfl
    refine ⟨x :: pieces, rest, by simp, hne, ?_, fun rest' hrest' hne' => ?_⟩
    · rw [hplace, spelled_cons, Place.past_append, hchars]
    · have hread := scanToken_of_prefix (x := x) (by rw [hx]; exact hscan)
        ((List.prefix_append_right_inj (spelled pieces)).mpr hrest')
      rw [spelled_cons, List.append_assoc, tokensFrom_eq, hread, hx]
      show (tokensFrom (start.past token.chars) (some token) _).map _ = _
      rw [hstop rest' hrest' hne']
      rfl

/-! ### The longest prefix that can be split -/

/-- An error is one **in the text itself**: not all of it is parts, combinators and blanks. -/
def ParseError.IsSyntax : ParseError → Prop
  | .unrecognized _ | .malformed _ => True
  | .redundantCombinator _ => False

theorem parse_eq_unrecognized_iff {s : String} {u : Unrecognized} :
    parse s = .error (.unrecognized u) ↔ tokens s.toList = .error u := by
  constructor
  · intro h
    cases htokens : tokens s.toList with
    | ok lexemes =>
      obtain ⟨pieces, hpieces⟩ := exists_spelled_of_tokensFrom htokens
      rcases parse_cases s with ⟨hsplit, -⟩ | ⟨_, -, -, _, herror⟩ | ⟨_, -, -, hparts⟩
      · exact absurd ⟨pieces, hpieces⟩ hsplit
      · cases h.symm.trans herror
      · cases h.symm.trans hparts
    | error u' =>
      rw [parse, parseChars, htokens] at h
      cases h
      rfl
  · intro h
    rw [parse, parseChars, h]

/-- The errors in the text itself are places where no token fits. -/
theorem ParseError.IsSyntax.exists_unrecognized {s : String} {e : ParseError} (he : e.IsSyntax)
    (h : parse s = .error e) : ∃ u, e = .unrecognized u := by
  rcases parse_cases s with ⟨-, u, herror⟩ | ⟨_, -, -, _, herror⟩ | ⟨_, -, -, hparts⟩
  · cases h.symm.trans herror
    exact ⟨u, rfl⟩
  · cases h.symm.trans herror
    exact he.elim
  · cases h.symm.trans hparts

/-- **No error is in the text itself** just if the text can be split. -/
theorem forall_not_isSyntax_iff {s : String} :
    (∀ e, parse s = .error e → ¬ e.IsSyntax) ↔ ∃ pieces, spelled pieces = s.toList := by
  constructor
  · intro h
    by_contra hsplit
    obtain ⟨place, hplace⟩ := parse_of_not_spelled hsplit
    exact h _ hplace trivial
  · rintro ⟨pieces, hpieces⟩ e he hsyntax
    obtain ⟨place, rfl⟩ := hsyntax.exists_unrecognized he
    rw [parse_eq_unrecognized_iff, ← hpieces, ← spelled_merge, tokens,
      tokensFrom_spelled (maximal_merge pieces)] at he
    cases he

/-- **What is read before an error** can be split, and every longer part of the text is refused at the
same place. -/
theorem exists_stop_of_parse {s : String} {u : Unrecognized} (h : parse s = .error (.unrecognized u)) :
    ∃ pieces, spelled pieces = s.toList.take u.place.offset ∧ u.place.offset < s.toList.length ∧
      u.place = placeAt s.toList u.place.offset ∧
      ∀ n, u.place.offset < n →
        parse (String.ofList (s.toList.take n)) = .error (.unrecognized u) := by
  obtain ⟨pieces, rest, hsplit, hne, hplace, hstop⟩ :=
    exists_stop_of_tokensFrom (parse_eq_unrecognized_iff.mp h)
  have hoffset : u.place.offset = (spelled pieces).length := by
    rw [hplace, Place.offset_past, Nat.zero_add]
  have hlength := List.length_pos_iff.mpr hne
  refine ⟨pieces, ?_, ?_, ?_, fun n hn => ?_⟩
  · rw [hsplit, hoffset, List.take_left]
  · rw [hsplit, List.length_append, hoffset]
    omega
  · rw [hoffset, hsplit, placeAt_append, hplace]
  · obtain ⟨k, rfl⟩ := Nat.exists_eq_add_of_le (Nat.le_of_lt hn)
    rw [parse_eq_unrecognized_iff, String.toList_ofList, hsplit, hoffset, List.take_length_add_append]
    refine hstop _ (List.take_prefix k rest) ?_
    rw [Ne, List.take_eq_nil_iff]
    rintro (rfl | hnil)
    · omega
    · exact hne hnil

/-! ### Redundant combinators and their places -/

/-- Behind some pieces, a splitting has a **redundant combinator at an offset**: the last token before
this combinator is one, too. -/
def RedundantAt (before pieces : List Piece) (offset : Nat) : Prop :=
  ∃ between after, pieces = between ++ .token .child :: after ∧
    lastToken? (before ++ between) = some .child ∧ (spelled between).length = offset

theorem not_redundantAt_nil {before : List Piece} {offset : Nat} : ¬ RedundantAt before [] offset := by
  rintro ⟨between, after, h, -⟩
  exact absurd h.symm (List.append_ne_nil_of_right_ne_nil _ (List.cons_ne_nil _ _))

/-- Cons reading of `RedundantAt`: the first piece is a combinator behind another one, or there is a
redundant combinator behind the first piece. -/
theorem redundantAt_cons_iff {before : List Piece} {x : Piece} {rest : List Piece} {offset : Nat} :
    RedundantAt before (x :: rest) offset ↔
      (x = .token .child ∧ lastToken? before = some .child ∧ offset = 0) ∨
        ∃ later, RedundantAt (before ++ [x]) rest later ∧ offset = x.chars.length + later := by
  constructor
  · rintro ⟨between, after, h, hlast, rfl⟩
    cases between with
    | nil =>
      obtain ⟨rfl, rfl⟩ := List.cons.inj h
      rw [List.append_nil] at hlast
      exact .inl ⟨rfl, hlast, rfl⟩
    | cons y between =>
      obtain ⟨rfl, rfl⟩ := List.cons.inj h
      refine .inr ⟨_, ⟨between, after, rfl, ?_, rfl⟩, ?_⟩
      · rwa [List.append_assoc]
      · rw [spelled_cons, List.length_append]
  · rintro (⟨rfl, hlast, rfl⟩ | ⟨later, ⟨between, after, rfl, hlast, rfl⟩, rfl⟩)
    · exact ⟨[], rest, rfl, by rwa [List.append_nil], rfl⟩
    · refine ⟨x :: between, after, rfl, ?_, ?_⟩
      · rwa [List.append_assoc] at hlast
      · rw [spelled_cons, List.length_append]

/-- What stands before matters only by its last token. -/
theorem redundantAt_congr {before before' : List Piece}
    (h : lastToken? before = some .child ↔ lastToken? before' = some .child) {pieces : List Piece}
    {offset : Nat} : RedundantAt before pieces offset ↔ RedundantAt before' pieces offset := by
  induction pieces generalizing before before' offset with
  | nil => exact iff_of_false not_redundantAt_nil not_redundantAt_nil
  | cons x rest ih =>
    simp only [redundantAt_cons_iff, h, ih (lastToken?_append_congr h x)]

/-- Joining two parts moves no combinator. -/
theorem redundantAt_attach_iff {before : List Piece} (x : Piece) (rest : List Piece) {offset : Nat} :
    RedundantAt before (attach x rest) offset ↔ RedundantAt before (x :: rest) offset := by
  rcases attach_cases x rest with ⟨p, q, rest, rfl, rfl, hp, hq, h⟩ | ⟨h, -⟩
  · have hlast : lastToken? (before ++ [.token (.part (p.join q))]) = some .child ↔
        lastToken? (before ++ [.token (.part p)] ++ [.token (.part q)]) = some .child := by
      rw [lastToken?_append_token, lastToken?_append_token]
      simp
    have hlength : (p.join q).chars.length = p.chars.length + q.chars.length := by
      rw [PartText.join_chars hp hq, List.length_append]
    rw [h, redundantAt_cons_iff, redundantAt_cons_iff]
    simp only [redundantAt_cons_iff, redundantAt_congr hlast, Piece.chars, Token.chars, hlength]
    simp [Nat.add_assoc]
  · rw [h]

theorem redundantAt_merge_iff {before pieces : List Piece} {offset : Nat} :
    RedundantAt before (merge pieces) offset ↔ RedundantAt before pieces offset := by
  induction pieces generalizing before offset with
  | nil => rfl
  | cons x pieces ih =>
    rw [merge_cons, redundantAt_attach_iff, redundantAt_cons_iff, redundantAt_cons_iff]
    simp only [ih]

/-- Combinators clash when one of them is redundant at some offset. -/
theorem clash_iff_exists_redundantAt {pending : Bool} {before pieces : List Piece}
    (hpending : pending = decide (lastToken? before = some .child)) :
    Clash pending pieces ↔ ∃ offset, RedundantAt before pieces offset := by
  have hcons : ∀ {before : List Piece} {x : Piece} {rest : List Piece},
      (∃ offset, RedundantAt before (x :: rest) offset) ↔
        (x = .token .child ∧ lastToken? before = some .child) ∨
          ∃ offset, RedundantAt (before ++ [x]) rest offset := by
    intro before x rest
    simp only [redundantAt_cons_iff]
    grind
  induction pieces generalizing pending before with
  | nil => simp [Clash, childNext_nil, not_redundant_nil, not_redundantAt_nil]
  | cons x rest ih =>
    rw [hcons]
    cases x with
    | blank c hc =>
      have hrest := ih (pending_append_blank hc hpending)
      exact clash_blank_iff.trans (hrest.trans (by simp))
    | token t =>
      have hrest := ih (pending_append_token before t)
      cases t with
      | child =>
        refine clash_child_iff.trans (or_congr ?_ hrest)
        simp [hpending]
      | part p => exact clash_part_iff.trans (hrest.trans (by simp))

/-- Behind a piece that is not redundant itself, the first redundant combinator is the first one of the
pieces behind it. -/
theorem isLeast_redundantAt_cons {before : List Piece} {x : Piece} {rest : List Piece} {first : Nat}
    (hx : ¬ (x = .token .child ∧ lastToken? before = some .child))
    (h : IsLeast {i | RedundantAt (before ++ [x]) rest i} first) :
    IsLeast {i | RedundantAt before (x :: rest) i} (x.chars.length + first) := by
  refine ⟨redundantAt_cons_iff.mpr (.inr ⟨first, h.1, rfl⟩), fun offset hoffset => ?_⟩
  rcases redundantAt_cons_iff.mp hoffset with ⟨hchild, hlast, -⟩ | ⟨later, hlater, rfl⟩
  · exact absurd ⟨hchild, hlast⟩ hx
  · exact Nat.add_le_add_left (h.2 hlater) _

/-- A redundant combinator stands in the text of its splitting. -/
theorem RedundantAt.le_length {before pieces : List Piece} {offset : Nat}
    (h : RedundantAt before pieces offset) : offset ≤ (spelled pieces).length := by
  obtain ⟨between, after, rfl, -, rfl⟩ := h
  rw [spelled_append, List.length_append]
  exact Nat.le_add_right _ _

/-- **The first redundant combinator is reported**, with the place that was counted up to it. -/
theorem isLeast_of_assemble {pending : Bool} {before pieces : List Piece}
    (hpending : pending = decide (lastToken? before = some .child)) {start place : Place}
    (h : assemble pending (lexemesAt start pieces) = .error (.redundantCombinator place)) :
    ∃ first, place = start.past ((spelled pieces).take first) ∧
      IsLeast {i | RedundantAt before pieces i} first := by
  induction pieces generalizing pending before start with
  | nil => cases h
  | cons x rest ih =>
    -- what is reported behind the first piece is counted on from there
    have hbehind {pending' : Bool} (hx : ¬ (x = .token .child ∧ lastToken? before = some .child))
        (hlast : pending' = decide (lastToken? (before ++ [x]) = some .child))
        (hrest : assemble pending' (lexemesAt (start.past x.chars) rest) =
          .error (.redundantCombinator place)) :
        ∃ first, place = start.past ((spelled (x :: rest)).take first) ∧
          IsLeast {i | RedundantAt before (x :: rest) i} first := by
      obtain ⟨first, rfl, hfirst⟩ := ih hlast hrest
      exact ⟨_, (start.past_take_spelled_cons x rest first).symm, isLeast_redundantAt_cons hx hfirst⟩
    cases x with
    | blank c hc =>
      exact hbehind (by simp) (pending_append_blank hc hpending) h
    | token t =>
      rw [lexemesAt] at h
      have hlast := pending_append_token before t
      cases t with
      | child =>
        rw [assemble] at h
        by_cases hbefore : lastToken? before = some .child
        · -- this combinator is the second of two already
          rw [hpending, decide_eq_true hbefore, if_pos rfl] at h
          cases h
          refine ⟨0, rfl, redundantAt_cons_iff.mpr (.inl ⟨rfl, hbefore, rfl⟩), fun _ _ => ?_⟩
          exact Nat.zero_le _
        · rw [hpending, decide_eq_false hbefore, if_neg Bool.false_ne_true] at h
          exact hbehind (by simp [hbefore]) hlast h
      | part p =>
        rw [assemble_part] at h
        cases hrest : assemble false (lexemesAt (start.past (Token.part p).chars) rest) with
        | ok parts =>
          rw [hrest] at h
          cases h
        | error e =>
          rw [hrest] at h
          cases h
          exact hbehind (by simp) hlast hrest

/-! ### The places of errors -/

/-- **A redundant combinator is reported at the first place** where there is one, however the text is
split. -/
theorem isLeast_of_parse {s : String} {place : Place} {pieces : List Piece}
    (h : parse s = .error (.redundantCombinator place)) (hpieces : spelled pieces = s.toList) :
    place = placeAt s.toList place.offset ∧ IsLeast {i | RedundantAt [] pieces i} place.offset := by
  rw [parse_of_spelled hpieces] at h
  have hpending : false = decide (lastToken? ([] : List Piece) = some .child) := by simp [lastToken?]
  obtain ⟨first, hplace, hfirst⟩ := isLeast_of_assemble hpending h
  simp only [redundantAt_merge_iff] at hfirst
  have hle : first ≤ s.toList.length := hpieces ▸ hfirst.1.le_length
  have hcounted : place = placeAt s.toList first := by
    rw [hplace, spelled_merge, hpieces]
    rfl
  have hoffset : place.offset = first := by rw [hcounted, offset_placeAt hle]
  rw [hoffset]
  exact ⟨hcounted, hfirst⟩

/-- A splitting is redundant when it has a redundant combinator somewhere. -/
theorem redundant_iff_exists_redundantAt {pieces : List Piece} :
    Redundant pieces ↔ ∃ offset, RedundantAt [] pieces offset := by
  have hpending : false = decide (lastToken? ([] : List Piece) = some .child) := by simp [lastToken?]
  rw [← clash_false_merge_iff]
  refine (clash_iff_exists_redundantAt hpending).trans ?_
  simp only [redundantAt_merge_iff]

/-- **The first redundant combinator of a text is the one that is reported**, however the text is
split. -/
theorem parse_eq_redundant {s : String} {offset : Nat} {pieces : List Piece}
    (hpieces : spelled pieces = s.toList) (h : IsLeast {i | RedundantAt [] pieces i} offset) :
    parse s = .error (.redundantCombinator (placeAt s.toList offset)) := by
  obtain ⟨place, hplace⟩ :=
    parse_of_redundant hpieces (redundant_iff_exists_redundantAt.mpr ⟨offset, h.1⟩)
  obtain ⟨hcounted, hleast⟩ := isLeast_of_parse hplace hpieces
  rw [hplace, hcounted, hleast.unique h]

/-- A selector that cannot be parsed can be split up to the place of the error, and this is the place
that is told. -/
theorem exists_spelled_before_error {s : String} {e : ParseError} (h : parse s = .error e) :
    (∃ before, spelled before = s.toList.take e.offset) ∧ e.offset ≤ s.toList.length ∧
      e.place? = some (placeAt s.toList e.offset) := by
  rcases parse_cases s with ⟨-, u, herror⟩ | ⟨pieces, hpieces, -, place, herror⟩ | ⟨_, -, -, hok⟩
  · cases h.symm.trans herror
    obtain ⟨before, hbefore, hlt, hplace, -⟩ := exists_stop_of_parse herror
    exact ⟨⟨before, hbefore⟩, Nat.le_of_lt hlt, congrArg some hplace⟩
  · cases h.symm.trans herror
    obtain ⟨hplace, hleast⟩ := isLeast_of_parse herror hpieces
    refine ⟨?_, hpieces ▸ hleast.1.le_length, congrArg some hplace⟩
    obtain ⟨between, after, rfl, -, hlength⟩ := hleast.1
    refine ⟨between, ?_⟩
    show _ = s.toList.take place.offset
    rw [← hlength, ← hpieces, spelled_append, List.take_left]
  · cases h.symm.trans hok

/-- **The place of an error is exact.** An error in the text itself stands at the end of the longest
prefix without such an error. A redundant combinator is reported at the first offset where there is
one, however the selector is split. In both cases the place that is told was counted over everything
before it, whatever pieces this is read in: there is one line more than there are line feeds, and the
column is counted from where the last of these ends. -/
theorem parse_error_places (s : String) :
    (∀ e, parse s = .error e → e.IsSyntax →
      IsGreatest {n | n ≤ s.length ∧
        ∀ e', parse (String.ofList (s.toList.take n)) = .error e' → ¬ e'.IsSyntax} e.offset) ∧
    (∀ place, parse s = .error (.redundantCombinator place) →
      (∃ pieces, spelled pieces = s.toList) ∧
        ∀ pieces, spelled pieces = s.toList → IsLeast {i | RedundantAt [] pieces i} place.offset) ∧
    ∀ e, parse s = .error e → ∃ place, e.place? = some place ∧ place.offset = e.offset ∧
      ((∃ before, spelled before = s.toList.take e.offset) ∧
        ∀ before, spelled before = s.toList.take e.offset → Place.behind before = place) ∧
      place.line = 1 + (s.toList.take e.offset).count '\n' ∧
      ∃ start, StartsLastLine (s.toList.take e.offset) start ∧
        place.column = e.offset - start + 1 := by
  refine ⟨fun e h hsyntax => ?_, fun place h => ?_, fun e h => ?_⟩
  · obtain ⟨u, rfl⟩ := hsyntax.exists_unrecognized h
    obtain ⟨pieces, hpieces, hlt, -, hlonger⟩ := exists_stop_of_parse h
    rw [String.length_toList] at hlt
    refine ⟨⟨Nat.le_of_lt hlt, forall_not_isSyntax_iff.mpr ⟨pieces, ?_⟩⟩, fun n ⟨_, hn⟩ => ?_⟩
    · rw [String.toList_ofList]
      exact hpieces
    · by_contra hgreater
      exact hn _ (hlonger n (Nat.lt_of_not_le hgreater)) hsyntax
  · have hsplit : ∃ pieces, spelled pieces = s.toList :=
      forall_not_isSyntax_iff.mp fun e he hsyntax => by
        cases h.symm.trans he
        exact hsyntax
    exact ⟨hsplit, fun pieces hpieces => (isLeast_of_parse h hpieces).2⟩
  · obtain ⟨hbefore, hle, hplace⟩ := exists_spelled_before_error h
    refine ⟨_, hplace, offset_placeAt hle, ⟨hbefore, fun before hspelled => ?_⟩,
      line_placeAt _ _, exists_column_placeAt hle⟩
    rw [Place.behind_eq, hspelled]
    rfl

/-- A line feed inside a literal ends a line like any other. -/
example : parse "a[k=\"\n\"]\n > > b" = .error (.redundantCombinator ⟨12, 3, 9⟩) := by
  cbv

end RecordQuery
