import RecordQuery.Proofs.Selector.Scanning

/-! # Ways to split a selector

A text may fall apart into part texts, combinators and blanks in several ways: `ab` is one part or
two. Every way can be carried over into the one whose parts are the longest, by joining a part with
the part behind it as long as the two make up a longer one, and this changes nothing between two
combinators.

* `Piece`, `spelled`: the pieces of a splitting, and the text that they make up.
* `Maximal`: every part of a splitting is the longest part text that fits at its place.
* `Redundant`: two combinators have nothing but blanks between them.
* `merge`: a splitting with its parts joined, with `spelled_merge`, `maximal_merge` and
  `redundant_merge_iff`.
* `Maximal.eq_of_spelled_eq`: a text has one maximal splitting at most. -/

namespace RecordQuery

/-! ### Pieces -/

/-- A **piece** of a selector: a token, or one blank that separates tokens. -/
inductive Piece
  /-- A part or a combinator. -/
  | token (t : Token)
  /-- A blank. -/
  | blank (c : Char) (isBlank : isBlank c)

namespace Piece

/-- The characters of a piece. -/
def chars : Piece → List Char
  | .token t => t.chars
  | .blank c _ => [c]

/-- The token that a piece is, if it is one. -/
def token? : Piece → Option Token
  | .token t => some t
  | .blank _ _ => none

end Piece

/-- The **text** that a sequence of pieces makes up. -/
def spelled (pieces : List Piece) : List Char := pieces.flatMap Piece.chars

@[simp] theorem spelled_nil : spelled [] = [] := rfl

@[simp] theorem spelled_cons (x : Piece) (pieces : List Piece) :
    spelled (x :: pieces) = x.chars ++ spelled pieces := List.flatMap_cons

/-- A splitting is **maximal** when no part text that fits at the place of one of its parts is
longer than this part. -/
def Maximal : List Piece → Prop
  | [] => True
  | .token (.part p) :: rest =>
    (∀ q : PartText, q.chars <+: p.chars ++ spelled rest → q.chars.length ≤ p.chars.length) ∧
      Maximal rest
  | .token .child :: rest => Maximal rest
  | .blank _ _ :: rest => Maximal rest

/-- Behind some blanks, a **combinator is next**. -/
def ChildNext (pieces : List Piece) : Prop :=
  ∃ blanks after, pieces = blanks ++ .token .child :: after ∧ ∀ x ∈ blanks, x.token? = none

/-- A splitting is **redundant** when two of its combinators have only blanks between them. -/
def Redundant (pieces : List Piece) : Prop :=
  ∃ before after, pieces = before ++ .token .child :: after ∧ ChildNext after

/-! ### Where a piece starts -/

/-- A piece **goes on a word** when it is a part without a sigil. -/
def Piece.GoesOn : Piece → Prop
  | .token (.part p) => p.kind = .name
  | _ => False

/-- No piece starts with a bracket, and only one that goes on a word starts with a word
character. -/
theorem Piece.head_chars (x : Piece) (cs : List Char) :
    ∀ c ∈ (x.chars ++ cs).head?, c ≠ '[' ∧ (¬ x.GoesOn → isWordChar c = false) := by
  intro c hc
  cases x with
  | blank b hb =>
    cases hc
    obtain ⟨-, -, -, hbracket, hword⟩ := isBlank_ne hb
    exact ⟨hbracket, fun _ => hword⟩
  | token t =>
    cases t with
    | child =>
      cases hc
      exact ⟨by decide, fun _ => rfl⟩
    | part p =>
      obtain ⟨d, word, hword⟩ := List.exists_cons_of_ne_nil p.word_ne_nil
      have hd : isWordChar d := p.word_chars d (hword ▸ List.mem_cons_self)
      rw [Piece.chars, Token.chars, PartText.chars, hword] at hc
      rw [Piece.GoesOn]
      cases hkind : p.kind with
      | id =>
        rw [hkind] at hc
        cases hc
        exact ⟨by decide, fun _ => rfl⟩
      | className =>
        rw [hkind] at hc
        cases hc
        exact ⟨by decide, fun _ => rfl⟩
      | name =>
        rw [hkind] at hc
        cases hc
        exact ⟨(isWordChar_ne hd).2.2, fun h => absurd rfl h⟩

/-- No text of pieces starts with a bracket. -/
theorem head_spelled_ne (pieces : List Piece) : ∀ c ∈ (spelled pieces).head?, c ≠ '[' := by
  intro c hc
  cases pieces with
  | nil => cases hc
  | cons x pieces => exact (x.head_chars (spelled pieces) c (spelled_cons x pieces ▸ hc)).1

/-- Where no piece goes on the word, the word ends. -/
theorem head_spelled_not_word {pieces : List Piece} (h : ∀ x ∈ pieces.head?, ¬ x.GoesOn) :
    ∀ c ∈ (spelled pieces).head?, isWordChar c = false := by
  intro c hc
  cases pieces with
  | nil => cases hc
  | cons x pieces => exact (x.head_chars (spelled pieces) c (spelled_cons x pieces ▸ hc)).2 (h x rfl)

/-- Nothing but a part is read as a part. -/
theorem scanPart_of_head {c : Char} (cs : List Char) (hid : c ≠ '#') (hclass : c ≠ '.')
    (hword : isWordChar c = false) : scanPart (c :: cs) = none := by
  have hsigil := scanSigil_of_ne hid hclass cs
  have hnil : (c :: cs).takeWhile isWordChar = [] := by
    rw [List.takeWhile_cons, hword]
    rfl
  unfold scanPart
  simp only [hsigil]
  rw [dif_pos hnil]

/-! ### Reading a maximal splitting -/

theorem maximal_part_iff {p : PartText} {rest : List Piece} :
    Maximal (.token (.part p) :: rest) ↔
      scanPart (p.chars ++ spelled rest) = some (p, spelled rest) ∧ Maximal rest := by
  rw [scanPart_append_iff_longest]
  rfl

/-- A maximal splitting stays one without its first piece. -/
theorem Maximal.tail {x : Piece} {rest : List Piece} (h : Maximal (x :: rest)) : Maximal rest := by
  cases x with
  | blank c hc => exact h
  | token t =>
    cases t with
    | child => exact h
    | part p => exact h.2

/-- A blank is read, whatever follows it. -/
theorem scanToken_blank {c : Char} (hc : isBlank c) (rest : List Char) :
    scanToken (c :: rest) = some (none, rest) := by
  obtain ⟨hid, hclass, hchild, -, hword⟩ := isBlank_ne hc
  rw [scanToken, scanPart_of_head rest hid hclass hword]
  · simp only [hc, if_true]
  · exact hchild

/-- A combinator is read, whatever follows it. -/
theorem scanToken_child (rest : List Char) : scanToken ('>' :: rest) = some (some .child, rest) := by
  rw [scanToken, scanPart_of_head rest (by decide) (by decide) rfl]

/-- A part is the token where one is read. -/
theorem scanToken_part_iff {p : PartText} {cs rest : List Char} :
    scanToken cs = some (some (.part p), rest) ↔ scanPart cs = some (p, rest) := by
  constructor
  · intro h
    unfold scanToken at h
    split at h
    · rename_i hscan
      rw [hscan]
      simpa using h
    · split at h
      · cases h
      · split at h <;> cases h
      · cases h
  · intro h
    unfold scanToken
    rw [h]

/-- **The next token of a maximal splitting** is its first piece. -/
theorem scanToken_spelled {x : Piece} {rest : List Piece} (h : Maximal (x :: rest)) :
    scanToken (spelled (x :: rest)) = some (x.token?, spelled rest) := by
  rw [spelled_cons]
  cases x with
  | blank c hc => exact scanToken_blank hc (spelled rest)
  | token t =>
    cases t with
    | child => exact scanToken_child (spelled rest)
    | part p => exact scanToken_part_iff.mpr (maximal_part_iff.mp h).1

/-- **A text has one maximal splitting at most.** -/
theorem Maximal.eq_of_spelled_eq {ps qs : List Piece} (hp : Maximal ps) (hq : Maximal qs)
    (h : spelled ps = spelled qs) : ps = qs := by
  induction ps generalizing qs with
  | nil =>
    cases qs with
    | nil => rfl
    | cons y qs =>
      have hy := scanToken_spelled hq
      rw [← h] at hy
      cases hy
  | cons x ps ih =>
    cases qs with
    | nil =>
      have hx := scanToken_spelled hp
      rw [h] at hx
      cases hx
    | cons y qs =>
      have hx := scanToken_spelled hp
      rw [h, scanToken_spelled hq, Option.some.injEq, Prod.mk.injEq] at hx
      -- the next token leaves the same rest in both, so the first pieces are written alike
      obtain ⟨htoken, hrest⟩ := hx
      rw [spelled_cons, spelled_cons, hrest] at h
      have hchars := List.append_cancel_right h
      rw [ih hp.tail hq.tail hrest.symm]
      congr 1
      cases x <;> cases y <;> cases htoken
      · rfl
      · cases hchars
        rfl

/-! ### Joining parts -/

/-- Two part texts **joined** to one: the word of both, and the condition of the second. -/
def PartText.join (p q : PartText) : PartText where
  kind := p.kind
  word := p.word ++ q.word
  condition := q.condition
  word_ne_nil := List.append_ne_nil_of_left_ne_nil p.word_ne_nil q.word
  word_chars := fun c hc => (List.mem_append.mp hc).elim (p.word_chars c) (q.word_chars c)

/-- A part without a condition and one without a sigil are written like the part that joins
them. -/
theorem PartText.join_chars {p q : PartText} (hp : p.condition = none) (hq : q.kind = .name) :
    (p.join q).chars = p.chars ++ q.chars := by
  rw [PartText.chars, PartText.chars, PartText.chars, hp, hq]
  simp only [PartText.join, PartText.bracketed, Kind.sigil, List.append_assoc, List.nil_append]

/-- What is read behind a part without a condition, if it has no sigil, is **read with that
part**. -/
theorem scanPart_join {p q : PartText} {cs rest : List Char} (hp : p.condition = none)
    (hq : q.kind = .name) (h : scanPart cs = some (q, rest)) :
    scanPart (p.chars ++ cs) = some (p.join q, rest) := by
  have hcs := scanPart_append h
  rw [hcs] at h
  have hcondition : q.condition = none → _ := scanPart_chars_append_iff.mp h
  have hjoin : scanPart ((p.join q).chars ++ rest) = some (p.join q, rest) :=
    scanPart_chars_append_iff.mpr hcondition
  rw [hcs, ← hjoin, PartText.join_chars hp hq, List.append_assoc]

/-- A piece put before a splitting, joined with its first part if the two make up one part. -/
def attach (x : Piece) : List Piece → List Piece
  | [] => [x]
  | y :: rest =>
    match x, y with
    | .token (.part p), .token (.part q) =>
      if p.condition = none ∧ q.kind = .name then .token (.part (p.join q)) :: rest
      else x :: y :: rest
    | _, _ => x :: y :: rest

/-- A splitting with its parts **merged**: no part can be joined with the part behind it. -/
def merge (pieces : List Piece) : List Piece := pieces.foldr attach []

theorem merge_cons (x : Piece) (pieces : List Piece) :
    merge (x :: pieces) = attach x (merge pieces) := rfl

/-- A piece is joined with the splitting behind it, or it is put before it. -/
theorem attach_cases (x : Piece) (rest : List Piece) :
    (∃ p q rest', x = .token (.part p) ∧ rest = .token (.part q) :: rest' ∧ p.condition = none ∧
        q.kind = .name ∧ attach x rest = .token (.part (p.join q)) :: rest') ∨
      (attach x rest = x :: rest ∧
        ∀ p, x = .token (.part p) → p.condition = none → ∀ y ∈ rest.head?, ¬ y.GoesOn) := by
  unfold attach
  split
  · exact .inr ⟨rfl, fun _ _ _ y hy => nomatch hy⟩
  · split
    · rename_i p q
      split
      · rename_i h
        exact .inl ⟨p, q, _, rfl, rfl, h.1, h.2, rfl⟩
      · rename_i h
        refine .inr ⟨rfl, ?_⟩
        rintro p' hp' hcondition y hy hgoes
        cases hp'
        cases hy
        exact h ⟨hcondition, hgoes⟩
    · rename_i y _ _ _ hparts
      refine .inr ⟨rfl, ?_⟩
      rintro p rfl - y' hy hgoes
      cases hy
      cases y with
      | blank c hc => exact hgoes
      | token t =>
        cases t with
        | child => exact hgoes
        | part q => exact hparts p q rfl rfl

/-- Attaching a piece puts its characters before the text. -/
theorem spelled_attach (x : Piece) (rest : List Piece) :
    spelled (attach x rest) = x.chars ++ spelled rest := by
  rcases attach_cases x rest with ⟨p, q, rest', rfl, rfl, hp, hq, h⟩ | ⟨h, -⟩
  · rw [h, spelled_cons, spelled_cons, ← List.append_assoc]
    exact congrArg (· ++ spelled rest') (PartText.join_chars hp hq)
  · rw [h, spelled_cons]

/-- **Merging keeps the text.** -/
theorem spelled_merge (pieces : List Piece) : spelled (merge pieces) = spelled pieces := by
  induction pieces with
  | nil => rfl
  | cons x pieces ih => rw [merge_cons, spelled_attach, ih, spelled_cons]

/-- Attaching a piece to a maximal splitting gives a maximal splitting. -/
theorem Maximal.attach {rest : List Piece} (h : Maximal rest) (x : Piece) :
    Maximal (attach x rest) := by
  rcases attach_cases x rest with ⟨p, q, rest', rfl, rfl, hp, hq, hattach⟩ | ⟨hattach, hend⟩
  · -- the part behind was read to its end, and so it is behind the word before it
    rw [hattach, maximal_part_iff, PartText.join_chars hp hq, List.append_assoc]
    obtain ⟨hscan, hrest'⟩ := maximal_part_iff.mp h
    exact ⟨scanPart_join hp hq hscan, hrest'⟩
  · rw [hattach]
    cases x with
    | blank c hc => exact h
    | token t =>
      cases t with
      | child => exact h
      | part p =>
        refine maximal_part_iff.mpr ⟨scanPart_chars_append_iff.mpr fun hp => ?_, h⟩
        -- nothing joins the part, so the text behind it starts neither a word nor a condition
        have hword := takeWhile_of_stop (head_spelled_not_word (hend p rfl hp))
        have hoptional := scanOptional_of_head (head_spelled_ne rest)
        exact ⟨hword.1, congrArg Prod.fst hoptional⟩

/-- **Merging makes a splitting maximal.** -/
theorem maximal_merge (pieces : List Piece) : Maximal (merge pieces) := by
  induction pieces with
  | nil => trivial
  | cons x pieces ih => exact ih.attach x

/-! ### Two combinators without a part between them -/

/-- Cons reading of `ChildNext`: a combinator is next if the first piece is one, or if this is a
blank and a combinator is next behind it. -/
theorem childNext_cons_iff {x : Piece} {rest : List Piece} :
    ChildNext (x :: rest) ↔ x = .token .child ∨ (x.token? = none ∧ ChildNext rest) := by
  constructor
  · rintro ⟨blanks, after, h, hblanks⟩
    cases blanks with
    | nil => exact .inl (List.cons.inj h).1
    | cons b blanks =>
      obtain ⟨rfl, hrest⟩ := List.cons.inj h
      exact .inr ⟨hblanks x List.mem_cons_self, blanks, after, hrest,
        fun y hy => hblanks y (List.mem_cons_of_mem x hy)⟩
  · rintro (rfl | ⟨hx, blanks, after, rfl, hblanks⟩)
    · exact ⟨[], rest, rfl, fun _ h => nomatch h⟩
    · exact ⟨x :: blanks, after, rfl, List.forall_mem_cons.mpr ⟨hx, hblanks⟩⟩

/-- Cons reading of `Redundant`: the first piece is a combinator and another is next, or the pieces
behind it are redundant. -/
theorem redundant_cons_iff {x : Piece} {rest : List Piece} :
    Redundant (x :: rest) ↔ (x = .token .child ∧ ChildNext rest) ∨ Redundant rest := by
  constructor
  · rintro ⟨before, after, h, hafter⟩
    cases before with
    | nil =>
      obtain ⟨rfl, rfl⟩ := List.cons.inj h
      exact .inl ⟨rfl, hafter⟩
    | cons b before => exact .inr ⟨before, after, (List.cons.inj h).2, hafter⟩
  · rintro (⟨rfl, hrest⟩ | ⟨before, after, rfl, hafter⟩)
    · exact ⟨[], rest, rfl, hrest⟩
    · exact ⟨x :: before, after, rfl, hafter⟩

/-- A combinator is next after attaching a piece just if it is after putting the piece in front. -/
theorem childNext_attach_iff (x : Piece) (rest : List Piece) :
    ChildNext (attach x rest) ↔ ChildNext (x :: rest) := by
  rcases attach_cases x rest with ⟨p, q, rest', rfl, rfl, -, -, h⟩ | ⟨h, -⟩
  · rw [h, childNext_cons_iff, childNext_cons_iff]
    simp [Piece.token?]
  · rw [h]

/-- Attaching a piece is redundant just if putting it in front is. -/
theorem redundant_attach_iff (x : Piece) (rest : List Piece) :
    Redundant (attach x rest) ↔ Redundant (x :: rest) := by
  rcases attach_cases x rest with ⟨p, q, rest', rfl, rfl, -, -, h⟩ | ⟨h, -⟩
  · rw [h, redundant_cons_iff, redundant_cons_iff, redundant_cons_iff]
    simp
  · rw [h]

theorem childNext_merge_iff (pieces : List Piece) : ChildNext (merge pieces) ↔ ChildNext pieces := by
  induction pieces with
  | nil => rfl
  | cons x pieces ih =>
    rw [merge_cons, childNext_attach_iff, childNext_cons_iff, childNext_cons_iff, ih]

/-- **Merging keeps a splitting redundant or not**: only parts are joined, so nothing comes or goes
between two combinators. -/
theorem redundant_merge_iff (pieces : List Piece) : Redundant (merge pieces) ↔ Redundant pieces := by
  induction pieces with
  | nil => rfl
  | cons x pieces ih =>
    rw [merge_cons, redundant_attach_iff, redundant_cons_iff, redundant_cons_iff, ih,
      childNext_merge_iff]

end RecordQuery
