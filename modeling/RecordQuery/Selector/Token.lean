import RecordQuery.Selector.Basic
import RecordQuery.Selector.Place

/-! # Tokens of a selector

A selector is read from left to right, at each place the longest token that fits: a part, the child
combinator `>`, or blank space, which separates and is otherwise ignored.

* `PartText`: a part as written, a sigil, a word and perhaps a `ConditionText` in brackets.
* `scanPart`: the longest part at the start of a text.
* `tokens`: all tokens of a text with their places, or the first place where none fits. -/

namespace RecordQuery

/-- Blank space: the space, the tab, the form feed and the two line characters. -/
def isBlank (c : Char) : Bool :=
  c = ' ' || c = '\t' || c = '\x0c' || c = '\r' || c = '\n'

/-- The characters of an attribute name: the ASCII letters and digits and the underscore. -/
def isIdentifierChar (c : Char) : Bool :=
  ('A' ≤ c && c ≤ 'Z') || ('a' ≤ c && c ≤ 'z') || ('0' ≤ c && c ≤ '9') || c = '_'

/-- The characters of an id, class or name: those of an attribute name and the hyphen. -/
def isWordChar (c : Char) : Bool := isIdentifierChar c || c = '-'

/-- A **condition text**: an attribute name and a literal, as written between brackets. -/
structure ConditionText where
  /-- The attribute name. -/
  property : List Char
  /-- The literal between the quotes. -/
  literal : List Char
  /-- There is a name. -/
  property_ne_nil : property ≠ []
  /-- The name consists of name characters. -/
  property_chars : ∀ c ∈ property, isIdentifierChar c
  /-- No quote stands within the quotes. -/
  literal_chars : ∀ c ∈ literal, c ≠ '"'
deriving DecidableEq, Repr

/-- The characters of a condition text, with its brackets. -/
def ConditionText.chars (c : ConditionText) : List Char :=
  '[' :: (c.property ++ '=' :: '"' :: (c.literal ++ ['"', ']']))

/-- A **part text**: what a part consists of as written. -/
structure PartText where
  /-- The kind that the sigil marks. -/
  kind : Kind
  /-- The word behind the sigil. -/
  word : List Char
  /-- The condition in brackets. -/
  condition : Option ConditionText
  /-- There is a word. -/
  word_ne_nil : word ≠ []
  /-- The word consists of word characters. -/
  word_chars : ∀ c ∈ word, isWordChar c
deriving DecidableEq, Repr

namespace PartText

/-- A condition in its brackets, if there is one. -/
def bracketed : Option ConditionText → List Char
  | none => []
  | some c => c.chars

/-- The characters of a part text. -/
def chars (p : PartText) : List Char := p.kind.sigil ++ p.word ++ bracketed p.condition

end PartText

/-- A **token** that carries meaning. -/
inductive Token
  /-- A part. -/
  | part (text : PartText)
  /-- The child combinator `>`. -/
  | child
deriving DecidableEq, Repr

/-- The characters of a token. -/
def Token.chars : Token → List Char
  | .part p => p.chars
  | .child => ['>']

/-- A token and the place of its first character. -/
structure Lexeme where
  /-- The token. -/
  token : Token
  /-- Where it starts. -/
  place : Place
deriving DecidableEq, Repr

/-! ### One token -/

/-- The kind that a sigil marks, and what follows it. -/
def scanSigil : List Char → Kind × List Char
  | '#' :: cs => (.id, cs)
  | '.' :: cs => (.className, cs)
  | cs => (.name, cs)

theorem of_mem_takeWhile {p : Char → Bool} {cs : List Char} {c : Char}
    (h : c ∈ cs.takeWhile p) : p c :=
  List.all_eq_true.mp List.all_takeWhile c h

/-- The condition in brackets at the start of a text, if all of it is there. -/
def scanCondition : List Char → Option (ConditionText × List Char)
  | '[' :: cs =>
    if h : cs.takeWhile isIdentifierChar = [] then none
    else match cs.dropWhile isIdentifierChar with
      | '=' :: '"' :: ds =>
        match ds.dropWhile (· ≠ '"') with
        | '"' :: ']' :: rest =>
          some ({ property := cs.takeWhile isIdentifierChar
                  literal := ds.takeWhile (· ≠ '"')
                  property_ne_nil := h
                  property_chars := fun _ hc => of_mem_takeWhile hc
                  literal_chars := fun _ hc => by simpa using of_mem_takeWhile hc }, rest)
        | _ => none
      | _ => none
  | _ => none

/-- The condition at the start of a text, and what follows it. An incomplete bracket is left where
it is. -/
def scanOptional (cs : List Char) : Option ConditionText × List Char :=
  match scanCondition cs with
  | some (condition, rest) => (some condition, rest)
  | none => (none, cs)

/-- The **longest part** at the start of a text, and what follows it. The brackets belong to it only
if they are complete. -/
def scanPart (cs : List Char) : Option (PartText × List Char) :=
  let (kind, body) := scanSigil cs
  if h : body.takeWhile isWordChar = [] then none
  else
    let (condition, rest) := scanOptional (body.dropWhile isWordChar)
    some ({ kind := kind
            word := body.takeWhile isWordChar
            condition := condition
            word_ne_nil := h
            word_chars := fun _ hc => of_mem_takeWhile hc }, rest)

/-- The **next token** of a text, `none` standing for one blank, and what follows it. -/
def scanToken (cs : List Char) : Option (Option Token × List Char) :=
  match scanPart cs with
  | some (p, rest) => some (some (.part p), rest)
  | none => match cs with
    | '>' :: rest => some (some .child, rest)
    | c :: rest => if isBlank c then some (none, rest) else none
    | [] => none

/-! ### What a token takes from the text -/

theorem scanSigil_append (cs : List Char) : (scanSigil cs).1.sigil ++ (scanSigil cs).2 = cs := by
  unfold scanSigil; split <;> rfl

theorem scanCondition_append {cs rest : List Char} {condition : ConditionText}
    (h : scanCondition cs = some (condition, rest)) : cs = condition.chars ++ rest := by
  unfold scanCondition at h
  split at h
  · rename_i cs
    split at h
    · simp at h
    · split at h
      · rename_i ds hdrop
        split at h
        · rename_i rest' hquote
          simp only [Option.some.injEq, Prod.mk.injEq] at h
          obtain ⟨rfl, rfl⟩ := h
          have hcs := List.takeWhile_append_dropWhile (p := isIdentifierChar) (l := cs)
          have hds := List.takeWhile_append_dropWhile (p := (· ≠ '"')) (l := ds)
          rw [hdrop] at hcs
          rw [hquote] at hds
          rw [← hds] at hcs
          simp only [ConditionText.chars, List.cons_append, List.append_assoc, List.nil_append]
          rw [hcs]
        · simp at h
      · simp at h
  · simp at h

theorem scanOptional_append (cs : List Char) :
    cs = PartText.bracketed (scanOptional cs).1 ++ (scanOptional cs).2 := by
  unfold scanOptional
  split
  · rename_i hc
    exact scanCondition_append hc
  · rfl

theorem scanPart_append {cs rest : List Char} {p : PartText} (h : scanPart cs = some (p, rest)) :
    cs = p.chars ++ rest := by
  unfold scanPart at h
  have hsigil := scanSigil_append cs
  generalize scanSigil cs = s at h hsigil
  obtain ⟨kind, body⟩ := s
  simp only at h hsigil
  split at h
  · simp at h
  · simp only [Option.some.injEq, Prod.mk.injEq] at h
    obtain ⟨rfl, rfl⟩ := h
    have hbody := List.takeWhile_append_dropWhile (p := isWordChar) (l := body)
    have hrest := scanOptional_append (body.dropWhile isWordChar)
    simp only [PartText.chars, List.append_assoc]
    rw [← hrest, hbody, hsigil]

/-- A token takes at least one character. -/
theorem scanToken_length {cs rest : List Char} {t : Option Token}
    (h : scanToken cs = some (t, rest)) : rest.length < cs.length := by
  unfold scanToken at h
  split at h
  · rename_i p rest' hp
    simp only [Option.some.injEq, Prod.mk.injEq] at h
    obtain ⟨rfl, rfl⟩ := h
    have hlen := congrArg List.length (scanPart_append hp)
    have hword := List.length_pos_iff.mpr p.word_ne_nil
    simp only [PartText.chars, List.length_append] at hlen
    omega
  · split at h
    · simp only [Option.some.injEq, Prod.mk.injEq] at h
      obtain ⟨rfl, rfl⟩ := h
      simp
    · split at h
      · simp only [Option.some.injEq, Prod.mk.injEq] at h
        obtain ⟨rfl, rfl⟩ := h
        simp
      · simp at h
    · simp at h

/-! ### All tokens -/

/-- Where no token fits: the place, and the token before it. -/
structure Unrecognized where
  /-- The place. -/
  place : Place
  /-- The last token before the place. -/
  previous : Option Token
deriving DecidableEq, Repr

/-- The tokens of a text that starts at a place behind a token. -/
def tokensFrom (place : Place) (previous : Option Token) (cs : List Char) :
    Except Unrecognized (List Lexeme) :=
  match _h : scanToken cs with
  | none => if cs.isEmpty then .ok [] else .error ⟨place, previous⟩
  -- a blank is no token, so the token before it stays the previous one
  | some (none, rest) => tokensFrom (place.past (cs.take 1)) previous rest
  | some (some token, rest) =>
    match tokensFrom (place.past token.chars) (some token) rest with
    | .ok lexemes => .ok (⟨token, place⟩ :: lexemes)
    | .error e => .error e
termination_by cs.length
decreasing_by all_goals exact scanToken_length (by assumption)

/-- The **tokens** of a text, each the longest that fits where the one before it ends. -/
def tokens (cs : List Char) : Except Unrecognized (List Lexeme) := tokensFrom {} none cs

end RecordQuery
