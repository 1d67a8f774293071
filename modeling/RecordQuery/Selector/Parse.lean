import RecordQuery.Selector.Token
import RecordQuery.Text.Quoted

/-! # Parsing a selector

The tokens of a selector become parts; a part behind the combinator `>` is direct. A combinator at
the end applies to nothing and is dropped, and two of them without a part between them are refused.

* `ParseError`: why a selector cannot be parsed, and where.
* `buildPart`: the part that the text of a token stands for, if it has the form of a part.
* `parse`: the parts of a selector.
* `ParseError.message`: what is said about the error. -/

namespace RecordQuery

/-- Why a selector **cannot be parsed**. -/
inductive ParseError
  /-- No token fits at a place. -/
  | unrecognized (u : Unrecognized)
  /-- A second combinator follows a first one, at a place. -/
  | redundantCombinator (place : Place)
  /-- The text of a part does not have the form of a part. -/
  | malformed (text : List Char)
deriving DecidableEq, Repr

namespace ParseError

/-- The **place** that an error tells; a malformed part tells none. -/
def place? : ParseError → Option Place
  | .unrecognized u => some u.place
  | .redundantCombinator place => some place
  | .malformed _ => none

/-- How many characters stand before the place of the error. -/
def offset (e : ParseError) : Nat := (e.place?.map Place.offset).getD 0

end ParseError

/-- The condition that a condition text stands for. -/
def ConditionText.toCondition (c : ConditionText) : Condition where
  property := String.ofList c.property
  value := String.ofList c.literal

/-- The word and the condition of a text that consists of **nothing else**. -/
def matchBody (body : List Char) : Option (List Char × Option ConditionText) :=
  if body.takeWhile isWordChar = [] then none
  else match body.dropWhile isWordChar with
    | [] => some (body.takeWhile isWordChar, none)
    | rest => match scanCondition rest with
      | some (condition, []) => some (body.takeWhile isWordChar, some condition)
      | _ => none

/-- The **part** that the text of a token stands for: its sigil is split off, and the whole of what
is left must be a word, perhaps with a condition. -/
def buildPart (text : List Char) (direct : Bool) : Except ParseError Part :=
  match matchBody (scanSigil text).2 with
  | none => .error (.malformed text)
  | some (word, condition) =>
    .ok { kind := (scanSigil text).1
          value := String.ofList word
          direct := direct
          condition := condition.map ConditionText.toCondition
          source := String.ofList text }

/-- The parts that a token sequence stands for, `pending` telling whether a combinator waits for its
part. -/
def assemble (pending : Bool) : List Lexeme → Except ParseError (List Part)
  | [] => .ok []
  | ⟨.child, place⟩ :: rest =>
    if pending then .error (.redundantCombinator place) else assemble true rest
  | ⟨.part p, _⟩ :: rest => do
    let part ← buildPart p.chars pending
    let parts ← assemble false rest
    return part :: parts

/-- The **parts of a selector**. All tokens are read before they are assembled, so a place where no
token fits is reported before a redundant combinator. -/
def parseChars (cs : List Char) : Except ParseError (List Part) :=
  match tokens cs with
  | .ok lexemes => assemble false lexemes
  | .error u => .error (.unrecognized u)

/-- The **parts of a selector**, given as a string. -/
def parse (selector : String) : Except ParseError (List Part) := parseChars selector.toList

/-! ### Messages -/

/-- How many characters a text has once its tabs are filled to stops of eight columns; a carriage
return starts the columns again. -/
def expandedLength (cs : List Char) : Nat :=
  (cs.foldl (fun (total, column) c =>
    if c = '\t' then (total + (8 - column % 8), column + (8 - column % 8))
    else if c = '\r' || c = '\n' then (total + 1, 0)
    else (total + 1, column + 1)) (0, 0)).1

/-- How many characters are shown on either side of a place. -/
def shownSpan : Nat := 40

/-- The line around an offset, and below it a mark under the offset. -/
def excerpt (cs : List Char) (offset : Nat) : List Char :=
  let before := lastLine ((cs.take offset).drop (offset - shownSpan))
  let after := ((cs.drop offset).take shownSpan).takeWhile (· ≠ '\n')
  before ++ after ++ '\n' :: List.replicate (expandedLength before) ' ' ++ ['^', '\n']

namespace Token

/-- The name of a token's class. -/
def className : Token → String
  | .part _ => "PART"
  | .child => "DIRECT"

/-- A token as it is quoted in a message. -/
def quoted (t : Token) : String :=
  "Token('" ++ t.className ++ "', " ++ Text.quoted (String.ofList t.chars) ++ ")"

end Token

namespace ParseError

/-- The **message** of an error in a selector. -/
def message (selector : String) : ParseError → String
  | .unrecognized ⟨place, previous⟩ =>
    let cs := selector.toList
    "Invalid selector " ++ Text.quoted selector ++ ": No terminal matches '" ++
      String.ofList ((cs.drop place.offset).take 1) ++
      "' in the current parser context, at line " ++ toString place.line ++ " col " ++
      toString place.column ++ "\n\n" ++ String.ofList (excerpt cs place.offset) ++
      "Expected one of: \n\t* DIRECT\n\t* PART\n" ++
      match previous with
      | none => ""
      | some token => "\nPrevious tokens: " ++ token.quoted ++ "\n"
  | .redundantCombinator place =>
    "Encountered redundant \"direct descendant\" (>) selector at " ++ toString place.offset
  | .malformed text => "Malformed selector part: " ++ Text.quoted (String.ofList text)

end ParseError

end RecordQuery
