import RecordQuery.Number.Reading
import RecordQuery.Selector.Place

/-! # Reading JSON

A JSON text is read strictly, but for three number names that are accepted beside the numbers:
`NaN`, `Infinity` and `-Infinity`. An error says what was expected and where. A pair of escaped
surrogates is one character; a key that comes twice is kept twice.

* `Json`: a JSON value.
* `Json.Fault`, `Json.Error`: what is wrong, and where.
* `Json.read`: the value that a text stands for. -/

namespace RecordQuery

/-- A **JSON value**. -/
inductive Json
  /-- The absent value. -/
  | null
  /-- A truth value. -/
  | bool (b : Bool)
  /-- A number without fraction and exponent. -/
  | int (n : Int)
  /-- Any other number. -/
  | double (x : Double)
  /-- A text. -/
  | text (s : String)
  /-- A list. -/
  | list (items : List Json)
  /-- An object, its entries as they are written. -/
  | object (entries : List (String × Json))
deriving Repr, Inhabited

namespace Json

/-- What is **wrong** with a JSON text. -/
inductive Fault
  /-- A value was expected. -/
  | value
  /-- Something follows the value. -/
  | extraData
  /-- A comma was expected. -/
  | comma
  /-- A colon was expected. -/
  | colon
  /-- A quoted key was expected. -/
  | key
  /-- A text has no end. -/
  | unterminated
  /-- A text holds a control character. -/
  | control
  /-- A backslash is followed by an unknown letter. -/
  | escape
  /-- An escaped code is not made of four hexadecimal digits. -/
  | code
  /-- The text starts with a byte order mark. -/
  | mark
deriving DecidableEq, Repr

/-- The wording of a fault. -/
def Fault.wording : Fault → String
  | .value => "Expecting value"
  | .extraData => "Extra data"
  | .comma => "Expecting ',' delimiter"
  | .colon => "Expecting ':' delimiter"
  | .key => "Expecting property name enclosed in double quotes"
  | .unterminated => "Unterminated string starting at"
  | .control => "Invalid control character at"
  | .escape => "Invalid \\escape"
  | .code => "Invalid \\uXXXX escape"
  | .mark => "Unexpected UTF-8 BOM (decode using utf-8-sig)"

/-- A fault and its **place**. -/
structure Error where
  /-- What is wrong. -/
  fault : Fault
  /-- How many characters stand before the place. -/
  offset : Nat
deriving DecidableEq, Repr

/-- What is said about an error in a text. -/
def Error.message (cs : List Char) (e : Error) : String :=
  e.fault.wording ++ ": line " ++ toString (lineAt cs e.offset) ++ " column " ++
    toString (columnAt cs e.offset) ++ " (char " ++ toString e.offset ++ ")"

/-- What has been read, the offset behind it, and the rest of the text. -/
abbrev Read (α : Type) : Type := α × Nat × List Char

/-- The blank space between tokens. -/
def isSpace (c : Char) : Bool := c = ' ' || c = '\t' || c = '\n' || c = '\r'

/-- The text behind blank space, with its offset. -/
def skipSpace (offset : Nat) : List Char → Nat × List Char
  | c :: cs => if isSpace c then skipSpace (offset + 1) cs else (offset, c :: cs)
  | [] => (offset, [])

/-! ### Texts -/

/-- The value of a hexadecimal digit. -/
def hexDigit? (c : Char) : Option Nat :=
  if isDecimalDigit c then some (c.toNat - '0'.toNat)
  else if 'a' ≤ c && c ≤ 'f' then some (c.toNat - 'a'.toNat + 10)
  else if 'A' ≤ c && c ≤ 'F' then some (c.toNat - 'A'.toNat + 10)
  else none

/-- The number that four hexadecimal digits stand for. -/
def hexCode? (a b c d : Char) : Option Nat := do
  let a ← hexDigit? a
  let b ← hexDigit? b
  let c ← hexDigit? c
  let d ← hexDigit? d
  return ((a * 16 + b) * 16 + c) * 16 + d

/-- The character that a letter behind a backslash stands for. -/
def escapeLetter? : Char → Option Char
  | '"' => some '"'
  | '\\' => some '\\'
  | '/' => some '/'
  | 'b' => some '\x08'
  | 'f' => some '\x0c'
  | 'n' => some '\n'
  | 'r' => some '\r'
  | 't' => some '\t'
  | _ => none

/-- Whether a code is the first unit of a surrogate pair. -/
def isHighSurrogate (n : Nat) : Bool := 0xD800 ≤ n && n < 0xDC00

/-- Whether a code is the second unit of a surrogate pair. -/
def isLowSurrogate (n : Nat) : Bool := 0xDC00 ≤ n && n < 0xE000

/-- A character by its code; a surrogate without its partner is replaced. -/
def charOfCode (n : Nat) : Char :=
  if isHighSurrogate n || isLowSurrogate n then '\uFFFD' else Char.ofNat n

/-- An escaped code of four digits behind `\u`, joined with a second one if the two are a surrogate
pair: the character and how many characters were read. There must be something behind the code. -/
def readCode (offset : Nat) : List Char → Except Error (Char × Nat)
  | a :: b :: c :: d :: rest =>
    match rest, hexCode? a b c d with
    | [], _ => .error ⟨.code, offset + 1⟩
    | _, none => .error ⟨.code, offset + 1⟩
    | '\\' :: 'u' :: e :: f :: g :: h :: _ :: _, some n =>
      if isHighSurrogate n then
        -- a malformed second code is an error even where the first one could stand alone
        match hexCode? e f g h with
        | none => .error ⟨.code, offset + 7⟩
        | some m =>
          if isLowSurrogate m then
            .ok (Char.ofNat (0x10000 + (n - 0xD800) * 0x400 + (m - 0xDC00)), 10)
          else .ok (charOfCode n, 4)
      else .ok (charOfCode n, 4)
    | _, some n => .ok (charOfCode n, 4)
  | _ => .error ⟨.code, offset + 1⟩

/-- The characters of a text up to its closing quote. `start` is the offset of the opening quote. -/
def readChars (start offset : Nat) (cs : List Char) : Except Error (Read (List Char)) :=
  match cs with
  | [] => .error ⟨.unterminated, start⟩
  | '"' :: rest => .ok ([], offset + 1, rest)
  | ['\\'] => .error ⟨.unterminated, start⟩
  | '\\' :: 'u' :: rest =>
    match readCode offset rest with
    | .error e => .error e
    | .ok (c, n) =>
      match readChars start (offset + 2 + n) (rest.drop n) with
      | .ok (cs, after) => .ok (c :: cs, after)
      | .error e => .error e
  | '\\' :: letter :: rest =>
    match escapeLetter? letter with
    | none => .error ⟨.escape, offset⟩
    | some c =>
      match readChars start (offset + 2) rest with
      | .ok (cs, after) => .ok (c :: cs, after)
      | .error e => .error e
  | c :: rest =>
    if c.toNat < 0x20 then .error ⟨.control, offset⟩
    else match readChars start (offset + 1) rest with
      | .ok (cs, after) => .ok (c :: cs, after)
      | .error e => .error e
termination_by cs.length
decreasing_by
  all_goals simp only [List.length_cons, List.length_drop]
  all_goals omega

/-- A text behind its opening quote. -/
def readText (start : Nat) (cs : List Char) : Except Error (Read String) := do
  let (chars, after) ← readChars start (start + 1) cs
  return (String.ofList chars, after)

/-! ### Numbers -/

/-- The fraction behind a number, if a digit follows the point. -/
def takeFraction : List Char → Option (List Char) × List Char
  | '.' :: c :: cs =>
    if isDecimalDigit c then (some (c :: cs.takeWhile isDecimalDigit), cs.dropWhile isDecimalDigit)
    else (none, '.' :: c :: cs)
  | cs => (none, cs)

/-- The sign at the start of an exponent: whether it is negative, and how many characters it has. -/
def takeSign : List Char → (Bool × Nat) × List Char
  | '-' :: ds => ((true, 1), ds)
  | '+' :: ds => ((false, 1), ds)
  | ds => ((false, 0), ds)

/-- The exponent behind a number and how many characters it has, if a digit follows the letter and
the sign. -/
def takeExponent (cs : List Char) : Option (Int × Nat) × List Char :=
  match cs with
  | e :: rest =>
    if e = 'e' || e = 'E' then
      let ((negative, signs), digits) := takeSign rest
      let power := digits.takeWhile isDecimalDigit
      if power.isEmpty then (none, cs)
      else
        let n : Int := digitsValue power
        (some (if negative then -n else n, 1 + signs + power.length),
          digits.dropWhile isDecimalDigit)
    else (none, cs)
  | [] => (none, cs)

/-- The digits before the point: a zero alone, or digits that start with another one. -/
def takeWhole : List Char → List Char × List Char
  | '0' :: cs => (['0'], cs)
  | cs => (cs.takeWhile isDecimalDigit, cs.dropWhile isDecimalDigit)

/-- A number, at an offset. -/
def readNumber (offset : Nat) (cs : List Char) : Except Error (Read Json) :=
  let (negative, unsigned) := match cs with
    | '-' :: rest => (true, rest)
    | rest => (false, rest)
  let (whole, rest) := takeWhole unsigned
  if whole.isEmpty then .error ⟨.value, offset⟩
  else
    let (fraction, rest) := takeFraction rest
    let (exponent, rest) := takeExponent rest
    let after := offset + (if negative then 1 else 0) + whole.length +
      (fraction.map (·.length + 1)).getD 0 + (exponent.map (·.2)).getD 0
    match fraction, exponent with
    -- without fraction and exponent the number is exact, whatever its size
    | none, none =>
      let n : Int := digitsValue whole
      .ok (.int (if negative then -n else n), after, rest)
    | _, _ =>
      let d := Double.ofDigits negative whole (fraction.getD [])
        ((exponent.map (·.1)).getD 0)
      .ok (.double d, after, rest)

/-! ### Values -/

/-- The values that are written as words. -/
def words : List (List Char × Json) :=
  [("null".toList, .null), ("true".toList, .bool true), ("false".toList, .bool false),
    ("NaN".toList, .double .nan), ("Infinity".toList, .double (.infinity false)),
    ("-Infinity".toList, .double (.infinity true))]

/-- The word at the start of a text. -/
def readWord? (cs : List Char) : Option (List Char × Json) :=
  words.find? fun word => word.1.isPrefixOf cs

mutual

/-- A value, at an offset. Each step consumes fuel, of which twice the length of the text is
enough. -/
def readValue : Nat → Nat → List Char → Except Error (Read Json)
  | 0, offset, _ => .error ⟨.value, offset⟩
  | fuel + 1, offset, cs =>
    match cs with
    | '"' :: rest => do
      let (s, after) ← readText offset rest
      return (.text s, after)
    | '[' :: rest =>
      match skipSpace (offset + 1) rest with
      | (offset, ']' :: rest) => .ok (.list [], offset + 1, rest)
      | (offset, rest) => do
        let (items, after) ← readItems fuel offset rest
        return (.list items, after)
    | '\x7b' :: rest =>
      match skipSpace (offset + 1) rest with
      | (offset, '\x7d' :: rest) => .ok (.object [], offset + 1, rest)
      | (offset, rest) => do
        let (entries, after) ← readEntries fuel offset rest
        return (.object entries, after)
    | _ =>
      match readWord? cs with
      | some (word, value) => .ok (value, offset + word.length, cs.drop word.length)
      | none => readNumber offset cs

/-- The items of a list, up to its closing bracket. -/
def readItems : Nat → Nat → List Char → Except Error (Read (List Json))
  | 0, offset, _ => .error ⟨.value, offset⟩
  | fuel + 1, offset, cs => do
    let (item, offset, rest) ← readValue fuel offset cs
    match skipSpace offset rest with
    | (offset, ']' :: rest) => return ([item], offset + 1, rest)
    | (offset, ',' :: rest) =>
      -- a value must follow the comma
      let (offset, rest) := skipSpace (offset + 1) rest
      let (items, after) ← readItems fuel offset rest
      return (item :: items, after)
    | (offset, _) => .error ⟨.comma, offset⟩

/-- The entries of an object, up to its closing brace. -/
def readEntries : Nat → Nat → List Char → Except Error (Read (List (String × Json)))
  | 0, offset, _ => .error ⟨.value, offset⟩
  | fuel + 1, offset, cs =>
    match cs with
    | '"' :: rest => do
      let (key, offset, rest) ← readText offset rest
      match skipSpace offset rest with
      | (offset, ':' :: rest) =>
        let (offset, rest) := skipSpace (offset + 1) rest
        let (value, offset, rest) ← readValue fuel offset rest
        match skipSpace offset rest with
        | (offset, '\x7d' :: rest) => return ([(key, value)], offset + 1, rest)
        | (offset, ',' :: rest) =>
          let (offset, rest) := skipSpace (offset + 1) rest
          let (entries, after) ← readEntries fuel offset rest
          return ((key, value) :: entries, after)
        | (offset, _) => .error ⟨.comma, offset⟩
      | (offset, _) => .error ⟨.colon, offset⟩
    | _ => .error ⟨.key, offset⟩

end

/-- The **value that a text stands for**. Nothing but blank space may stand around it. -/
def read (cs : List Char) : Except Error Json :=
  if cs.head? = some '\uFEFF' then .error ⟨.mark, 0⟩
  else do
    let (offset, rest) := skipSpace 0 cs
    let (value, offset, rest) ← readValue (2 * cs.length + 2) offset rest
    match skipSpace offset rest with
    | (_, []) => return value
    | (offset, _) => .error ⟨.extraData, offset⟩

end Json

/-- A text with every line ended by a line feed alone. -/
def withLineFeeds : List Char → List Char
  | '\r' :: '\n' :: cs => '\n' :: withLineFeeds cs
  | '\r' :: cs => '\n' :: withLineFeeds cs
  | c :: cs => c :: withLineFeeds cs
  | [] => []

end RecordQuery
