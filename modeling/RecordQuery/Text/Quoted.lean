import RecordQuery.Text.Unprintable

/-! # Quoted texts

A text or a byte sequence written as one line between quotes, so that it can be read back: the
quote, the backslash and every character without a visible form are escaped.

* `quoteFor`: single quotes, unless the text holds a single quote and no double quote.
* `quoted`: the quoted form of a text.
* `quotedBytes`: the quoted form of a byte sequence, marked with `b`. -/

namespace RecordQuery.Text

/-- A number in lower-case hexadecimal digits, filled with zeros to a least width. -/
def hex (width n : Nat) : List Char :=
  let digits := Nat.toDigits 16 n
  List.replicate (width - digits.length) '0' ++ digits

/-- The **quote** of a text: the single one, unless the text holds a single quote and no double
one. -/
def quoteFor (cs : List Char) : Char :=
  if cs.contains '\'' && !cs.contains '"' then '"' else '\''

/-- One character between quotes: the quote and the backslash behind a backslash, the three common
controls by their letters, any other unprintable character by its code in two, four or eight
digits. -/
def escaped (quote c : Char) : List Char :=
  if c = quote || c = '\\' then ['\\', c]
  else if c = '\n' then ['\\', 'n']
  else if c = '\r' then ['\\', 'r']
  else if c = '\t' then ['\\', 't']
  else if isPrintable c then [c]
  else if c.toNat < 0x100 then '\\' :: 'x' :: hex 2 c.toNat
  else if c.toNat < 0x10000 then '\\' :: 'u' :: hex 4 c.toNat
  else '\\' :: 'U' :: hex 8 c.toNat

/-- The characters of the **quoted form** of a text. -/
def quotedChars (cs : List Char) : List Char :=
  let quote := quoteFor cs
  quote :: cs.flatMap (escaped quote) ++ [quote]

/-- The **quoted form** of a text. -/
def quoted (s : String) : String := String.ofList (quotedChars s.toList)

/-- One byte between quotes: as a character when it is a visible one of the first 128, else by its
code in two digits. -/
def escapedByte (quote : Char) (b : UInt8) : List Char :=
  let c := Char.ofNat b.toNat
  if c = quote || c = '\\' then ['\\', c]
  else if c = '\n' then ['\\', 'n']
  else if c = '\r' then ['\\', 'r']
  else if c = '\t' then ['\\', 't']
  else if 0x20 ≤ b.toNat && b.toNat < 0x7f then [c]
  else '\\' :: 'x' :: hex 2 b.toNat

/-- The **quoted form** of a byte sequence. -/
def quotedBytes (bytes : List UInt8) : String :=
  let quote := quoteFor (bytes.map fun b => Char.ofNat b.toNat)
  String.ofList ('b' :: quote :: bytes.flatMap (escapedByte quote) ++ [quote])

end RecordQuery.Text
