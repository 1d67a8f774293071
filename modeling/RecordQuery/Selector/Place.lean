/-! # Places in a text

A place in a text has an offset, a line and a column. It is counted on while the text is read, token by
token; only a line feed ends a line.

* `Place`: the offset, the line, and where this line starts.
* `Place.past`: the place past some more characters.
* `placeAt`: the place at an offset of a text.
* `lineAt`, `columnAt`: the line and the column, read off everything before the offset. -/

namespace RecordQuery

/-- The characters behind the last line feed of a text. -/
def lastLine (cs : List Char) : List Char := (cs.reverse.takeWhile (· ≠ '\n')).reverse

/-- A **place** in a text, as it is counted on while the text is read. -/
@[ext] structure Place where
  /-- How many characters have been read. -/
  offset : Nat := 0
  /-- The line, counted from one. -/
  line : Nat := 1
  /-- The offset at which the line starts. -/
  lineStart : Nat := 0
deriving DecidableEq, Repr

namespace Place

/-- The column, counted from one. -/
def column (p : Place) : Nat := p.offset - p.lineStart + 1

/-- The place **past some more characters**. The line starts anew behind the last line feed of these,
if there is one. -/
def past (p : Place) (cs : List Char) : Place where
  offset := p.offset + cs.length
  line := p.line + cs.count '\n'
  lineStart := if '\n' ∈ cs then p.offset + (cs.length - (lastLine cs).length) else p.lineStart

end Place

/-- The **place at an offset** of a text: past everything before it. -/
def placeAt (cs : List Char) (offset : Nat) : Place := Place.past {} (cs.take offset)

/-- The **line** of an offset, counted from one. -/
def lineAt (cs : List Char) (offset : Nat) : Nat := (cs.take offset).count '\n' + 1

/-- The **column** of an offset, counted from one. -/
def columnAt (cs : List Char) (offset : Nat) : Nat := (lastLine (cs.take offset)).length + 1

end RecordQuery
