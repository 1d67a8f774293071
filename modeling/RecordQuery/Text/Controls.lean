/-! # Terminal controls

Text for a terminal may hold control sequences: an escape character, an opening bracket, characters
for numbers, characters for marks, and one character that ends the sequence. Text that does not go
to a terminal is written without them.

* `withoutControls`: a text without control sequences. -/

namespace RecordQuery.Text

/-- Whether a character may stand among the numbers of a control sequence. -/
def isControlNumber (c : Char) : Bool := '0' ≤ c && c ≤ '?'

/-- Whether a character may stand among the marks behind the numbers of a control sequence. -/
def isControlMark (c : Char) : Bool := ' ' ≤ c && c ≤ '/'

/-- Whether a character **ends** a control sequence. -/
def isControlEnd (c : Char) : Bool := '@' ≤ c && c ≤ '~'

/-- What follows a control sequence at the start of a text, if there is one. -/
def afterControl? : List Char → Option (List Char)
  | '\x1b' :: '[' :: cs =>
    match (cs.dropWhile isControlNumber).dropWhile isControlMark with
    | c :: rest => if isControlEnd c then some rest else none
    | [] => none
  | _ => none

theorem length_dropWhile_le {α : Type} (p : α → Bool) (xs : List α) :
    (xs.dropWhile p).length ≤ xs.length := (List.dropWhile_sublist p).length_le

theorem afterControl?_length {cs rest : List Char} (h : afterControl? cs = some rest) :
    rest.length < cs.length := by
  unfold afterControl? at h
  split at h
  · rename_i cs
    have hle := Nat.le_trans (length_dropWhile_le isControlMark (cs.dropWhile isControlNumber))
      (length_dropWhile_le isControlNumber cs)
    split at h
    · rename_i c tail htail
      split at h
      · cases h
        rw [htail] at hle
        simp only [List.length_cons] at hle ⊢
        omega
      · simp at h
    · simp at h
  · simp at h

/-- The characters of a text **without control sequences**. -/
def withoutControlChars (cs : List Char) : List Char :=
  match _h : afterControl? cs with
  | some rest => withoutControlChars rest
  | none => match cs with
    | [] => []
    | c :: rest => c :: withoutControlChars rest
termination_by cs.length
decreasing_by
  · exact afterControl?_length (by assumption)
  · simp

/-- A text **without control sequences**. -/
def withoutControls (s : String) : String := String.ofList (withoutControlChars s.toList)

end RecordQuery.Text
