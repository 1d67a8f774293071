import RecordQuery.Proofs.Selector.Splitting

/-! # Lines and columns of a text

A place in a text has a line and a column. They can be read off everything before the place, or be
counted on while the text is read token by token; both give the same, whatever the tokens are, since
reading on piece by piece counts what reading on at once counts.

* `StartsLastLine`: where the line at the end of a text starts.
* `exists_startsLastLine`: the last line reaches from there to the end.
* `Place.past_append`: it does not matter how the text is taken apart.
* `Place.behind`: a place that is counted on from piece to piece of a splitting.
* `line_placeAt`, `exists_column_placeAt`: what is counted is what is read off. -/

namespace RecordQuery

/-! ### The last line -/

/-- An offset **starts the line** of a text's end: no line feed comes after it, and one comes just
before it, unless it starts the text. -/
structure StartsLastLine (cs : List Char) (start : Nat) : Prop where
  /-- The offset is not behind the text. -/
  le_length : start ≤ cs.length
  /-- No line feed comes after it. -/
  not_mem_drop : '\n' ∉ cs.drop start
  /-- A line feed comes just before it. -/
  behind : start = 0 ∨ cs[start - 1]? = some '\n'

/-- What comes behind the last line feed of a text is its last line. -/
theorem lastLine_append {cs ds : List Char} (hds : '\n' ∉ ds) (hcs : ∀ c ∈ cs.getLast?, c = '\n') :
    lastLine (cs ++ ds) = ds := by
  have hrun : ∀ c ∈ ds.reverse, decide (c ≠ '\n') := by
    intro c hc
    exact decide_eq_true fun heq => hds (heq ▸ List.mem_reverse.mp hc)
  have hstop : ∀ c ∈ cs.reverse.head?, decide (c ≠ '\n') = false := by
    intro c hc
    rw [List.head?_reverse] at hc
    rw [hcs c hc]
    rfl
  rw [lastLine, List.reverse_append, (takeWhile_append_of_stop hrun hstop).1, List.reverse_reverse]

/-- A text without line feeds is one line. -/
theorem lastLine_of_not_mem {cs : List Char} (h : '\n' ∉ cs) : lastLine cs = cs :=
  @lastLine_append [] cs h fun _ hc => nomatch hc

/-- The last line starts behind the last line feed. -/
theorem lastLine_append_cons (cs : List Char) {ds : List Char} (h : '\n' ∉ ds) :
    lastLine (cs ++ '\n' :: ds) = ds := by
  rw [List.append_cons]
  exact lastLine_append h (by simp)

/-- A text has no line feed, or a last one. -/
theorem exists_lastLine (cs : List Char) :
    '\n' ∉ cs ∨ ∃ before after, cs = before ++ '\n' :: after ∧ '\n' ∉ after := by
  induction cs with
  | nil => exact .inl List.not_mem_nil
  | cons c cs ih =>
    rcases ih with hnot | ⟨before, after, rfl, hafter⟩
    · by_cases hc : c = '\n'
      · exact .inr ⟨[], cs, by rw [hc]; rfl, hnot⟩
      · exact .inl (by simp [Ne.symm hc, hnot])
    · exact .inr ⟨c :: before, after, rfl, hafter⟩

/-- **The last line is as long as the text is behind the start of this line.** -/
theorem exists_startsLastLine (cs : List Char) :
    ∃ start, StartsLastLine cs start ∧ (lastLine cs).length = cs.length - start := by
  rcases exists_lastLine cs with hnot | ⟨before, after, rfl, hafter⟩
  · exact ⟨0, ⟨Nat.zero_le _, by simpa using hnot, .inl rfl⟩, by rw [lastLine_of_not_mem hnot]; rfl⟩
  · have hlength : (before ++ '\n' :: after).length = before.length + 1 + after.length := by
      simp [Nat.add_assoc, Nat.add_comm 1]
    refine ⟨before.length + 1, ⟨?_, ?_, .inr ?_⟩, ?_⟩
    · omega
    · simpa using hafter
    · simp
    · rw [lastLine_append_cons before hafter, hlength]
      omega

/-! ### Counting while reading -/

namespace Place

@[simp] theorem past_nil (p : Place) : p.past [] = p := rfl

@[simp] theorem offset_past (p : Place) (cs : List Char) : (p.past cs).offset = p.offset + cs.length :=
  rfl

/-- **Reading on piece by piece** counts what reading on at once counts. -/
theorem past_append (p : Place) (cs ds : List Char) : p.past (cs ++ ds) = (p.past cs).past ds := by
  have hstart : (p.past (cs ++ ds)).lineStart = ((p.past cs).past ds).lineStart := by
    rcases exists_lastLine ds with hnot | ⟨before, after, rfl, hafter⟩
    · rcases exists_lastLine cs with hnot' | ⟨before, after, rfl, hafter⟩
      · simp [past, hnot, hnot']
      · have hrest : '\n' ∉ after ++ ds := by simp [hnot, hafter]
        have hjoin : before ++ '\n' :: after ++ ds = before ++ '\n' :: (after ++ ds) := by simp
        simp only [past, hjoin, lastLine_append_cons before hafter, lastLine_append_cons before hrest]
        simp [hnot]
        omega
    · have hjoin : cs ++ (before ++ '\n' :: after) = (cs ++ before) ++ '\n' :: after := by simp
      simp only [past, hjoin, lastLine_append_cons _ hafter]
      simp
      omega
  refine Place.ext ?_ ?_ hstart
  · simp [past, Nat.add_assoc]
  · simp [past, Nat.add_assoc]

/-- The counted column is the one that is read off the text. -/
theorem column_past_start (cs : List Char) : (past {} cs).column = (lastLine cs).length + 1 := by
  rcases exists_lastLine cs with hnot | ⟨before, after, rfl, hafter⟩
  · simp [past, column, hnot, lastLine_of_not_mem hnot]
  · simp [past, column, lastLine_append_cons before hafter]
    omega

/-- The place behind some pieces of a text. -/
def behind (pieces : List Piece) : Place := pieces.foldl (fun p x => p.past x.chars) {}

theorem behind_eq (pieces : List Piece) : behind pieces = past {} (spelled pieces) := by
  have hfrom : ∀ p : Place, pieces.foldl (fun p x => p.past x.chars) p = p.past (spelled pieces) := by
    induction pieces with
    | nil => intro p; simp [past]
    | cons x pieces ih => intro p; rw [List.foldl_cons, ih, spelled_cons, past_append]
  exact hfrom {}

/-- The place past the first pieces of a splitting, the first one and some of the others. -/
theorem past_take_spelled_cons (p : Place) (x : Piece) (rest : List Piece) (n : Nat) :
    p.past ((spelled (x :: rest)).take (x.chars.length + n)) =
      (p.past x.chars).past ((spelled rest).take n) := by
  rw [spelled_cons, List.take_length_add_append, past_append]

end Place

/-! ### The place at an offset -/

variable {cs : List Char} {offset : Nat}

theorem offset_placeAt (h : offset ≤ cs.length) : (placeAt cs offset).offset = offset := by
  rw [placeAt, Place.offset_past, List.length_take_of_le h]
  exact Nat.zero_add offset

theorem placeAt_append (cs ds : List Char) : placeAt (cs ++ ds) cs.length = Place.past {} cs := by
  rw [placeAt, List.take_left]

/-- There is **one line more than there are line feeds** before a place. -/
theorem line_placeAt (cs : List Char) (offset : Nat) :
    (placeAt cs offset).line = 1 + (cs.take offset).count '\n' := rfl

/-- **The column is counted from where the last line feed before a place ends.** -/
theorem exists_column_placeAt (h : offset ≤ cs.length) :
    ∃ start, StartsLastLine (cs.take offset) start ∧
      (placeAt cs offset).column = offset - start + 1 := by
  obtain ⟨start, hstart, hlast⟩ := exists_startsLastLine (cs.take offset)
  refine ⟨start, hstart, ?_⟩
  rw [placeAt, Place.column_past_start, hlast, List.length_take_of_le h]

end RecordQuery
