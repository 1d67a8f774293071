import RecordQuery.Proofs.Selector.Parsing

/-! # One selector behind another

Two selectors with blanks between them are parsed one after the other. No token of the first goes on
into the second, since a blank ends every token, and nothing of the first changes what follows it,
unless its last token is a combinator that waits for a part.

* `merge_append`: a splitting is merged piecewise where nothing is joined.
* `childNext_append_iff`, `redundant_append_iff`: when two splittings make a redundant one.
* `partsAfter_append`: the parts of two splittings.
* `EndsPending`: the last token of a text is a combinator.
* `parse_juxtaposed`: the parts of two selectors with blanks between them. -/

namespace RecordQuery

variable {xs ys : List Piece} {x : Piece}

theorem spelled_append (xs ys : List Piece) : spelled (xs ++ ys) = spelled xs ++ spelled ys :=
  List.flatMap_append

/-! ### The last token -/

theorem lastToken?_append (xs ys : List Piece) :
    lastToken? (xs ++ ys) = (lastToken? ys).or (lastToken? xs) := by
  rw [lastToken?, lastToken?, lastToken?, List.filterMap_append, List.getLast?_append]

theorem lastToken?_cons (x : Piece) (xs : List Piece) :
    lastToken? (x :: xs) = (lastToken? xs).or x.token? := by
  rw [← List.singleton_append, lastToken?_append]
  congr 1
  cases x <;> rfl

/-- Pieces that alike end in a combinator, or alike do not, are still alike with one more piece. -/
theorem lastToken?_append_congr
    (h : lastToken? xs = some .child ↔ lastToken? ys = some .child) (x : Piece) :
    lastToken? (xs ++ [x]) = some .child ↔ lastToken? (ys ++ [x]) = some .child := by
  rw [lastToken?_append, lastToken?_append, Option.or_eq_some_iff, Option.or_eq_some_iff, h]

/-- Only blanks have no last token. -/
theorem lastToken?_eq_none_iff : lastToken? xs = none ↔ ∀ x ∈ xs, x.token? = none := by
  rw [lastToken?, List.getLast?_eq_none_iff, List.filterMap_eq_nil_iff]

/-- Behind a part the last token is no combinator, unless a combinator follows the part. -/
theorem lastToken?_append_part_ne (before : List Piece) (t : PartText)
    (h : lastToken? xs ≠ some .child) :
    lastToken? (before ++ .token (.part t) :: xs) ≠ some .child := by
  rw [lastToken?_append, lastToken?_cons]
  cases hlast : lastToken? xs with
  | none => simp [Piece.token?]
  | some u =>
    rw [hlast] at h
    exact h

/-- Whether a token is a combinator. -/
def Token.isChild : Token → Bool
  | .part _ => false
  | .child => true

theorem map_isChild_eq_some_true_iff {t : Option Token} :
    t.map Token.isChild = some true ↔ t = some .child := by
  rcases t with _ | _ | _ <;> simp [Token.isChild]

/-- Attaching a piece keeps what the last token is, since parts are joined to a part. -/
theorem lastToken?_attach (x : Piece) (rest : List Piece) :
    (lastToken? (attach x rest)).map Token.isChild =
      (lastToken? (x :: rest)).map Token.isChild := by
  rcases attach_cases x rest with ⟨p, q, rest', rfl, rfl, -, -, h⟩ | ⟨h, -⟩
  · rw [h, lastToken?_cons, lastToken?_cons, lastToken?_cons]
    cases lastToken? rest' <;> rfl
  · rw [h]

/-- **Merging keeps what the last token is**, a combinator or a part. -/
theorem lastToken?_merge (pieces : List Piece) :
    (lastToken? (merge pieces)).map Token.isChild = (lastToken? pieces).map Token.isChild := by
  induction pieces with
  | nil => rfl
  | cons x pieces ih =>
    rw [merge_cons, lastToken?_attach, lastToken?_cons, lastToken?_cons, Option.map_or,
      Option.map_or, ih]

/-! ### Merging -/

/-- A piece that no word goes on is not joined with the piece before it. -/
theorem attach_of_head {rest : List Piece} (x : Piece) (h : ∀ y ∈ rest.head?, ¬ y.GoesOn) :
    attach x rest = x :: rest := by
  rcases attach_cases x rest with ⟨p, q, rest', -, rfl, -, hq, -⟩ | ⟨hattach, -⟩
  · exact absurd hq (h _ rfl)
  · exact hattach

/-- Attaching a piece looks at the next piece only. -/
theorem attach_append (x : Piece) (hxs : xs ≠ []) (ys : List Piece) :
    attach x (xs ++ ys) = attach x xs ++ ys := by
  obtain ⟨y, rest, rfl⟩ := List.exists_cons_of_ne_nil hxs
  -- only two parts are joined, and only if the second has no sigil
  cases x with
  | blank => rfl
  | token t =>
    cases y with
    | blank => cases t <;> rfl
    | token u =>
      cases t with
      | child => rfl
      | part p =>
        cases u with
        | child => rfl
        | part q =>
          rw [List.cons_append, attach, attach]
          split <;> rfl

/-- **A splitting is merged piecewise** where the second one does not go on a word. -/
theorem merge_append (xs : List Piece) (h : ∀ y ∈ (merge ys).head?, ¬ y.GoesOn) :
    merge (xs ++ ys) = merge xs ++ merge ys := by
  induction xs with
  | nil => rfl
  | cons x xs ih =>
    rw [List.cons_append, merge_cons, merge_cons, ih]
    by_cases hxs : merge xs = []
    · rw [hxs, List.nil_append, attach_of_head x h]
      rfl
    · exact attach_append x hxs (merge ys)

/-! ### Combinators -/

theorem childNext_nil : ¬ ChildNext [] := by
  rintro ⟨blanks, after, h, -⟩
  exact absurd h.symm (List.append_ne_nil_of_right_ne_nil _ (List.cons_ne_nil _ _))

theorem not_redundant_nil : ¬ Redundant [] := by
  rintro ⟨before, after, h, -⟩
  exact absurd h.symm (List.append_ne_nil_of_right_ne_nil _ (List.cons_ne_nil _ _))

/-- **A combinator is next** in one of two splittings, in the second one if the first is blank. -/
theorem childNext_append_iff :
    ChildNext (xs ++ ys) ↔ ChildNext xs ∨ (∀ x ∈ xs, x.token? = none) ∧ ChildNext ys := by
  induction xs with
  | nil => simp [childNext_nil]
  | cons x xs ih =>
    rw [List.cons_append, childNext_cons_iff, childNext_cons_iff, ih, List.forall_mem_cons]
    tauto

/-- **Two splittings make a redundant one** if one of them is, or if the last token of the first is
a combinator and a combinator is next in the second. -/
theorem redundant_append_iff :
    Redundant (xs ++ ys) ↔
      Redundant xs ∨ (lastToken? xs = some .child ∧ ChildNext ys) ∨ Redundant ys := by
  induction xs with
  | nil => simp [not_redundant_nil, lastToken?]
  | cons x xs ih =>
    rw [List.cons_append, redundant_cons_iff, redundant_cons_iff, ih, childNext_append_iff,
      lastToken?_cons, ← lastToken?_eq_none_iff]
    cases lastToken? xs with
    | none =>
      -- only blanks stand between the first piece and the second splitting
      cases x with
      | blank c hc => simp [Piece.token?]
      | token t => grind [Piece.token?]
    | some t => grind

/-! ### The parts -/

/-- The part that a piece is, if it is one, behind a combinator or not. -/
def Piece.parts (pending : Bool) : Piece → List Part
  | .token (.part p) => [p.toPart pending]
  | _ => []

/-- Cons reading of `partsAfter`: the part that the first piece is, and the parts behind it. -/
theorem partsAfter_cons (before : List Piece) (x : Piece) (rest : List Piece) :
    partsAfter before (x :: rest) =
      x.parts (lastToken? before = some .child) ++ partsAfter (before ++ [x]) rest := by
  cases x with
  | blank c hc => rfl
  | token t => cases t <;> rfl

/-- The parts depend on what stands before them only by the last token of it. -/
theorem partsAfter_congr {before before' : List Piece}
    (h : lastToken? before = some .child ↔ lastToken? before' = some .child) (pieces : List Piece) :
    partsAfter before pieces = partsAfter before' pieces := by
  induction pieces generalizing before before' with
  | nil => rfl
  | cons x rest ih =>
    rw [partsAfter_cons, partsAfter_cons, ih (lastToken?_append_congr h x), decide_eq_decide.mpr h]

/-- **The parts of two splittings**, the second behind the first. -/
theorem partsAfter_append (before xs ys : List Piece) :
    partsAfter before (xs ++ ys) = partsAfter before xs ++ partsAfter (before ++ xs) ys := by
  induction xs generalizing before with
  | nil => rw [List.append_nil]; rfl
  | cons x xs ih =>
    rw [List.cons_append, partsAfter_cons, partsAfter_cons, ih, List.append_assoc,
      List.append_assoc, List.singleton_append]

/-! ### Blanks -/

/-- Blank characters are the text of blank pieces. -/
theorem exists_blanks {gap : List Char} (h : ∀ c ∈ gap, isBlank c) :
    ∃ blanks : List Piece, spelled blanks = gap ∧ ∀ x ∈ blanks, x.token? = none := by
  induction gap with
  | nil => exact ⟨[], rfl, fun _ hx => absurd hx List.not_mem_nil⟩
  | cons c gap ih =>
    obtain ⟨hc, hgap⟩ := List.forall_mem_cons.mp h
    obtain ⟨blanks, hspelled, hblanks⟩ := ih hgap
    refine ⟨.blank c hc :: blanks, ?_, List.forall_mem_cons.mpr ⟨rfl, hblanks⟩⟩
    rw [spelled_cons, hspelled]
    rfl

theorem not_goesOn_of_blank (h : x.token? = none) : ¬ x.GoesOn := by
  cases x with
  | blank c hc => exact id
  | token t => cases h

/-- Behind blanks no word goes on. -/
theorem head_blanks_append {blanks pieces : List Piece} (h : ∀ x ∈ blanks, x.token? = none)
    (hpieces : blanks = [] → ∀ y ∈ pieces.head?, ¬ y.GoesOn) :
    ∀ y ∈ (blanks ++ pieces).head?, ¬ y.GoesOn := by
  cases blanks with
  | nil => exact hpieces rfl
  | cons b blanks =>
    rintro y ⟨⟩
    exact not_goesOn_of_blank (h b List.mem_cons_self)

theorem not_childNext_of_blanks {blanks : List Piece} (h : ∀ x ∈ blanks, x.token? = none) :
    ¬ ChildNext blanks := by
  rintro ⟨before, after, rfl, -⟩
  cases h (.token .child) (List.mem_append_right _ List.mem_cons_self)

theorem not_redundant_of_blanks {blanks : List Piece} (h : ∀ x ∈ blanks, x.token? = none) :
    ¬ Redundant blanks := by
  rintro ⟨before, after, rfl, -⟩
  cases h (.token .child) (List.mem_append_right _ List.mem_cons_self)

theorem merge_blanks_append {blanks : List Piece} (h : ∀ x ∈ blanks, x.token? = none)
    (pieces : List Piece) : merge (blanks ++ pieces) = blanks ++ merge pieces := by
  induction blanks with
  | nil => rfl
  | cons x blanks ih =>
    obtain ⟨hx, hblanks⟩ := List.forall_mem_cons.mp h
    rw [List.cons_append, merge_cons, ih hblanks, List.cons_append]
    rcases attach_cases x (blanks ++ merge pieces) with ⟨p, q, rest, rfl, -⟩ | ⟨hattach, -⟩
    · cases hx
    · exact hattach

theorem partsAfter_blanks {blanks : List Piece} (h : ∀ x ∈ blanks, x.token? = none)
    (before : List Piece) : partsAfter before blanks = [] := by
  induction blanks generalizing before with
  | nil => rfl
  | cons x blanks ih =>
    obtain ⟨hx, hblanks⟩ := List.forall_mem_cons.mp h
    rw [partsAfter_cons, ih hblanks]
    cases x with
    | blank c hc => rfl
    | token t => cases hx

/-! ### One text behind another -/

/-- A text **ends pending** when it can be split so that its last token is a combinator. -/
def EndsPending (s : String) : Prop :=
  ∃ pieces, spelled pieces = s.toList ∧ lastToken? pieces = some .child

/-- It does not matter **how the text is split**: two splittings of it are the same once they are
merged. -/
theorem endsPending_iff {pieces : List Piece} {s : String} (h : spelled pieces = s.toList) :
    EndsPending s ↔ lastToken? pieces = some .child := by
  refine ⟨?_, fun hlast => ⟨pieces, h, hlast⟩⟩
  rintro ⟨other, hother, hlast⟩
  have hmerge : merge other = merge pieces := by
    refine (maximal_merge other).eq_of_spelled_eq (maximal_merge pieces) ?_
    rw [spelled_merge, spelled_merge, hother, h]
  rw [← map_isChild_eq_some_true_iff, ← lastToken?_merge] at hlast ⊢
  rwa [← hmerge]

/-- A selector that is parsed has a splitting that is not redundant and lists its parts. -/
theorem exists_pieces_of_parse {s : String} {parts : List Part} (h : parse s = .ok parts) :
    ∃ pieces, spelled pieces = s.toList ∧ ¬ Redundant pieces ∧
      parts = partsAfter [] (merge pieces) := by
  rcases parse_cases s with ⟨-, _, herror⟩ | ⟨_, -, -, _, herror⟩ | ⟨pieces, hpieces, hnot, hparts⟩
  · exact nomatch h.symm.trans herror
  · exact nomatch h.symm.trans herror
  · rw [h, Except.ok.injEq] at hparts
    exact ⟨pieces, hpieces, hnot, hparts⟩

/-- The text of two splittings with blanks between them. -/
theorem spelled_append_gap {s₁ gap s₂ : String} {blanks : List Piece} (h₁ : spelled xs = s₁.toList)
    (hgap : spelled blanks = gap.toList) (h₂ : spelled ys = s₂.toList) :
    spelled (xs ++ (blanks ++ ys)) = (s₁ ++ gap ++ s₂).toList := by
  rw [spelled_append, spelled_append, h₁, hgap, h₂, String.toList_append, String.toList_append,
    List.append_assoc]

/-- **Blanks keep two splittings apart.** -/
theorem merge_append_blanks_append {blanks : List Piece} (h : ∀ x ∈ blanks, x.token? = none)
    (hne : blanks ≠ []) (xs ys : List Piece) :
    merge (xs ++ (blanks ++ ys)) = merge xs ++ (blanks ++ merge ys) := by
  have hhead : ∀ y ∈ (merge (blanks ++ ys)).head?, ¬ y.GoesOn := by
    rw [merge_blanks_append h]
    exact head_blanks_append h fun hnil => absurd hnil hne
  rw [merge_append xs hhead, merge_blanks_append h]

/-- The parts behind blanks depend on the last token before them. -/
theorem partsAfter_append_blanks_append {blanks : List Piece} (h : ∀ x ∈ blanks, x.token? = none)
    (xs ys : List Piece) :
    partsAfter [] (xs ++ (blanks ++ ys)) = partsAfter [] xs ++ partsAfter xs ys := by
  have hlast : lastToken? ([] ++ xs ++ blanks) = some .child ↔ lastToken? xs = some .child := by
    rw [List.nil_append, lastToken?_append, lastToken?_eq_none_iff.mpr h, Option.none_or]
  rw [partsAfter_append, partsAfter_append, partsAfter_blanks h, List.nil_append,
    partsAfter_congr hlast]

theorem lastToken?_merge_eq_child_iff (pieces : List Piece) :
    lastToken? (merge pieces) = some .child ↔ lastToken? pieces = some .child := by
  rw [← map_isChild_eq_some_true_iff, lastToken?_merge, map_isChild_eq_some_true_iff]

/-- **Two selectors with blanks between them** have the parts of one and then those of the other, if
the first does not end with a combinator that waits for a part. -/
theorem parse_juxtaposed {s₁ gap s₂ : String} {parts₁ parts₂ : List Part}
    (h₁ : parse s₁ = .ok parts₁) (h₂ : parse s₂ = .ok parts₂) (hend : ¬ EndsPending s₁)
    (hgap : ∀ c ∈ gap.toList, isBlank c) (hne : gap.toList ≠ []) :
    parse (s₁ ++ gap ++ s₂) = .ok (parts₁ ++ parts₂) := by
  obtain ⟨xs, hxs, hxsnot, rfl⟩ := exists_pieces_of_parse h₁
  obtain ⟨ys, hys, hysnot, rfl⟩ := exists_pieces_of_parse h₂
  obtain ⟨blanks, hspelled, hblanks⟩ := exists_blanks hgap
  have hlast : lastToken? xs ≠ some .child := fun h => hend ⟨xs, hxs, h⟩
  have hnot : ¬ Redundant (xs ++ (blanks ++ ys)) := by
    have hnone : lastToken? blanks = none := lastToken?_eq_none_iff.mpr hblanks
    rw [redundant_append_iff, redundant_append_iff, hnone]
    simp [hxsnot, hysnot, hlast, not_redundant_of_blanks hblanks]
  have hbefore : lastToken? (merge xs) = some .child ↔ lastToken? ([] : List Piece) = some .child := by
    rw [lastToken?_merge_eq_child_iff]
    exact iff_of_false hlast (by simp [lastToken?])
  have hapart : blanks ≠ [] := by
    rintro rfl
    exact hne hspelled.symm
  rw [parse_of_not_redundant (spelled_append_gap hxs hspelled hys) hnot,
    merge_append_blanks_append hblanks hapart, partsAfter_append_blanks_append hblanks,
    partsAfter_congr hbefore]

end RecordQuery
