import Mathlib.Data.List.Basic
import RecordQuery.Selector.Parse

/-! # Scanners read what is written

Each scanner of the selector language reads back the text that it is meant for, whatever follows: a
condition is read to its closing bracket, a part is read as far as its word goes on, and the text of
a part that was read is taken apart into the same part again.

* `scanCondition_chars_append`: a condition is read back.
* `scanPart_of_some`, `scanPart_of_none`: what is read where a part text stands.
* `scanPart_chars_append_iff`: when a part text is read back with something behind it.
* `scanPart_append_iff_longest`: what is read is the longest part text that fits.
* `buildPart_chars`: the text of a part always has the form of a part. -/

namespace RecordQuery

/-! ### Characters -/

theorem isWordChar_ne {c : Char} (h : isWordChar c) : c ≠ '#' ∧ c ≠ '.' ∧ c ≠ '[' := by
  refine ⟨?_, ?_, ?_⟩ <;> (rintro rfl; exact absurd h (by decide))

theorem isBlank_ne {c : Char} (h : isBlank c) :
    c ≠ '#' ∧ c ≠ '.' ∧ c ≠ '>' ∧ c ≠ '[' ∧ isWordChar c = false := by
  simp only [isBlank, Bool.or_eq_true, decide_eq_true_eq] at h
  rcases h with (((rfl | rfl) | rfl) | rfl) | rfl <;> decide

/-- No run of characters is at the start of a text where another character stands. -/
theorem takeWhile_of_stop {f : Char → Bool} {cs : List Char} (h : ∀ c ∈ cs.head?, f c = false) :
    cs.takeWhile f = [] ∧ cs.dropWhile f = cs := by
  cases cs with
  | nil => exact ⟨rfl, rfl⟩
  | cons c cs =>
    have hc : f c = false := h c rfl
    rw [List.takeWhile_cons, List.dropWhile_cons, hc]
    exact ⟨rfl, rfl⟩

/-- The run of characters at the start of a text ends where another character stands. -/
theorem takeWhile_append_of_stop {f : Char → Bool} {cs ds : List Char} (hcs : ∀ c ∈ cs, f c)
    (hds : ∀ c ∈ ds.head?, f c = false) :
    (cs ++ ds).takeWhile f = cs ∧ (cs ++ ds).dropWhile f = ds := by
  obtain ⟨htake, hdrop⟩ := takeWhile_of_stop hds
  rw [List.takeWhile_append_of_pos hcs, List.dropWhile_append_of_pos hcs, htake, hdrop]
  exact ⟨List.append_nil cs, rfl⟩

/-! ### Conditions -/

/-- **A condition is read back**, whatever follows it. -/
theorem scanCondition_chars_append (c : ConditionText) (rest : List Char) :
    scanCondition (c.chars ++ rest) = some (c, rest) := by
  obtain ⟨property, literal, hne, hproperty, hliteral⟩ := c
  have hname : ∀ ds, (property ++ '=' :: ds).takeWhile isIdentifierChar = property ∧
      (property ++ '=' :: ds).dropWhile isIdentifierChar = '=' :: ds := fun ds =>
    takeWhile_append_of_stop hproperty fun c hc => by cases hc; rfl
  have hquoted : ∀ ds, (literal ++ '"' :: ds).takeWhile (fun c => !decide (c = '"')) = literal ∧
      (literal ++ '"' :: ds).dropWhile (fun c => !decide (c = '"')) = '"' :: ds := fun ds =>
    takeWhile_append_of_stop (fun c hc => by simpa using hliteral c hc) fun c hc => by
      cases hc; rfl
  simp [ConditionText.chars, scanCondition, hname, hquoted, hne]

/-- What does not start with a bracket has no condition at its start. -/
theorem scanOptional_of_head {cs : List Char} (h : ∀ c ∈ cs.head?, c ≠ '[') :
    scanOptional cs = (none, cs) := by
  cases cs with
  | nil => rfl
  | cons c cs =>
    have hc : c ≠ '[' := h c rfl
    have hnone : scanCondition (c :: cs) = none := by
      unfold scanCondition
      split
      · rename_i heq
        exact absurd (List.cons.inj heq).1 hc
      · rfl
    rw [scanOptional, hnone]

theorem scanOptional_bracketed_append (c : ConditionText) (rest : List Char) :
    scanOptional (c.chars ++ rest) = (some c, rest) := by
  rw [scanOptional, scanCondition_chars_append]

/-! ### Parts -/

theorem PartText.ext_of {p q : PartText} (hkind : p.kind = q.kind) (hword : p.word = q.word)
    (hcondition : p.condition = q.condition) : p = q := by
  cases p
  cases q
  cases hkind
  cases hword
  cases hcondition
  rfl

/-- What does not start with a mark is read as a name. -/
theorem scanSigil_of_ne {c : Char} (hid : c ≠ '#') (hclass : c ≠ '.') (cs : List Char) :
    scanSigil (c :: cs) = (.name, c :: cs) := by
  unfold scanSigil
  split
  · rename_i heq
    exact absurd (List.cons.inj heq).1 hid
  · rename_i heq
    exact absurd (List.cons.inj heq).1 hclass
  · rfl

/-- The mark of a kind is split off a word. -/
theorem scanSigil_of_word (kind : Kind) {c : Char} (hc : isWordChar c) (cs : List Char) :
    scanSigil (kind.sigil ++ c :: cs) = (kind, c :: cs) := by
  cases kind with
  | id => rfl
  | className => rfl
  | name =>
    obtain ⟨hid, hclass, -⟩ := isWordChar_ne hc
    exact scanSigil_of_ne hid hclass cs

/-- The sigil of a part text is split off. -/
theorem scanSigil_chars_append (p : PartText) (rest : List Char) :
    scanSigil (p.chars ++ rest) = (p.kind, p.word ++ (PartText.bracketed p.condition ++ rest)) := by
  obtain ⟨c, word, hword⟩ := List.exists_cons_of_ne_nil p.word_ne_nil
  have hc : isWordChar c := p.word_chars c (hword ▸ List.mem_cons_self)
  rw [PartText.chars, hword, List.append_assoc, List.append_assoc, List.cons_append]
  exact scanSigil_of_word p.kind hc _

/-- Where a text goes on from a word, the word is taken as far as its characters go. -/
theorem scanPart_of_sigil {cs : List Char} {kind : Kind} {word body : List Char}
    (hsigil : scanSigil cs = (kind, word ++ body)) (hne : word ≠ [])
    (hword : ∀ c ∈ word, isWordChar c) :
    ∃ q : PartText, scanPart cs = some (q, (scanOptional (body.dropWhile isWordChar)).2) ∧
      q.kind = kind ∧ q.word = word ++ body.takeWhile isWordChar ∧
      q.condition = (scanOptional (body.dropWhile isWordChar)).1 := by
  have htake : (word ++ body).takeWhile isWordChar = word ++ body.takeWhile isWordChar :=
    List.takeWhile_append_of_pos hword
  have hdrop : (word ++ body).dropWhile isWordChar = body.dropWhile isWordChar :=
    List.dropWhile_append_of_pos hword
  have hne' : (word ++ body).takeWhile isWordChar ≠ [] := by
    rw [htake]
    exact List.append_ne_nil_of_left_ne_nil hne _
  unfold scanPart
  simp only [hsigil, hdrop]
  rw [dif_neg hne']
  exact ⟨_, rfl, rfl, htake, rfl⟩

/-- **A part text with a condition is read back**, whatever follows it. -/
theorem scanPart_of_some {p : PartText} {c : ConditionText} (hp : p.condition = some c)
    (rest : List Char) : scanPart (p.chars ++ rest) = some (p, rest) := by
  have hsigil := scanSigil_chars_append p rest
  obtain ⟨q, hq, hkind, hword, hcondition⟩ :=
    scanPart_of_sigil hsigil p.word_ne_nil p.word_chars
  have hbracket : PartText.bracketed p.condition ++ rest = c.chars ++ rest := by
    rw [hp, PartText.bracketed]
  have hstop : (c.chars ++ rest).takeWhile isWordChar = [] ∧
      (c.chars ++ rest).dropWhile isWordChar = c.chars ++ rest :=
    takeWhile_of_stop fun d hd => by cases hd; rfl
  rw [hbracket, hstop.2, scanOptional_bracketed_append] at hq hcondition
  rw [hbracket, hstop.1, List.append_nil] at hword
  rw [hq, PartText.ext_of hkind hword (hcondition.trans hp.symm)]

/-- **A part text without a condition** is read together with the word characters behind it and with
the condition that may follow these. -/
theorem scanPart_of_none {p : PartText} (hp : p.condition = none) (rest : List Char) :
    ∃ q : PartText, scanPart (p.chars ++ rest) =
        some (q, (scanOptional (rest.dropWhile isWordChar)).2) ∧
      q.kind = p.kind ∧ q.word = p.word ++ rest.takeWhile isWordChar ∧
      q.condition = (scanOptional (rest.dropWhile isWordChar)).1 := by
  have hsigil := scanSigil_chars_append p rest
  rw [hp, PartText.bracketed, List.nil_append] at hsigil
  exact scanPart_of_sigil hsigil p.word_ne_nil p.word_chars

/-- **A part text is read back** exactly if it has a condition, or if what follows it neither goes on
its word nor is a condition. -/
theorem scanPart_chars_append_iff {p : PartText} {rest : List Char} :
    scanPart (p.chars ++ rest) = some (p, rest) ↔
      (p.condition = none → rest.takeWhile isWordChar = [] ∧ (scanOptional rest).1 = none) := by
  have hrest := List.takeWhile_append_dropWhile (p := isWordChar) (l := rest)
  constructor
  · intro h hp
    obtain ⟨q, hq, -, hword, hcondition⟩ := scanPart_of_none hp rest
    rw [h] at hq
    obtain ⟨rfl, -⟩ := Prod.mk.inj (Option.some.inj hq)
    -- the word that is read is the part's own word, so none of what follows belongs to it
    have hnil : rest.takeWhile isWordChar = [] := List.self_eq_append_right.mp hword
    rw [hnil, List.nil_append] at hrest
    rw [hrest] at hcondition
    exact ⟨hnil, hcondition.symm.trans hp⟩
  · intro h
    cases hp : p.condition with
    | some c => exact scanPart_of_some hp rest
    | none =>
      obtain ⟨hnil, hnone⟩ := h hp
      obtain ⟨q, hq, hkind, hword, hcondition⟩ := scanPart_of_none hp rest
      have hend := scanOptional_append rest
      rw [hnil, List.nil_append] at hrest
      rw [hnone, PartText.bracketed, List.nil_append] at hend
      rw [hrest, ← hend] at hq
      rw [hnil, List.append_nil] at hword
      rw [hrest, hnone] at hcondition
      rw [hq, PartText.ext_of hkind hword (hcondition.trans hp.symm)]

/-- Part texts with the same characters are the same. -/
theorem PartText.eq_of_chars_eq {p q : PartText} (h : p.chars = q.chars) : p = q := by
  have hread : ∀ r : PartText, scanPart (r.chars ++ []) = some (r, []) := fun r =>
    scanPart_chars_append_iff.mpr fun _ => ⟨rfl, rfl⟩
  have hp := hread p
  rw [h, hread q] at hp
  cases hp
  rfl

/-- A part is read wherever a part text fits, and **no part text that fits is longer**. -/
theorem scanPart_longest {cs : List Char} {q : PartText} (hq : q.chars <+: cs) :
    ∃ p rest, scanPart cs = some (p, rest) ∧ q.chars.length ≤ p.chars.length := by
  obtain ⟨rest, rfl⟩ := hq
  cases hcondition : q.condition with
  | some c => exact ⟨q, rest, scanPart_of_some hcondition rest, Nat.le_refl _⟩
  | none =>
    obtain ⟨p, hp, hkind, hword, -⟩ := scanPart_of_none hcondition rest
    refine ⟨p, _, hp, ?_⟩
    rw [PartText.chars, PartText.chars, hcondition, hkind, hword, PartText.bracketed]
    simp only [List.length_append, List.length_nil]
    omega

/-- **What is read is the longest**: a part text is read from a text that it starts exactly if no
longer part text starts it. -/
theorem scanPart_append_iff_longest {p : PartText} {rest : List Char} :
    scanPart (p.chars ++ rest) = some (p, rest) ↔
      ∀ q : PartText, q.chars <+: p.chars ++ rest → q.chars.length ≤ p.chars.length := by
  constructor
  · intro hp q hq
    obtain ⟨p', rest', hp', hle⟩ := scanPart_longest hq
    rw [hp] at hp'
    cases hp'
    exact hle
  · intro hlongest
    obtain ⟨q, rest', hq, hle⟩ := scanPart_longest (List.prefix_append p.chars rest)
    -- both part texts start the same text and neither is longer, so they are the same
    have hcs := scanPart_append hq
    have hge := hlongest q (hcs ▸ List.prefix_append q.chars rest')
    obtain ⟨hchars, hrest⟩ := List.append_inj hcs (Nat.le_antisymm hle hge)
    rw [hq, PartText.eq_of_chars_eq hchars, hrest]

/-! ### From the text of a part to the part -/

/-- The **part** that a part text stands for. -/
def PartText.toPart (p : PartText) (direct : Bool) : Part where
  kind := p.kind
  value := String.ofList p.word
  direct := direct
  condition := p.condition.map ConditionText.toCondition
  source := String.ofList p.chars

/-- A word with the condition behind it is taken apart again. -/
theorem matchBody_bracketed {word : List Char} (hne : word ≠ []) (hword : ∀ c ∈ word, isWordChar c)
    (condition : Option ConditionText) :
    matchBody (word ++ PartText.bracketed condition) = some (word, condition) := by
  have hstop : ∀ c ∈ (PartText.bracketed condition).head?, isWordChar c = false := by
    intro c hc
    cases condition with
    | none => cases hc
    | some condition => cases hc; rfl
  obtain ⟨htake, hdrop⟩ := takeWhile_append_of_stop hword hstop
  rw [matchBody, htake, hdrop, if_neg hne]
  cases condition with
  | none => rfl
  | some c =>
    have hc := scanCondition_chars_append c []
    rw [List.append_nil] at hc
    simp only [PartText.bracketed]
    split
    · rename_i hnil
      exact absurd hnil (List.cons_ne_nil _ _)
    · rw [hc]

/-- **The text of a part always has the form of a part**: both readings of it agree. -/
theorem buildPart_chars (p : PartText) (direct : Bool) :
    buildPart p.chars direct = .ok (p.toPart direct) := by
  have hsigil := scanSigil_chars_append p []
  rw [List.append_nil, List.append_nil] at hsigil
  rw [buildPart, hsigil, matchBody_bracketed p.word_ne_nil p.word_chars]
  rfl

end RecordQuery
