import RecordQuery.CommandLine.Run
import RecordQuery.Proofs.Selector.Writing
import RecordQuery.Proofs.Session.Steps

/-! # A listing tells which parts it lists

The listing of parts can be taken apart again, though a literal may hold line feeds and whatever
else a listing consists of. From the left, each piece of it ends where a character stands that it
cannot hold itself: a word at a blank or at the end of its line, a literal at its closing quote. So
what stands behind a piece does not matter, and the lines come one after the other.

* `append_inj_of_stop`: a run of characters is known with anything behind it that stops the run.
* `Condition.text_append_inj`, `Part.listing_append_inj`: so is a condition, and a line.
* `CommandLine.linesFrom_inj`: so are the lines, if their parts can be written.
* `CommandLine.listing_unambiguous`: parts that were read are listed alike only if they are the
  same. -/

namespace RecordQuery

/-! ### Runs of characters -/

/-- **A run of characters** is known with anything behind it that starts with another character. -/
theorem append_inj_of_stop {f : Char → Bool} {cs ds s t : List Char} (hcs : ∀ c ∈ cs, f c)
    (hds : ∀ c ∈ ds, f c) (hs : ∀ c ∈ s.head?, f c = false) (ht : ∀ c ∈ t.head?, f c = false)
    (h : cs ++ s = ds ++ t) : cs = ds ∧ s = t := by
  obtain ⟨htake, hdrop⟩ := takeWhile_append_of_stop hcs hs
  obtain ⟨htake', hdrop'⟩ := takeWhile_append_of_stop hds ht
  rw [h] at htake hdrop
  exact ⟨htake.symm.trans htake', hdrop.symm.trans hdrop'⟩

/-- A character that is no part of a run stops it. -/
theorem stop_cons {f : Char → Bool} {c : Char} (hc : f c = false) (s : List Char) :
    ∀ x ∈ (c :: s).head?, f x = false := by
  rintro x ⟨⟩
  exact hc

/-! ### Conditions -/

/-- **A condition is known** with anything behind its closing quote. -/
theorem Condition.text_append_inj {c d : Condition} {s t : List Char} (hc : c.Writable)
    (hd : d.Writable) (h : c.text.toList ++ s = d.text.toList ++ t) : c = d ∧ s = t := by
  have hspelled : ∀ e : Condition, e.Writable → ∀ rest, e.text.toList ++ rest =
      e.property.toList ++ '=' :: '"' :: (e.value.toList ++ '"' :: rest) := by
    intro e he rest
    rw [Condition.text, show e.operator = "=" from he.supported]
    simp
  have hequals : isIdentifierChar '=' = false := by decide
  rw [hspelled c hc, hspelled d hd] at h
  obtain ⟨hproperty, hbehind⟩ := append_inj_of_stop hc.property_chars hd.property_chars
    (stop_cons hequals _) (stop_cons hequals _) h
  obtain ⟨hvalue, hrest⟩ := append_inj_of_stop (f := (· != '"'))
    (fun x hx => bne_iff_ne.mpr (hc.value_chars x hx))
    (fun x hx => bne_iff_ne.mpr (hd.value_chars x hx))
    (stop_cons rfl _) (stop_cons rfl _) (List.cons.inj (List.cons.inj hbehind).2).2
  rw [String.toList_inj] at hproperty hvalue
  have hoperator : c.operator = d.operator := hc.supported.trans hd.supported.symm
  have heq : c = d := by
    cases c
    cases d
    simp_all
  exact ⟨heq, (List.cons.inj hrest).2⟩

/-! ### Lines -/

theorem Kind.word_chars (k : Kind) : ∀ x ∈ k.word.toList, isWordChar x := by
  cases k <;> exact List.all_eq_true.mp (by decide)

/-- Kinds have different words. -/
theorem Kind.word_inj {k l : Kind} (h : k.word = l.word) : k = l := by
  revert h
  cases k <;> cases l <;> decide

namespace Part

/-- How a line **ends**: with the condition, if there is one. -/
def lineEnd : Option Condition → List Char
  | none => []
  | some c => ' ' :: ("condition=".toList ++ c.text.toList)

/-- **The end of a line is known** with anything behind the line. -/
theorem lineEnd_append_inj {c d : Option Condition} {s t : List Char} (hc : ∀ x ∈ c, x.Writable)
    (hd : ∀ x ∈ d, x.Writable) (h : lineEnd c ++ '\n' :: s = lineEnd d ++ '\n' :: t) :
    c = d ∧ s = t := by
  cases c with
  | none =>
    cases d with
    | none => exact ⟨rfl, (List.cons.inj h).2⟩
    | some d => exact absurd (List.cons.inj h).1 (by decide)
  | some c =>
    cases d with
    | none => exact absurd (List.cons.inj h).1 (by decide)
    | some d =>
      have hbehind : "condition=".toList ++ c.text.toList ++ '\n' :: s =
          "condition=".toList ++ d.text.toList ++ '\n' :: t := (List.cons.inj h).2
      rw [List.append_assoc, List.append_assoc] at hbehind
      obtain ⟨heq, hrest⟩ :=
        Condition.text_append_inj (hc c rfl) (hd d rfl) (List.append_cancel_left hbehind)
      exact ⟨congrArg some heq, (List.cons.inj hrest).2⟩

/-- The word for whether a part is direct. -/
def directWord (direct : Bool) : String := if direct then "true" else "false"

theorem directWord_chars (direct : Bool) : ∀ x ∈ (directWord direct).toList, isWordChar x := by
  cases direct <;> exact List.all_eq_true.mp (by decide)

theorem directWord_inj {a b : Bool} (h : directWord a = directWord b) : a = b := by
  revert h
  cases a <;> cases b <;> decide

/-- A line with its pieces in order. -/
theorem toList_listing_append (p : Part) (rest : List Char) :
    p.listing.toList ++ rest = "kind=".toList ++ (p.kind.word.toList ++
      ' ' :: ("value=".toList ++ (p.value.toList ++ ' ' :: ("direct=".toList ++
        ((directWord p.direct).toList ++ (lineEnd p.condition ++ rest)))))) := by
  obtain ⟨kind, value, direct, condition, source⟩ := p
  cases condition <;> simp [listing, lineEnd, directWord]

/-- **A line is known** with anything behind it: it tells all of a part but its source. -/
theorem listing_append_inj {p q : Part} {s t : List Char} (hp : p.Writable) (hq : q.Writable)
    (h : p.listing.toList ++ '\n' :: s = q.listing.toList ++ '\n' :: t) :
    { p with source := q.source } = q ∧ s = t := by
  have hblank : isWordChar ' ' = false := by decide
  have hline : ∀ (c : Option Condition) (rest : List Char),
      ∀ x ∈ (lineEnd c ++ '\n' :: rest).head?, isWordChar x = false := by
    intro c rest
    cases c with
    | none => exact stop_cons (by decide) _
    | some c => exact stop_cons hblank _
  rw [toList_listing_append, toList_listing_append] at h
  -- piece by piece from the left: what is behind a piece starts with a character that stops it
  obtain ⟨hkind, hvalues⟩ := append_inj_of_stop p.kind.word_chars q.kind.word_chars
    (stop_cons hblank _) (stop_cons hblank _) (List.append_cancel_left h)
  obtain ⟨hvalue, hflags⟩ := append_inj_of_stop hp.value_chars hq.value_chars (stop_cons hblank _)
    (stop_cons hblank _) (List.append_cancel_left (List.cons.inj hvalues).2)
  obtain ⟨hflag, hends⟩ := append_inj_of_stop (directWord_chars p.direct)
    (directWord_chars q.direct) (hline _ _) (hline _ _)
    (List.append_cancel_left (List.cons.inj hflags).2)
  obtain ⟨hcondition, hrest⟩ := lineEnd_append_inj hp.condition hq.condition hends
  rw [String.toList_inj] at hkind hvalue hflag
  have heq : { p with source := q.source } = q := by
    rw [Kind.word_inj hkind, hvalue, directWord_inj hflag, hcondition]
  exact ⟨heq, hrest⟩

end Part

/-! ### Listings -/

/-- Parts with what is written for them as their sources are the same if all else is. -/
theorem Part.eq_of_written {p q : Part} (hp : p.source = p.written) (hq : q.source = q.written)
    (h : { p with source := q.source } = q) : p = q := by
  -- what is written for a part does not depend on its source
  have hwritten : p.written = q.written :=
    show ({ p with source := q.source } : Part).written = q.written by rw [h]
  have hsource : p.source = q.source := by rw [hp, hq, hwritten]
  rw [← hsource] at h
  exact h

namespace CommandLine

/-- The **lines** for parts, of which the first has a number. -/
def linesFrom (number : Nat) : List Part → List Char
  | [] => []
  | p :: ps => ("  " ++ toString number ++ ": ").toList ++
      (p.listing.toList ++ '\n' :: linesFrom (number + 1) ps)

theorem linesFrom_eq_nil_iff {number : Nat} {ps : List Part} :
    linesFrom number ps = [] ↔ ps = [] := by
  cases ps <;> simp [linesFrom]

theorem toList_join_mapIdx (number : Nat) (ps : List Part) :
    (String.join (ps.mapIdx fun i p =>
      "  " ++ toString (number + i) ++ ": " ++ p.listing ++ "\n")).toList =
        linesFrom number ps := by
  induction ps generalizing number with
  | nil => rfl
  | cons p ps ih =>
    -- the index of a line starts again behind the first one, its number goes on
    have hrest := ih (number + 1)
    simp only [Nat.add_assoc number 1, Nat.add_comm 1] at hrest
    rw [List.mapIdx_cons, String.join_cons, String.toList_append, linesFrom, ← hrest]
    simp

/-- A listing is made of its lines, or says that there are none. -/
theorem toList_listing (ps : List Part) :
    (listing ps).toList = if ps = [] then "(no parts)\n".toList else linesFrom 0 ps := by
  have hlines := toList_join_mapIdx 0 ps
  simp only [Nat.zero_add] at hlines
  cases ps with
  | nil => rfl
  | cons p ps => rw [listing, if_neg (by simp), if_neg (List.cons_ne_nil p ps), hlines]

/-- **Lines are known** if their parts can be written. The induction is on the lines of one listing;
the numbers are the same on both sides. -/
theorem linesFrom_inj {number : Nat} {ps qs : List Part}
    (hps : ∀ p ∈ ps, p.Writable ∧ p.source = p.written)
    (hqs : ∀ q ∈ qs, q.Writable ∧ q.source = q.written)
    (h : linesFrom number ps = linesFrom number qs) : ps = qs := by
  induction ps generalizing number qs with
  | nil => exact (linesFrom_eq_nil_iff.mp h.symm).symm
  | cons p ps ih =>
    cases qs with
    | nil => exact linesFrom_eq_nil_iff.mp h
    | cons q qs =>
      obtain ⟨⟨hp, hsource⟩, hps⟩ := List.forall_mem_cons.mp hps
      obtain ⟨⟨hq, hsource'⟩, hqs⟩ := List.forall_mem_cons.mp hqs
      obtain ⟨hfirst, hrest⟩ := Part.listing_append_inj hp hq (List.append_cancel_left h)
      rw [Part.eq_of_written hsource hsource' hfirst, ih hps hqs hrest]

/-- What says that there are no parts is no line. -/
theorem noParts_ne_linesFrom (number : Nat) (ps : List Part) :
    "(no parts)\n".toList ≠ linesFrom number ps := by
  intro h
  have hhead := congrArg List.head? h
  cases ps <;> simp [linesFrom] at hhead

/-- **The listing of parts that were read tells them apart**: parts of two selectors are listed
alike only if they are the same, in their kinds, values, conditions and sources, and in whether they
are direct. This listing is what the command shows, less its control sequences. -/
theorem listing_unambiguous :
    (∀ verbose s ps, parse s = .ok ps → ∃ log, reportOf verbose (showParts s) =
      { stdout := Text.withoutControls (listing ps), stderr := log }) ∧
    ∀ s t ps qs, parse s = .ok ps → parse t = .ok qs → (listing ps = listing qs ↔ ps = qs) := by
  refine ⟨fun verbose s ps hparse => ?_, fun s t ps qs hps hqs => ⟨fun h => ?_, congrArg listing⟩⟩
  · obtain ⟨log, hlocator⟩ := Session.leads_parseLocator (w := {}) (Locator.parse_eq_ok hparse)
    have hshow : Session.Leads (showParts s) {} (.ok (Text.withoutControls (listing ps))) { log } :=
      hlocator.bind (Session.leads_pure _)
    refine ⟨shownLog verbose { log }, ?_⟩
    rw [reportOf, show (showParts s).run.run {} = _ from hshow]
  · have hps' := writable_of_parse hps
    have hqs' := writable_of_parse hqs
    have hlists := congrArg String.toList h
    rw [toList_listing, toList_listing] at hlists
    by_cases hp : ps = [] <;> by_cases hq : qs = []
    · rw [hp, hq]
    · rw [if_pos hp, if_neg hq] at hlists
      exact absurd hlists (noParts_ne_linesFrom 0 qs)
    · rw [if_neg hp, if_pos hq] at hlists
      exact absurd hlists.symm (noParts_ne_linesFrom 0 ps)
    · rw [if_neg hp, if_neg hq] at hlists
      exact linesFrom_inj hps' hqs' hlists

/-! ### A literal that looks like a line -/

/-- A part whose literal goes on like the listing of a second part. -/
def pretendingParts : List Part :=
  [{ kind := .id, value := "a",
     condition := some ⟨"x", "y\n  1: kind=name value=b direct=true condition=z=", "="⟩ }]

/-- Two parts, of which the second is listed nearly so. -/
def pretendedParts : List Part :=
  [{ kind := .id, value := "a", condition := some ⟨"x", "y", "="⟩ },
    { kind := .name, value := "b", direct := true, condition := some ⟨"z", "", "="⟩ }]

theorem parse_pretending :
    parse "#a[x=\"y\n  1: kind=name value=b direct=true condition=z=\"]" =
      .ok (pretendingParts.map Part.asWritten) ∧
    parse "#a[x=\"y\"]>b[z=\"\"]" = .ok (pretendedParts.map Part.asWritten) := by
  have hnil : ∀ c ∈ ([] : List Char), isBlank c := List.forall_mem_nil _
  have hone : ∀ behind, LaysOut behind [] [] := fun _ => .done [] hnil
  refine ⟨parse_of_laysOut (by decide) ?_, parse_of_laysOut (by decide) ?_⟩
  · exact .part [] rfl hnil (fun h => nomatch h) (hone true)
  · exact .part [] rfl hnil (fun h => nomatch h) (.child [] [] rfl hnil hnil (hone true))

/-- The two are listed in texts of two lines each, which are not the same. -/
theorem listing_unambiguous_pretending :
    parse "#a[x=\"y\n  1: kind=name value=b direct=true condition=z=\"]" =
      .ok (pretendingParts.map Part.asWritten) ∧
    parse "#a[x=\"y\"]>b[z=\"\"]" = .ok (pretendedParts.map Part.asWritten) ∧
    listing (pretendingParts.map Part.asWritten) ≠ listing (pretendedParts.map Part.asWritten) := by
  obtain ⟨hpretending, hpretended⟩ := parse_pretending
  refine ⟨hpretending, hpretended, fun h => ?_⟩
  have hsame := (listing_unambiguous.2 _ _ _ _ hpretending hpretended).mp h
  exact absurd (congrArg List.length hsame) (by decide)

end CommandLine

end RecordQuery
