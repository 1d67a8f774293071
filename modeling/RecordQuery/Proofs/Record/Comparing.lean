import RecordQuery.Proofs.Number.Exact
import RecordQuery.Record.Printed

/-! # Comparing numbers with the texts of integers

A value is compared with a literal by its text. For the texts of integers this is numeric equality:
an integer and a double-precision number match the literal of an integer exactly when they are that
integer, of any magnitude and however a number so large or so small would be printed, and a truth
value matches none.

* `Scalar.number?`: the number that a scalar is.
* `Store.scalarComparison_eq_toString_iff`: the text of a scalar is that of an integer exactly when
  the scalar is that number.
* `Store.matchesText_toString`: values and the literals of integers. -/

namespace RecordQuery

/-- The **number** that a scalar is: an integer, or the exact value of a double-precision number. A
truth value is none, and neither are absence, texts and byte sequences. -/
def Scalar.number? : Scalar → Option ℚ
  | .int n => some n
  | .double x => x.toRat?
  | .null | .bool _ | .text _ | .bytes _ => none

namespace Store

variable {σ : Store} {r : Ref} {s : Scalar}

/-- The text that a scalar is compared by is that of an integer **exactly** when the scalar is that
number, if it is not a text itself. -/
theorem scalarComparison_eq_toString_iff {s : Scalar} (hs : ∀ t, s ≠ .text t) (n : ℤ) :
    scalarComparison s = toString n ↔ s.number? = some (n : ℚ) := by
  cases s with
  | text t => exact absurd rfl (hs t)
  | null =>
    exact iff_of_false (ne_toString_of_mem (c := 'N') (by decide) (by decide) rfl n) nofun
  | bool b =>
    have hletter : 'e' ∈ (scalarComparison (.bool b)).toList := by cases b <;> decide
    exact iff_of_false (ne_toString_of_mem hletter (by decide) rfl n) nofun
  | bytes data =>
    have hletter : 'b' ∈ (Text.quotedBytes data).toList := by simp [Text.quotedBytes]
    exact iff_of_false (ne_toString_of_mem hletter (by decide) rfl n) nofun
  | int k =>
    show toString k = toString n ↔ some (k : ℚ) = some (n : ℚ)
    rw [toString_int_inj, Option.some_inj, Int.cast_inj]
  | double x =>
    show scalarComparison (.double x) = toString n ↔ x.toRat? = some (n : ℚ)
    rw [← Double.toInt?_eq_some_iff, scalarComparison]
    cases x.toInt? with
    | none => exact iff_of_false (x.text_ne_toString n) nofun
    | some k => rw [toString_int_inj, Option.some_inj]

/-- A scalar matches the text that it is compared by and no other, if it is not absent. -/
theorem matchesText_iff_of_look (h : σ.look r = .scalar s) (hs : s ≠ .null) (literal : String) :
    σ.matchesText r literal = true ↔ scalarComparison s = literal := by
  have hnull : σ.isNull r = false := by
    rw [isNull, h]
    exact beq_eq_false_iff_ne.mpr fun heq => hs (Object.scalar.inj heq)
  rw [matchesText, comparisonText, hnull, stringify, h, if_neg Bool.false_ne_true, beq_iff_eq,
    Option.some_inj]

/-- A number that is an integer matches **its text** and no other, however it is held. -/
theorem matchesText_iff_of_number {n : ℤ} (h : σ.look r = .scalar s)
    (hn : s.number? = some (n : ℚ)) (literal : String) :
    σ.matchesText r literal = true ↔ literal = toString n := by
  have hnull : s ≠ .null := by rintro rfl; exact nomatch hn
  have htext : ∀ t, s ≠ .text t := by rintro t rfl; exact nomatch hn
  rw [matchesText_iff_of_look h hnull, (scalarComparison_eq_toString_iff htext n).mpr hn, eq_comm]

/-- **Numeric coercion agrees with numeric equality.** Of the scalars that are no texts, those that
match the literal of an integer are exactly those that are that number, so a truth value matches
none. A number that is an integer matches no other literal, however it is held, and two numbers that
are integers match one literal only if they are one integer. -/
theorem matchesText_toString (h : σ.look r = .scalar s) (hs : ∀ t, s ≠ .text t) :
    (∀ n : ℤ, σ.matchesText r (toString n) = true ↔ s.number? = some (n : ℚ)) ∧
      (∀ (n : ℤ) (literal : String), s.number? = some (n : ℚ) →
        (σ.matchesText r literal = true ↔ literal = toString n)) ∧
      ∀ (m n : ℤ) (r' : Ref) (s' : Scalar) (literal : String), σ.look r' = .scalar s' →
        s.number? = some (m : ℚ) → s'.number? = some (n : ℚ) →
        σ.matchesText r literal = true → σ.matchesText r' literal = true → m = n := by
  refine ⟨fun n => ?_, fun n literal hn => matchesText_iff_of_number h hn literal,
    fun m n r' s' literal h' hm hn hmatch hmatch' => ?_⟩
  · by_cases hnull : s = .null
    · subst hnull
      rw [matchesText, comparisonText, isNull, h]
      exact iff_of_false nofun nofun
    · rw [matchesText_iff_of_look h hnull, scalarComparison_eq_toString_iff hs]
  · rw [matchesText_iff_of_number h hm] at hmatch
    rw [matchesText_iff_of_number h' hn] at hmatch'
    exact toString_int_inj.mp (hmatch.symm.trans hmatch')

end Store

/-- Ten to the sixteenth, the smallest power of ten that is printed with an exponent. -/
def tenToSixteenth : Double := ⟨0x4341C37937E08000⟩

/-- One and a half. -/
def oneAndHalf : Double := ⟨0x3FF8000000000000⟩

/-- A number that is printed with an exponent matches the literal of the integer that it is and not
its own printed form; a number between two integers matches the literal of none. -/
theorem matchesText_toString_printed :
    tenToSixteenth.text = "1e+16" ∧
      ({} : Store).matchesText (.fresh (.double tenToSixteenth)) "10000000000000000" = true ∧
      ¬ ({} : Store).matchesText (.fresh (.double tenToSixteenth)) "1e+16" = true ∧
      ∀ n : ℤ, ¬ ({} : Store).matchesText (.fresh (.double oneAndHalf)) (toString n) = true := by
  have hten : (Scalar.double tenToSixteenth).number? = some ((10 ^ 16 : ℤ) : ℚ) :=
    (Double.toInt?_eq_some_iff (x := tenToSixteenth)).mp (by decide +kernel)
  have hhalf (n : ℤ) : (Scalar.double oneAndHalf).number? ≠ some (n : ℚ) := fun h => by
    have hnone : oneAndHalf.toInt? = none := by decide +kernel
    exact nomatch hnone.symm.trans (Double.toInt?_eq_some_iff.mpr h)
  obtain ⟨hinteger, hliteral, -⟩ := Store.matchesText_toString (σ := {})
    (r := .fresh (.double tenToSixteenth)) rfl nofun
  obtain ⟨hfraction, -, -⟩ := Store.matchesText_toString (σ := {})
    (r := .fresh (.double oneAndHalf)) rfl nofun
  refine ⟨by decide +kernel, (hinteger (10 ^ 16)).mpr hten, fun h => ?_,
    fun n h => hhalf n ((hfraction n).mp h)⟩
  exact absurd ((hliteral _ _ hten).mp h) (by decide)

end RecordQuery
