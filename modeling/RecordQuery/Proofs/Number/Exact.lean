import Mathlib.Data.Rat.Cast.Order
import Mathlib.Tactic.FieldSimp
import Mathlib.Tactic.Positivity
import Mathlib.Tactic.Ring
import RecordQuery.Number.Shortest

/-! # Exact values of double-precision numbers

A finite word denotes a dyadic rational, and the integer that a number equals is read off its word
without rounding. The text of a number never looks like the text of an integer, since it has a point,
an exponent mark or a letter in it.

* `Double.toRat?`: the rational number that a word denotes.
* `Double.toInt?_eq_some_iff`: the integer that a number equals, as a rational number.
* `Double.text_ne_toString`: no number has the text of an integer. -/

namespace RecordQuery

namespace Double

/-! ### The denoted number -/

/-- The number `± m · 2 ^ e`. -/
def dyadic (negative : Bool) (m : ℕ) (e : ℤ) : ℚ :=
  (if negative then -1 else 1) * m * 2 ^ e

/-- The **exact value** of a number, the rational that its word denotes; the infinities and the
non-numbers have none. -/
def toRat? (x : Double) : Option ℚ :=
  match x.decode with
  | .finite negative m e => some (dyadic negative m e)
  | .infinite _ => none
  | .nan => none

/-- With a power that is no fraction, the number is an integer. -/
theorem dyadic_natCast (negative : Bool) (m k : ℕ) :
    dyadic negative m k = ((if negative then -(m * 2 ^ k : ℕ) else (m * 2 ^ k : ℕ) : ℤ) : ℚ) := by
  cases negative <;> simp [dyadic]

/-- With a fraction that divides the significand, the number is the quotient. -/
theorem dyadic_neg_of_dvd (negative : Bool) {m k : ℕ} (h : 2 ^ k ∣ m) :
    dyadic negative m (-k) =
      ((if negative then -(m / 2 ^ k : ℕ) else (m / 2 ^ k : ℕ) : ℤ) : ℚ) := by
  obtain ⟨c, rfl⟩ := h
  have hpos : 0 < 2 ^ k := Nat.two_pow_pos k
  rw [Nat.mul_div_cancel_left c hpos]
  cases negative <;> simp [dyadic] <;> field_simp

/-- With a fraction, the number is an integer **only** if the fraction divides the significand. -/
theorem dvd_of_dyadic_neg {negative : Bool} {m k : ℕ} {n : ℤ} (h : dyadic negative m (-k) = n) :
    2 ^ k ∣ m := by
  have hpos : (2 : ℚ) ^ k ≠ 0 := by positivity
  have hscaled : (if negative then -1 else 1 : ℚ) * m = n * 2 ^ k := by
    rw [← h, dyadic, zpow_neg, zpow_natCast, inv_mul_cancel_right₀ hpos]
  have hdvd : (2 ^ k : ℤ) ∣ m := by
    cases negative
    case false =>
      rw [if_neg nofun, one_mul, mul_comm] at hscaled
      exact ⟨n, mod_cast hscaled⟩
    case true =>
      rw [if_pos rfl, neg_one_mul, neg_eq_iff_eq_neg, ← neg_mul, mul_comm] at hscaled
      exact ⟨-n, mod_cast hscaled⟩
  exact mod_cast hdvd

/-- The integer that a number equals is **exactly** the integer that its word denotes. -/
theorem toInt?_eq_some_iff {x : Double} {n : ℤ} : x.toInt? = some n ↔ x.toRat? = some (n : ℚ) := by
  rw [toInt?, toRat?]
  cases x.decode with
  | infinite | nan => simp
  | finite negative m e =>
    simp only [Nat.pow_eq, Option.some_inj]
    -- the power is a whole number, or the fraction must divide the significand
    split
    case isTrue he =>
      obtain ⟨k, rfl⟩ := Int.eq_ofNat_of_zero_le he
      rw [Int.toNat_natCast, dyadic_natCast, Option.some_inj, Int.cast_inj]
    case isFalse he =>
      obtain ⟨k, rfl⟩ : ∃ k : ℕ, e = -k := ⟨(-e).toNat, by omega⟩
      rw [neg_neg, Int.toNat_natCast]
      split
      case isTrue hdvd =>
        rw [dyadic_neg_of_dvd negative (Nat.dvd_of_mod_eq_zero hdvd), Option.some_inj,
          Int.cast_inj]
      case isFalse hdvd =>
        exact iff_of_false nofun fun h => hdvd (Nat.mod_eq_zero_of_dvd (dvd_of_dyadic_neg h))

end Double

/-! ### Texts of integers -/

/-- A natural number is written with digits. -/
theorem isDigit_of_mem_repr {n : ℕ} {c : Char} (h : c ∈ n.repr.toList) : c.isDigit := by
  rw [Nat.toList_repr] at h
  exact Nat.isDigit_of_mem_toDigits (by decide) (by decide) h

/-- Different natural numbers are written differently. -/
theorem repr_nat_inj {m n : ℕ} (h : m.repr = n.repr) : m = n := by
  have hdigits : Nat.toDigits 10 m = Nat.toDigits 10 n := by
    rw [← Nat.toList_repr, ← Nat.toList_repr, h]
  rw [← Nat.ofDigitChars_ten_toDigits (n := m), hdigits, Nat.ofDigitChars_ten_toDigits]

/-- The text of an integer: that of a natural number, with a sign in front if it is negative. -/
theorem toString_int_eq (n : ℤ) :
    toString n = n.toNat.repr ∧ 0 ≤ n ∨ toString n = "-" ++ (-n).toNat.repr ∧ n < 0 := by
  rw [Int.toString_eq_repr, Int.repr_eq_if]
  split
  case isTrue hn => exact .inl ⟨rfl, hn⟩
  case isFalse hn => exact .inr ⟨rfl, by omega⟩

/-- An integer is written with digits, and with a sign in front. -/
theorem isDigit_of_mem_toString {n : ℤ} {c : Char} (h : c ∈ (toString n).toList) (hc : c ≠ '-') :
    c.isDigit := by
  obtain ⟨htext, -⟩ | ⟨htext, -⟩ := toString_int_eq n
  · exact isDigit_of_mem_repr (htext ▸ h)
  · rw [htext, String.toList_append, List.mem_append] at h
    exact isDigit_of_mem_repr (h.resolve_left (by simpa))

/-- **Different integers have different texts.** -/
theorem toString_int_inj {m n : ℤ} : toString m = toString n ↔ m = n := by
  refine ⟨fun h => ?_, fun h => h ▸ rfl⟩
  -- the text of a natural number has no sign, so both are negative or none is
  have hsign (k j : ℕ) : k.repr ≠ "-" ++ j.repr := fun hkj =>
    nomatch isDigit_of_mem_repr (c := '-') (by rw [hkj, String.toList_append]; exact .head _)
  obtain ⟨hm, hm'⟩ | ⟨hm, hm'⟩ := toString_int_eq m <;>
    obtain ⟨hn, hn'⟩ | ⟨hn, hn'⟩ := toString_int_eq n <;> rw [hm, hn] at h
  · have := repr_nat_inj h
    omega
  · exact absurd h (hsign _ _)
  · exact absurd h.symm (hsign _ _)
  · have := repr_nat_inj ((String.append_right_inj "-").mp h)
    omega

/-- A text with a character in it that is **no digit and no sign** is not that of an integer. -/
theorem ne_toString_of_mem {text : String} {c : Char} (h : c ∈ text.toList) (hsign : c ≠ '-')
    (hdigit : c.isDigit = false) (n : ℤ) : text ≠ toString n := by
  rintro rfl
  rw [isDigit_of_mem_toString h hsign] at hdigit
  exact nomatch hdigit

/-! ### Texts of numbers -/

namespace Double

/-- A positional text has a point. -/
theorem point_mem_positional (digits : List Char) (point : ℤ) : '.' ∈ positional digits point := by
  rw [positional]
  split <;> simp

/-- A scientific text has an exponent mark. -/
theorem mark_mem_scientific (digits : List Char) (exponent : ℤ) :
    'e' ∈ scientific digits exponent := by
  simp [scientific]

/-- A magnitude has a point or an exponent mark. -/
theorem mem_magnitude (m : ℕ) (e : ℤ) : '.' ∈ magnitude m e ∨ 'e' ∈ magnitude m e := by
  rw [magnitude]
  split
  case isTrue => exact .inl (by decide)
  case isFalse =>
    obtain ⟨digits, exponent⟩ := significantDigits m e
    dsimp only
    split
    case isTrue => exact .inl (point_mem_positional _ _)
    case isFalse => exact .inr (mark_mem_scientific _ _)

/-- The text of every number has a character in it that is no digit and no sign. -/
theorem exists_mem_text (x : Double) : ∃ c ∈ x.text.toList, c ≠ '-' ∧ c.isDigit = false := by
  rw [text]
  cases x.decode with
  | nan => exact ⟨'n', by decide⟩
  | infinite negative => cases negative <;> exact ⟨'i', by decide⟩
  | finite negative m e =>
    rw [String.toList_ofList]
    obtain h | h := mem_magnitude m e
    · exact ⟨'.', List.mem_append_right _ h, by decide⟩
    · exact ⟨'e', List.mem_append_right _ h, by decide⟩

/-- No number has the text of an **integer**. -/
theorem text_ne_toString (x : Double) (n : ℤ) : x.text ≠ toString n := by
  obtain ⟨c, hc, hsign, hdigit⟩ := x.exists_mem_text
  exact ne_toString_of_mem hc hsign hdigit n

end Double

end RecordQuery
