/-! # Double-precision numbers

A binary64 number is held as its 64-bit word and understood exactly: a finite word denotes
`± m · 2 ^ e` for a natural number `m`. No rounding arithmetic is involved anywhere but in
`ofScaled`, which reads a decimal.

* `Double.decode`: what a word denotes.
* `Double.toInt?`: the integer that a number equals, if there is one.
* `Double.ofScaled`: the nearest number to `± m · 10 ^ e`, a tie going to the even word. -/

namespace RecordQuery

/-- A **double**: a number in binary64, as its word. -/
structure Double where
  /-- The word: sign bit, eleven exponent bits, fifty-two fraction bits. -/
  bits : UInt64
deriving DecidableEq, Repr, Inhabited, Hashable

/-- What a word **denotes**. -/
inductive Decoded
  /-- The number `± significand · 2 ^ exponent`. -/
  | finite (negative : Bool) (significand : Nat) (exponent : Int)
  /-- An infinity. -/
  | infinite (negative : Bool)
  /-- No number. -/
  | nan
deriving DecidableEq, Repr

namespace Double

/-- Whether the sign bit is set. -/
def isNegative (x : Double) : Bool := Nat.pow 2 63 ≤ x.bits.toNat

/-- The eleven exponent bits. -/
def exponentBits (x : Double) : Nat := x.bits.toNat / Nat.pow 2 52 % Nat.pow 2 11

/-- The fifty-two fraction bits. -/
def fractionBits (x : Double) : Nat := x.bits.toNat % Nat.pow 2 52

/-- **Decoding** a word: an exponent field of all ones marks the infinities and the non-numbers, one
of all zeros a number without the hidden bit. -/
def decode (x : Double) : Decoded :=
  if x.exponentBits = 2047 then
    if x.fractionBits = 0 then .infinite x.isNegative else .nan
  else if x.exponentBits = 0 then .finite x.isNegative x.fractionBits (-1074)
  else .finite x.isNegative (Nat.pow 2 52 + x.fractionBits) (x.exponentBits - 1075)

/-- Positive zero. -/
def zero : Double := ⟨0⟩

/-- The word of an infinity. -/
def infinity (negative : Bool) : Double :=
  ⟨if negative then 0xFFF0000000000000 else 0x7FF0000000000000⟩

/-- The word of a non-number. -/
def nan : Double := ⟨0x7FF8000000000000⟩

/-- The **integer** that a number equals, if there is one; both zeros equal the integer zero. -/
def toInt? (x : Double) : Option Int :=
  match x.decode with
  | .finite negative m e =>
    if 0 ≤ e then
      let n : Int := (m * Nat.pow 2 e.toNat : Nat)
      some (if negative then -n else n)
    else if m % Nat.pow 2 (-e).toNat = 0 then
      let n : Int := (m / Nat.pow 2 (-e).toNat : Nat)
      some (if negative then -n else n)
    else none
  | _ => none

/-- Whether the number is a zero of either sign. -/
def isZero (x : Double) : Bool :=
  match x.decode with
  | .finite _ m _ => m == 0
  | _ => false

/-- **Numeric equality**: the zeros are equal and a non-number equals nothing; otherwise equal words
mean equal numbers. -/
def equals (x y : Double) : Bool :=
  match x.decode, y.decode with
  | .nan, _ => false
  | _, .nan => false
  | _, _ => x == y || (x.isZero && y.isZero)

/-- The word of the magnitude nearest to `num / den`, a tie going to the even word. The scale is
chosen so that the quotient has 53 bits, or fewer at the lowest exponent; a carry out of the
significand moves into the exponent field by itself. -/
def roundRatio (num den : Nat) : Nat :=
  let scaled (k : Int) : Nat × Nat :=
    if 0 ≤ k then (num, den * Nat.pow 2 k.toNat) else (num * Nat.pow 2 (-k).toNat, den)
  let estimate : Int := num.log2 - den.log2 - 53
  -- at the estimated scale the quotient has 53 or 54 bits
  let k : Int :=
    let (n, d) := scaled estimate
    if n / d < Nat.pow 2 53 then estimate else estimate + 1
  -- below the normal range the scale is fixed and bits are lost instead
  let k := max k (-1074)
  let (n, d) := scaled k
  let quotient := n / d
  let remainder := n % d
  let rounded :=
    if d < 2 * remainder || (2 * remainder = d && quotient % 2 = 1) then quotient + 1 else quotient
  rounded + (k + 1074).toNat * Nat.pow 2 52

/-- The double nearest to `± m · 10 ^ e`. Exponents far outside the range give zero or infinity
without forming the power. -/
def ofScaled (negative : Bool) (m : Nat) (e : Int) : Double :=
  let sign : Nat := if negative then Nat.pow 2 63 else 0
  let size : Int := (Nat.toDigits 10 m).length + e
  if m = 0 || size < -330 then ⟨UInt64.ofNat sign⟩
  else if 310 < size then infinity negative
  else
    let word :=
      if 0 ≤ e then roundRatio (m * Nat.pow 10 e.toNat) 1 else roundRatio m (Nat.pow 10 (-e).toNat)
    if 2047 * Nat.pow 2 52 ≤ word then infinity negative else ⟨UInt64.ofNat (sign + word)⟩

end Double

end RecordQuery
