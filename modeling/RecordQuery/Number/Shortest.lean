import RecordQuery.Number.Double

/-! # Shortest decimals

The fewest digits that read back as the same double. A finite non-zero double stands for all reals
that round to it, an interval around its exact value; the shortest decimal is the coarsest decimal
grid with a point in that interval, and of two such points the nearer one.

* `Interval`: the reals that round to a double, in exact integers over a common scale.
* `shortest`: the digits and the decimal exponent.
* `Double.text`: the written number, positional between `10 ^ -4` and `10 ^ 16`. -/

namespace RecordQuery

/-- A **rounding interval** over a common denominator: a value and the reals that round to it. -/
structure Interval where
  /-- The lower end, times `scale`. -/
  low : Nat
  /-- The exact value, times `scale`. -/
  value : Nat
  /-- The upper end, times `scale`. -/
  high : Nat
  /-- The common denominator. -/
  scale : Nat
  /-- Whether the ends themselves round to the value. -/
  closed : Bool

namespace Interval

/-- The reals that round to `m · 2 ^ e`: half the distance to either neighbour. Below a power of two
the neighbour is nearer, unless the exponent is already the lowest. -/
def ofBinary (m : Nat) (e : Int) : Interval :=
  let lower := if m = Nat.pow 2 52 && -1074 < e then 1 else 2
  let up := if 0 ≤ e then Nat.pow 2 e.toNat else 1
  let down := if 0 ≤ e then 1 else Nat.pow 2 (-e).toNat
  { low := (4 * m - lower) * up, value := 4 * m * up, high := (4 * m + 2) * up,
    scale := 4 * down, closed := m % 2 = 0 }

/-- Whether the decimal `digits · 10 ^ k` lies in the interval. -/
def contains (i : Interval) (digits : Nat) (k : Int) : Bool :=
  let point := if 0 ≤ k then digits * Nat.pow 10 k.toNat * i.scale else digits * i.scale
  let unit := if 0 ≤ k then 1 else Nat.pow 10 (-k).toNat
  if i.closed then i.low * unit ≤ point && point ≤ i.high * unit
  else i.low * unit < point && point < i.high * unit

/-- The value's lower neighbour on the grid of step `10 ^ k`, and twice its distance to the value
beside the step, both over one denominator. -/
def below (i : Interval) (k : Int) : Nat × Nat × Nat :=
  let value := if 0 ≤ k then i.value else i.value * Nat.pow 10 (-k).toNat
  let step := if 0 ≤ k then i.scale * Nat.pow 10 k.toNat else i.scale
  (value / step, 2 * (value % step), step)

/-- The point of the grid of step `10 ^ k` that lies in the interval, the nearer of two, and of two
equally near the even one. -/
def onGrid (i : Interval) (k : Int) : Option Nat :=
  let (floor, twice, step) := i.below k
  match i.contains floor k, i.contains (floor + 1) k with
  | false, false => none
  | true, false => some floor
  | false, true => some (floor + 1)
  | true, true =>
    if twice < step || (twice = step && floor % 2 = 0) then some floor else some (floor + 1)

/-- The first grid with a point in the interval, from the step `10 ^ k` on down through finer
ones. -/
def firstGrid (i : Interval) : Nat → Int → Nat × Int
  | 0, k => ((i.below k).1, k)
  | n + 1, k =>
    match i.onGrid k with
    | some digits => (digits, k)
    | none => firstGrid i n (k - 1)

/-- The exponent of the leading decimal digit of the value, searched from a guess above it. -/
def leading (i : Interval) : Nat → Int → Int
  | 0, k => k
  | n + 1, k => if (i.below k).1 = 0 then leading i n (k - 1) else k

end Interval

/-- The **shortest decimal** of `m · 2 ^ e`: digits without trailing zeros and the exponent of the
last digit. The search starts one grid above the leading digit, so that `10 ^ k` itself is found. -/
def shortest (m : Nat) (e : Int) : Nat × Int :=
  let i := Interval.ofBinary m e
  -- 30103 / 100000 is a little more than the decimal logarithm of two
  let guess : Int := (m.log2 + e + 1) * 30103 / 100000 + 1
  i.firstGrid 20 (i.leading 4 guess + 1)

namespace Double

/-- The digits of a number and the exponent of the first one, trailing zeros removed. -/
def significantDigits (m : Nat) (e : Int) : List Char × Int :=
  let (n, k) := shortest m e
  let digits := Nat.toDigits 10 n
  let kept := (digits.reverse.dropWhile (· = '0')).reverse
  (kept, k + digits.length - 1)

/-- Digits written with a point behind the first `point` of them, at least one digit on each
side. -/
def positional (digits : List Char) (point : Int) : List Char :=
  if point ≤ 0 then '0' :: '.' :: List.replicate (-point).toNat '0' ++ digits
  else
    let whole := digits.take point.toNat
    let rest := digits.drop point.toNat
    whole ++ List.replicate (point.toNat - whole.length) '0' ++
      '.' :: (if rest.isEmpty then ['0'] else rest)

/-- Digits written with one before the point and an exponent of at least two digits. -/
def scientific (digits : List Char) (exponent : Int) : List Char :=
  let mantissa := match digits with
    | [] => ['0']
    | [d] => [d]
    | d :: rest => d :: '.' :: rest
  let power := Nat.toDigits 10 exponent.natAbs
  mantissa ++ 'e' :: (if exponent < 0 then '-' else '+') ::
    List.replicate (2 - power.length) '0' ++ power

/-- A **magnitude** as text: positional when the leading digit stands between `10 ^ -4` and
`10 ^ 15`, else scientific. -/
def magnitude (m : Nat) (e : Int) : List Char :=
  if m = 0 then ['0', '.', '0']
  else
    let (digits, exponent) := significantDigits m e
    if -4 ≤ exponent && exponent < 16 then positional digits (exponent + 1)
    else scientific digits exponent

/-- The **text** of a double: the shortest digits that read back. -/
def text (x : Double) : String :=
  match x.decode with
  | .finite negative m e => String.ofList ((if negative then ['-'] else []) ++ magnitude m e)
  | .infinite negative => if negative then "-inf" else "inf"
  | .nan => "nan"

end Double

end RecordQuery
