import RecordQuery.Number.Double

/-! # Reading numbers

The number that a decimal stands for. A decimal has digits, perhaps a fraction, perhaps an exponent;
the nearest double is taken, however many digits there are.

* `digitsValue`: the number that digits stand for.
* `integerOfText?`: the integer that a text stands for.
* `Double.ofDigits`: the double nearest to a decimal.
* `Double.ofText?`: the double that a text stands for. -/

namespace RecordQuery

/-- Whether a character is one of the ten digits. -/
def isDecimalDigit (c : Char) : Bool := '0' ≤ c && c ≤ '9'

/-- The **number** that digits stand for. -/
def digitsValue (cs : List Char) : Nat :=
  cs.foldl (fun n c => 10 * n + (c.toNat - '0'.toNat)) 0

/-- A number with a sign in front, if the rest is all digits. -/
def signedValue? : List Char → Option Int
  | '-' :: cs => if !cs.isEmpty && cs.all isDecimalDigit then some (-digitsValue cs) else none
  | '+' :: cs => if !cs.isEmpty && cs.all isDecimalDigit then some (digitsValue cs) else none
  | cs => if !cs.isEmpty && cs.all isDecimalDigit then some (digitsValue cs) else none

/-- Whether a character is blank, so that it may stand around a number. -/
def isPadding (c : Char) : Bool :=
  let n := c.toNat
  (9 ≤ n && n ≤ 13) || n = 0x20 || n = 0x85 || n = 0xA0 || n = 0x1680 ||
    (0x2000 ≤ n && n ≤ 0x200A) || n = 0x2028 || n = 0x2029 || n = 0x202F || n = 0x205F || n = 0x3000

/-- The characters of a number behind another character, without the separators, single underscores
between two digits; none if there is any other underscore. -/
def withoutSeparators? (before : Char) : List Char → Option (List Char)
  | [] => some []
  | ['_'] => none
  | '_' :: c :: rest =>
    if isDecimalDigit before && isDecimalDigit c then (withoutSeparators? c rest).map (c :: ·)
    else none
  | c :: rest => (withoutSeparators? c rest).map (c :: ·)

/-- The characters of a number in a text, which may stand between blanks and have separators. -/
def numberChars? (s : String) : Option (List Char) :=
  withoutSeparators? ' ' ((s.toList.dropWhile isPadding).reverse.dropWhile isPadding).reverse

/-- The **integer** that a text stands for. -/
def integerOfText? (s : String) : Option Int := (numberChars? s).bind signedValue?

namespace Double

/-- The double nearest to the decimal with the given digits before and behind the point, times a
power of ten. -/
def ofDigits (negative : Bool) (whole fraction : List Char) (exponent : Int) : Double :=
  ofScaled negative (digitsValue (whole ++ fraction)) (exponent - fraction.length)

/-- The double that the characters of an unsigned number stand for. There is a digit before or
behind the point. -/
def ofUnsigned? (negative : Bool) (cs : List Char) : Option Double :=
  let name := String.ofList (cs.map Char.toLower)
  if name = "inf" || name = "infinity" then some (infinity negative)
  else if name = "nan" then some nan
  else
    let whole := cs.takeWhile isDecimalDigit
    let rest := cs.dropWhile isDecimalDigit
    let (fraction, rest) := match rest with
      | '.' :: ds => (ds.takeWhile isDecimalDigit, ds.dropWhile isDecimalDigit)
      | ds => ([], ds)
    if whole.isEmpty && fraction.isEmpty then none
    else match rest with
      | [] => some (ofDigits negative whole fraction 0)
      | e :: power =>
        if e = 'e' || e = 'E' then (signedValue? power).map (ofDigits negative whole fraction)
        else none

/-- The double that a **text** stands for: a decimal, an infinity or a non-number. -/
def ofText? (s : String) : Option Double :=
  (numberChars? s).bind fun cs => match cs with
    | '-' :: cs => ofUnsigned? true cs
    | '+' :: cs => ofUnsigned? false cs
    | cs => ofUnsigned? false cs

end Double

end RecordQuery
