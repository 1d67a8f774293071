import RecordQuery.Failure

/-! # Hashes

Equal values have equal hashes, and a value that has a hash may be a key of a mapping or an element
of a set. A number is hashed by what it denotes, a text or byte sequence by its bytes, a tuple or
fixed set by the hashes of its items, a wrapped record by the identity of its record, and anything
else by its own identity. A value that may change has no hash.

The hash of bytes and that of an identity differ from run to run, so they are not computed: a digest
names what they are hashes of, and two hashes are taken as equal when their digests are.

* `Scalar.hashPart`: the hash of a scalar.
* `tupleHash`, `fixedSetHash`: the hash of items from those of each.
* `Store.digest`: the hash of a value, or the failure to have one.
* `Store.sameHash`: whether two values have the same hash. -/

namespace RecordQuery

/-! ### Numbers -/

/-- The prime **modulus** of the hashes of numbers. -/
def hashModulus : Nat := Nat.pow 2 61 - 1

/-- A hash that is not minus one, which is kept free. -/
def freeHash (n : Int) : Int := if n = -1 then -2 else n

/-- The **hash of an integer**: its remainder, with the sign of the integer. -/
def integerHash (n : Int) : Int := freeHash (n.sign * (n.natAbs % hashModulus : Nat))

/-- The **hash of a double**: that of the fraction it denotes, as a remainder; a non-number has
none. -/
def Double.hash? (x : Double) : Option Int :=
  match x.decode with
  | .finite negative m e =>
    -- two to the sixty-first leaves the remainder one, so only the exponent's remainder counts
    let n : Int := (m * Nat.pow 2 (e % 61).toNat % hashModulus : Nat)
    some (freeHash (if negative then -n else n))
  | .infinite negative => some (if negative then -314159 else 314159)
  | .nan => none

/-! ### Texts -/

/-- The bytes of a number, `count` of them, the lowest first. -/
def lowBytes : Nat → Nat → List UInt8
  | 0, _ => []
  | count + 1, n => UInt8.ofNat n :: lowBytes count (n / 256)

/-- The **bytes of a text**: one for each character if one is enough for all of them, else two, else
four. -/
def textBytes (s : String) : List UInt8 :=
  let codes := s.toList.map Char.toNat
  let width := if codes.all (· < 0x100) then 1 else if codes.all (· < 0x10000) then 2 else 4
  codes.flatMap (lowBytes width)

/-! ### Several items -/

/-- A hash as a word of sixty-four bits. -/
def hashWord (n : Int) : UInt64 := UInt64.ofNat (n % Nat.pow 2 64).toNat

/-- The hash that a word is; the word of minus one stands for another hash. -/
def ofHashWord (w : UInt64) (other : Int) : Int :=
  let n : Int := if w.toNat < Nat.pow 2 63 then w.toNat else w.toNat - Nat.pow 2 64
  if n = -1 then other else n

/-- The word of the hash of some items after one more item. -/
def mixItem (w : UInt64) (item : Int) : UInt64 :=
  let w := w + hashWord item * 14029467366897019727
  ((w <<< 31) ||| (w >>> 33)) * 11400714785074694791

/-- The **hash of a tuple** from those of its items, whose order matters. -/
def tupleHash (items : List Int) : Int :=
  let seed : UInt64 := 2870177450012600261
  let w := items.foldl mixItem seed
  ofHashWord (w + (UInt64.ofNat items.length ^^^ (seed ^^^ 3527539))) 1546275796

/-- The word of an item of a fixed set, with its bits scattered. -/
def scattered (item : Int) : UInt64 :=
  let w := hashWord item
  let mask : UInt64 := 89869747
  ((w ^^^ mask) ^^^ (w <<< 16)) * 3644798167

/-- The **hash of a fixed set** from those of its items, whose order does not matter. -/
def fixedSetHash (items : List Int) : Int :=
  let w := items.foldl (fun w item => w ^^^ scattered item) 0
  let w := w ^^^ (UInt64.ofNat (items.length + 1) * 1927868237)
  let w := w ^^^ ((w >>> 11) ^^^ (w >>> 25))
  ofHashWord (w * 69069 + 907133923) 590923713

/-! ### Values -/

/-- A **part of a digest**. -/
inductive HashPart
  /-- A hash that is known. -/
  | known (n : Int)
  /-- The hash of bytes. -/
  | bytes (data : List UInt8)
  /-- The hash of the identity of a value. -/
  | identity (r : Ref)
  /-- The hash of a wrapped record, by the identity of the record. -/
  | wrapped (record : Ref)
  /-- The hash of a tuple with so many items, whose digests follow. -/
  | tuple (size : Nat)
  /-- The hash of a fixed set with so many items, whose digests follow. -/
  | fixedSet (size : Nat)
deriving DecidableEq, Repr

/-- A **digest**: what a hash is the hash of, each mark before the digests of its items. -/
abbrev Digest : Type := List HashPart

/-- The hash that a digest is, if it is known. -/
def Digest.known? : Digest → Option Int
  | [.known n] => some n
  | _ => none

/-- The digest of items: the hash that is mixed of theirs if all are known. -/
def Digest.ofItems (mix : List Int → Int) (mark : Nat → HashPart) (items : List Digest) : Digest :=
  match items.mapM Digest.known? with
  | some hashes => [.known (mix hashes)]
  | none => mark items.length :: items.flatten

/-- The **hash of a scalar** that a reference refers to. The absent value and a non-number are
hashed by their identity; no bytes have the hash zero. -/
def Scalar.hashPart (r : Ref) : Scalar → HashPart
  | .null => .identity r
  | .bool b => .known (if b then 1 else 0)
  | .int n => .known (integerHash n)
  | .double x => match x.hash? with
    | some n => .known n
    | none => .identity r
  | .text s => if s.isEmpty then .known 0 else .bytes (textBytes s)
  | .bytes data => if data.isEmpty then .known 0 else .bytes data

namespace Store

/-- The **digest** of a value, opening at most `depth` tuples and fixed sets inside each other. -/
def digestTo (σ : Store) : Nat → Ref → Except Failure Digest
  | 0, r => .ok [.identity r]
  | depth + 1, r =>
    match σ.look r with
    | .scalar s => .ok [s.hashPart r]
    | .tuple items => do
      return Digest.ofItems tupleHash .tuple (← items.mapM (σ.digestTo depth))
    | .frozenSet items => do
      return Digest.ofItems fixedSetHash .fixedSet (← items.mapM (σ.digestTo depth))
    | .node data => .ok [.wrapped data.record]
    | .sealed _ | .stream _ | .function _ | .locator _ _ => .ok [.identity r]
    -- anything else may change
    | o => .error (.unhashable o.qualifiedTypeName)

/-- The **digest** of a value. -/
def digest (σ : Store) (r : Ref) : Except Failure Digest := σ.digestTo (σ.size + 1) r

/-- Whether two values have the **same hash**. -/
def sameHash (σ : Store) (a b : Ref) : Except Failure Bool := do
  let first ← σ.digest a
  let second ← σ.digest b
  return first == second

end Store

end RecordQuery
