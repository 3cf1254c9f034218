/-!
# Binary floating-point numbers

The single and double binary formats, as data that can be reasoned about.  The non-negative values
of a format form a finite ladder, from zero over the subnormal and the normal numbers to infinity,
and the place of a value on that ladder is its *rank*.  A number is a sign and a rank, so comparing
numbers is comparing integers, and a format's bit code is its rank below a sign bit.

* `Width` names the format; `precision` and `minExponent` are its two parameters.
* `Binary.compare?` orders numbers, with the two zeros equal and nothing comparable to a NaN.
* `nearestRank` rounds a quotient of naturals to the nearest rank, ties to the even one.
* `Binary.ofInt`, `Binary.convert` and `Binary.truncate` are the conversions built on it.
-/

namespace SearchTable.Number

/-! ## Formats -/

/-- The two binary formats: 32 bits wide and 64 bits wide. -/
inductive Width where
  | single
  | double
  deriving DecidableEq, Repr

namespace Width

/-- The number of significant bits of a normal number. -/
def precision : Width → Nat
  | single => 24
  | double => 53

/-- The number of bits of the exponent field. -/
def exponentBits : Width → Nat
  | single => 8
  | double => 11

/-- The exponent of the last place of a subnormal number. -/
def minExponent : Width → Int
  | single => -149
  | double => -1074

/-- The rank of the least normal number, which is also the number of ranks that share one
exponent. -/
def binade (w : Width) : Nat := Nat.pow 2 (w.precision - 1)

/-- The rank of infinity, the topmost one. -/
def infinityRank (w : Width) : Nat := (Nat.pow 2 w.exponentBits - 1) * w.binade

/-- The value of the sign bit in a bit code. -/
def signBit (w : Width) : Nat := Nat.pow 2 w.exponentBits * w.binade

end Width

/-! ## Numbers -/

/-- A floating-point number: a sign with the rank of its magnitude, or the one NaN. -/
inductive Binary (w : Width) where
  | number (negative : Bool) (rank : Fin (w.infinityRank + 1))
  | nan
  deriving DecidableEq, Repr

/-- The integer that multiplies the power of two in the value of a rank. -/
def significand (w : Width) (rank : Nat) : Nat :=
  if rank < w.binade then rank else w.binade + rank % w.binade

/-- The power of two in the value of a rank. -/
def exponent (w : Width) (rank : Nat) : Int :=
  if rank < w.binade then w.minExponent else w.minExponent + (rank / w.binade : Nat) - 1

/-- The value of a finite rank as a quotient of naturals: numerator and denominator. -/
def quotient (w : Width) (rank : Nat) : Nat × Nat :=
  let e := exponent w rank
  if 0 ≤ e then (significand w rank * Nat.pow 2 e.toNat, 1)
  else (significand w rank, Nat.pow 2 (-e).toNat)

/-! ## Rounding -/

/-- A quotient rounded to the nearest natural number, a half to the even neighbour. -/
def divNearest (num den : Nat) : Nat :=
  let q := num / den
  let r := num % den
  if 2 * r < den then q else if den < 2 * r then q + 1 else q + q % 2

/-- The power of two of the last place when `num / den` is written with `precision` significant
bits, or the least exponent of the format if that is greater. -/
def lastPlace (w : Width) (num den : Nat) : Int :=
  let guess : Int := (num.log2 : Int) - (den.log2 : Int) - ((w.precision : Int) - 1)
  let fits :=
    if 0 ≤ guess then den * Nat.pow 2 guess.toNat * w.binade ≤ num
    else den * w.binade ≤ num * Nat.pow 2 (-guess).toNat
  max w.minExponent (if fits then guess else guess - 1)

/-- The rank nearest to `num / den`, of two equally near ones the even one.  A quotient too great
for the format has the rank of infinity. -/
def nearestRank (w : Width) (num den : Nat) : Nat :=
  let e := lastPlace w num den
  let m :=
    if 0 ≤ e then divNearest num (den * Nat.pow 2 e.toNat)
    else divNearest (num * Nat.pow 2 (-e).toNat) den
  min w.infinityRank ((e - w.minExponent).toNat * w.binade + m)

namespace Binary

variable {w : Width}

/-- A number from its sign and a rank that is capped at infinity. -/
def ofRank (negative : Bool) (rank : Nat) : Binary w :=
  .number negative ⟨min w.infinityRank rank, Nat.lt_succ_of_le (Nat.min_le_left _ _)⟩

/-- The number nearest to a quotient of naturals, with a sign. -/
def ofQuotient (negative : Bool) (num den : Nat) : Binary w :=
  ofRank negative (if num = 0 then 0 else nearestRank w num den)

/-- Infinity, with a sign. -/
def infinity (negative : Bool) : Binary w := ofRank negative w.infinityRank

/-- Neither infinite nor NaN. -/
def isFinite : Binary w → Bool
  | number _ rank => rank.val < w.infinityRank
  | nan => false

/-- The number with the opposite sign. -/
def negate : Binary w → Binary w
  | number negative rank => number (!negative) rank
  | nan => nan

/-! ## Order -/

/-- The signed place of a number in the order of the format: both zeros stand at 0. -/
def place (negative : Bool) (rank : Nat) : Int := if negative then -(rank : Int) else rank

/-- How two numbers compare; nothing compares with a NaN. -/
def compare? : Binary w → Binary w → Option Ordering
  | number s a, number t b => some (compare (place s a.val) (place t b.val))
  | _, _ => none

/-! ## Conversions -/

/-- The number nearest to an integer. -/
def ofInt (n : Int) : Binary w := ofQuotient (n < 0) n.natAbs 1

/-- A number in another format, rounded to the nearest one there. -/
def convert (v : Width) : Binary w → Binary v
  | nan => nan
  | number negative rank =>
    if rank.val = w.infinityRank then infinity negative
    else
      let (num, den) := quotient w rank.val
      ofQuotient negative num den

/-- The integer part of a number, held within `low` and `high`; a NaN counts as 0. -/
def truncate (low high : Int) : Binary w → Int
  | nan => 0
  | number negative rank =>
    if rank.val = w.infinityRank then if negative then low else high
    else
      let (num, den) := quotient w rank.val
      let whole : Int := (num / den : Nat)
      max low (min high (if negative then -whole else whole))

/-! ## Bit codes -/

/-- The number a bit code stands for: the sign bit over the rank; ranks above infinity are NaN. -/
def ofBits (code : Nat) : Binary w :=
  let negative := decide (w.signBit ≤ code)
  let rank := code % w.signBit
  if h : rank ≤ w.infinityRank then number negative ⟨rank, Nat.lt_succ_of_le h⟩ else nan

/-- The bit code of a number; the NaN has the code with the highest rank bit below infinity's
set. -/
def toBits : Binary w → Nat
  | number negative rank => (if negative then w.signBit else 0) + rank.val
  | nan => w.infinityRank + w.binade / 2

end Binary

end SearchTable.Number
