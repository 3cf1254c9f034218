import SearchTable.Json.Basic
/-!
# Numbers in JSON text

A number is a coefficient of at most 64 bits with a decimal exponent.  A number without a point,
without an exponent and within 64 bits is an integer; any other one is the coefficient in double
precision, scaled once by a power of ten of double precision.  A value beyond the greatest finite
number is refused, one below the least is zero.
-/

namespace SearchTable.Json

open Number

/-- The parts of a number as they are written: its sign, the digits before and after the point, and
the exponent. -/
structure NumberParts where
  negative : Bool
  whole : List Char
  fraction : Option (List Char)
  exponent : Option Int

/-- The greatest coefficient. -/
def coefficientLimit : Nat := Nat.pow 2 64 - 1

/-- Takes digits into a coefficient while it stays within its limit.  Returns the coefficient, how
many digits were taken and how many were not. -/
def takeDigits (coefficient : Nat) : List Char → Nat × Nat × Nat
  | [] => (coefficient, 0, 0)
  | c :: cs =>
    let next := 10 * coefficient + digitValue c
    if coefficientLimit < next then (coefficient, 0, cs.length + 1)
    else
      let (result, taken, left) := takeDigits next cs
      (result, taken + 1, left)

/-- The power of ten nearest to the true one, as a quotient. -/
def powerOfTen (n : Nat) : Nat × Nat := quotient .double (nearestRank .double (Nat.pow 10 n) 1)

/-- The rank of a product of a rank and a power of ten. -/
def timesPower (rank n : Nat) : Nat :=
  let (num, den) := quotient .double rank
  let (p, q) := powerOfTen n
  if num = 0 then 0 else nearestRank .double (num * p) (den * q)

/-- The rank of a quotient of a rank and a power of ten. -/
def overPower (rank n : Nat) : Nat :=
  let (num, den) := quotient .double rank
  let (p, q) := powerOfTen n
  if num = 0 then 0 else nearestRank .double (num * q) (den * p)

/-- The greatest power of ten of double precision. -/
def greatestPower : Nat := 308

/-- A rank scaled by a power of ten; nothing when the result is too great.  An exponent below the
range is brought into it by dividing by the greatest power first, which needs at most `steps`
divisions before nothing is left to divide. -/
def scaleRank : (steps : Nat) → (rank : Nat) → (exponent : Int) → Option Nat
  | 0, rank, _ => some rank
  | steps + 1, rank, exponent =>
    if exponent.natAbs ≤ greatestPower then
      if 0 ≤ exponent then
        (some (timesPower rank exponent.toNat)).filter (· < Width.double.infinityRank)
      else some (overPower rank exponent.natAbs)
    else if rank = 0 then some 0
    else if 0 ≤ exponent then none
    else scaleRank steps (overPower rank greatestPower) (exponent + greatestPower)

/-- The value of a number; nothing when it is too great. -/
def NumberParts.value (p : NumberParts) : Option Json :=
  let (whole, _, dropped) := takeDigits 0 p.whole
  let isInteger := p.fraction.isNone && p.exponent.isNone && dropped == 0
  if isInteger && !p.negative then some (.integer whole)
  else if isInteger && 0 < whole && whole ≤ Nat.pow 2 63 then some (.integer (-(whole : Int)))
  else
    let (coefficient, taken, _) := takeDigits whole (p.fraction.getD [])
    let exponent : Int := (dropped : Int) - (taken : Int) + p.exponent.getD 0
    let rank := nearestRank .double coefficient 1
    (scaleRank 4 (if coefficient = 0 then 0 else rank) exponent).map fun rank =>
      .float (Binary.ofRank p.negative rank)

end SearchTable.Json
