import SearchTable.Number.Digits
import SearchTable.Number.Binary
/-!
# Decimal text of floating-point numbers

Reading decimal text rounds the exact value to the nearest number of the format.  Writing takes the
fewest digits that read back as the same number and, among the texts with that many digits, the one
nearest to it.  Both rest on exact arithmetic with natural numbers.

* `Decimal.toBinary` rounds a decimal; `readBinary` reads the text of one.
* `shortest` chooses the digits of a number.
* `Binary.text` lays them out positionally, without an exponent and without a trailing `.0`.
-/

namespace SearchTable.Number

/-! ## Decimals -/

/-- The decimal number `coefficient · 10 ^ scale`. -/
structure Decimal where
  coefficient : Nat
  scale : Int
  deriving DecidableEq, Repr

namespace Decimal

/-- Scales beyond this one put any coefficient of one digit out of the range of both formats. -/
def scaleLimit : Nat := 400

/-- The rank nearest to a decimal.  Outside the scales that can matter the answer is known without
computing the power of ten. -/
def toRank (w : Width) (d : Decimal) : Nat :=
  if d.coefficient = 0 then 0
  else if (scaleLimit : Int) < d.scale then w.infinityRank
  else if d.scale < -((scaleLimit + d.coefficient.log2 : Nat) : Int) then 0
  else if 0 ≤ d.scale then nearestRank w (d.coefficient * Nat.pow 10 d.scale.toNat) 1
  else nearestRank w d.coefficient (Nat.pow 10 (-d.scale).toNat)

/-- The number of a format nearest to a decimal, with a sign. -/
def toBinary {w : Width} (negative : Bool) (d : Decimal) : Binary w :=
  Binary.ofRank negative (d.toRank w)

/-- The decimal in positional notation. -/
def positional (d : Decimal) : List Char :=
  let ds := digits d.coefficient
  if 0 ≤ d.scale then ds ++ List.replicate d.scale.toNat '0'
  else
    let places := (-d.scale).toNat
    if places < ds.length then
      ds.take (ds.length - places) ++ '.' :: ds.drop (ds.length - places)
    else '0' :: '.' :: List.replicate (places - ds.length) '0' ++ ds

end Decimal

/-! ## Reading -/

/-- The exponent after the letter `e`: an optional sign and at least one digit. -/
def readExponent (cs : List Char) : Option Int :=
  let (negative, rest) := takeSign cs
  (readDigits rest).map fun n => if negative then -(n : Int) else (n : Int)

/-- A decimal without its sign: digits with an optional point among or beside them, and an optional
exponent. -/
def readDecimal (cs : List Char) : Option Decimal :=
  let whole := cs.takeWhile Char.isDigit
  let rest := cs.dropWhile Char.isDigit
  let (fraction, rest) := match rest with
    | '.' :: tail => (tail.takeWhile Char.isDigit, tail.dropWhile Char.isDigit)
    | _ => ([], rest)
  if whole.isEmpty && fraction.isEmpty then none
  else
    let coefficient := foldDigits (foldDigits 0 whole) fraction
    match rest with
    | [] => some ⟨coefficient, -(fraction.length : Int)⟩
    | c :: tail =>
      if c = 'e' || c = 'E' then
        (readExponent tail).map fun e => ⟨coefficient, e - (fraction.length : Int)⟩
      else none

/-- The number a text denotes: an optional sign, then a decimal or one of the words `inf`,
`infinity` and `nan` in letters of any case. -/
def readBinary {w : Width} (s : String) : Option (Binary w) :=
  let (negative, body) := takeSign s.toList
  let word := body.map Char.toLower
  if word = "inf".toList || word = "infinity".toList then some (.infinity negative)
  else if word = "nan".toList then some .nan
  else (readDecimal body).map (Decimal.toBinary negative)

/-! ## Shortest digits -/

/-- Which neighbour is taken when a value lies midway between two decimals that both read back. -/
inductive Tie where
  | up
  | even
  deriving DecidableEq, Repr

/-- The least power of ten, as an exponent, that is greater than `num / den`. -/
def decimalTop (num den : Nat) : Int :=
  if den ≤ num then digitCount (num / den)
  else 1 - (digitCount ((den + num - 1) / num - 1) : Int)

/-- The decimal with `count` digits below the top power of ten that reads back as the given rank, of
two such decimals the nearer one.  With no digit at all this can only be the top power itself. -/
def decimalWithDigits (w : Width) (tie : Tie) (rank count : Nat) : Option Decimal :=
  let (num, den) := quotient w rank
  let scale := decimalTop num den - (count : Int)
  let (num, den) :=
    if 0 ≤ scale then (num, den * Nat.pow 10 scale.toNat)
    else (num * Nat.pow 10 (-scale).toNat, den)
  let below : Decimal := ⟨num / den, scale⟩
  let above : Decimal := ⟨num / den + 1, scale⟩
  let rest := num % den
  let preferBelow :=
    if 2 * rest < den then true
    else if den < 2 * rest then false
    else match tie with
      | .up => false
      | .even => (num / den) % 2 = 0
  match below.toRank w == rank, above.toRank w == rank with
  | true, true => some (if preferBelow then below else above)
  | true, false => some below
  | false, true => some above
  | false, false => none

/-- The exact value of a rank as a decimal. -/
def exactDecimal (w : Width) (rank : Nat) : Decimal :=
  let e := exponent w rank
  if 0 ≤ e then ⟨significand w rank * Nat.pow 2 e.toNat, 0⟩
  else ⟨significand w rank * Nat.pow 5 (-e).toNat, e⟩

/-- The decimal with the fewest digits that reads back as the given rank, and the nearest one among
those.  Seventeen digits always suffice, and a decimal found this way does not end in a zero, since
it would have been found with a digit less. -/
def shortest (w : Width) (tie : Tie) (rank : Nat) : Decimal :=
  if rank = 0 then ⟨0, 0⟩
  else
    match (List.range 18).findSome? fun count => decimalWithDigits w tie rank count with
    | some d => d
    | none => exactDecimal w rank

/-- The text of a number: the shortest digits in positional notation, a tie going up. -/
def Binary.text {w : Width} : Binary w → String
  | .nan => "NaN"
  | .number negative rank =>
    let body :=
      if rank.val = w.infinityRank then "inf".toList
      else (shortest w .up rank.val).positional
    String.ofList (if negative then '-' :: body else body)

end SearchTable.Number
