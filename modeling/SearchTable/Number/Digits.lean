/-!
# Decimal digits

Natural numbers and integers as decimal text, and back.  Reading takes the ten ASCII digits only;
an integer may carry one sign, and the bounded readings refuse a value outside their range instead
of wrapping it.
-/

namespace SearchTable.Number

/-- The decimal digits of a natural number, the leading one first. -/
def digits (n : Nat) : List Char := Nat.toDigits 10 n

/-- The number of decimal digits of a natural number. -/
def digitCount (n : Nat) : Nat := (digits n).length

/-- An integer in decimal notation, with a minus sign when it is negative. -/
def integerText (n : Int) : String :=
  if n < 0 then String.ofList ('-' :: digits n.natAbs) else String.ofList (digits n.natAbs)

/-- The value of one ASCII digit. -/
def digitValue (c : Char) : Nat := c.toNat - '0'.toNat

/-- The value of a run of digits, with `start` standing before it. -/
def foldDigits (start : Nat) (cs : List Char) : Nat :=
  cs.foldl (fun total c => 10 * total + digitValue c) start

/-- The value of a text made of at least one ASCII digit and nothing else. -/
def readDigits (cs : List Char) : Option Nat :=
  if cs.isEmpty || !cs.all Char.isDigit then none else some (foldDigits 0 cs)

/-- The value of one hexadecimal digit, its letter of either case. -/
def hexValue? (c : Char) : Option Nat :=
  if '0' ≤ c ∧ c ≤ '9' then some (c.toNat - '0'.toNat)
  else if 'a' ≤ c ∧ c ≤ 'f' then some (c.toNat - 'a'.toNat + 10)
  else if 'A' ≤ c ∧ c ≤ 'F' then some (c.toNat - 'A'.toNat + 10)
  else none

/-- The value of digits in a base of at most sixteen, if there is at least one and every one of them
is a digit of that base. -/
def readBase (base : Nat) (cs : List Char) : Option Nat :=
  if cs.isEmpty then none
  else cs.foldlM (fun n c => ((hexValue? c).filter (· < base)).map (base * n + ·)) 0

/-- A sign in front of a number, and what follows it: `true` stands for a minus. -/
def takeSign : List Char → Bool × List Char
  | '-' :: cs => (true, cs)
  | '+' :: cs => (false, cs)
  | cs => (false, cs)

/-- The integer a text denotes: one optional sign and at least one digit. -/
def readInteger (cs : List Char) : Option Int :=
  let (negative, rest) := takeSign cs
  (readDigits rest).map fun n => if negative then -(n : Int) else (n : Int)

/-- A 32-bit integer, if the value lies in its range. -/
def toInt32? (n : Int) : Option Int32 :=
  if Int32.minValue.toInt ≤ n && n ≤ Int32.maxValue.toInt then some (Int32.ofInt n) else none

/-- A 64-bit integer, if the value lies in its range. -/
def toInt64? (n : Int) : Option Int64 :=
  if Int64.minValue.toInt ≤ n && n ≤ Int64.maxValue.toInt then some (Int64.ofInt n) else none

/-- The 32-bit integer a text denotes. -/
def readInt32 (s : String) : Option Int32 := (readInteger s.toList).bind toInt32?

/-- The 64-bit integer a text denotes. -/
def readInt64 (s : String) : Option Int64 := (readInteger s.toList).bind toInt64?

/-- The natural number below `bound` that a text denotes.  A plus sign may stand in front of the
digits, a minus sign may not, not even before a zero. -/
def readNatBelow (bound : Nat) (s : String) : Option Nat :=
  let body := match s.toList with
    | '+' :: cs => cs
    | cs => cs
  (readDigits body).filter (· < bound)

end SearchTable.Number
