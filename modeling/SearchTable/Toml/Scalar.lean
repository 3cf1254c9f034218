import SearchTable.Toml.Basic
/-!
# Numbers, dates and words in TOML

The values that are written without quotation marks and brackets.  Each of them is one run of
characters, so reading it means recognizing a complete list of characters.

Integers lie within 128 bits, the negative ones with a sign bit and the others without one; the
value of a float must be finite unless it is written as infinity.
-/

namespace SearchTable.Toml

open Number

/-! ## Digits -/

/-- Digits with the underscores between them dropped.  An underscore stands alone and between two
digits. -/
def plainDigits (isDigit : Char → Bool) : List Char → Option (List Char)
  | [] => none
  | [c] => if isDigit c then some [c] else none
  | c :: '_' :: cs => if isDigit c then (plainDigits isDigit cs).map (c :: ·) else none
  | c :: cs => if isDigit c then (plainDigits isDigit cs).map (c :: ·) else none

/-- The digits of a decimal number before the point: a zero leads only when it stands alone. -/
def wholeDigits (cs : List Char) : Option (List Char) :=
  (plainDigits Char.isDigit cs).filter fun ds => ds.length = 1 || ds.head? ≠ some '0'

/-! ## Integers -/

/-- The magnitude of an integer in a base that its first two characters name. -/
def readBased : List Char → Option Nat
  | '0' :: 'x' :: cs => digitsIn 16 cs
  | '0' :: 'o' :: cs => digitsIn 8 cs
  | '0' :: 'b' :: cs => digitsIn 2 cs
  | _ => none
where
  /-- The value of digits of a base. -/
  digitsIn (base : Nat) (cs : List Char) : Option Nat :=
    (plainDigits (fun c => (hexValue? c).any (· < base)) cs).bind (readBase base)

/-- An integer: decimal digits behind an optional sign, or the digits of another base. -/
def readInteger (cs : List Char) : Option Int :=
  let value : Option Int :=
    match readBased cs with
    | some n => some n
    | none =>
      let (negative, body) := takeSign cs
      (wholeDigits body).map fun ds =>
        if negative then -(foldDigits 0 ds : Int) else (foldDigits 0 ds : Int)
  value.filter fun n => if n < 0 then n.natAbs ≤ Nat.pow 2 127 else n.natAbs < Nat.pow 2 128

/-! ## Floats -/

/-- Digits and the underscores between them. -/
def isDigitOrUnderscore (c : Char) : Bool := c.isDigit || c == '_'

/-- The exponent of a float, with the letter in front of it. -/
def readExponent : List Char → Option (List Char)
  | [] => some []
  | c :: cs =>
    if c = 'e' ∨ c = 'E' then
      let (negative, body) := takeSign cs
      (plainDigits Char.isDigit body).map fun ds => 'e' :: (if negative then '-' :: ds else ds)
    else none

/-- A float without its sign and without underscores. -/
def plainFloat (cs : List Char) : Option (List Char) := do
  let whole ← wholeDigits (cs.takeWhile isDigitOrUnderscore)
  match cs.dropWhile isDigitOrUnderscore with
  | [] => none
  | '.' :: cs =>
    let fraction ← plainDigits Char.isDigit (cs.takeWhile isDigitOrUnderscore)
    let exponent ← readExponent (cs.dropWhile isDigitOrUnderscore)
    some (whole ++ '.' :: fraction ++ exponent)
  | cs => do some (whole ++ (← readExponent cs))

/-- A float: digits with a fraction, an exponent or both, or one of the words `inf` and `nan`, all
behind an optional sign. -/
def readFloat (cs : List Char) : Option (Binary .double) :=
  let (negative, body) := takeSign cs
  if body = "inf".toList then some (.infinity negative)
  else if body = "nan".toList then some .nan
  else do
    let decimal ← readDecimal (← plainFloat body)
    (some (decimal.toBinary negative)).filter Binary.isFinite

/-! ## Dates and times -/

/-- The value of a number of two digits. -/
def twoDigits (a b : Char) : Option Nat := readDigits [a, b]

/-- The number of days of a month, which depends on the year for the second one. -/
def daysIn (year month : Nat) : Nat :=
  if month = 2 then
    if year % 4 = 0 ∧ (year % 100 ≠ 0 ∨ year % 400 = 0) then 29 else 28
  else if month = 4 ∨ month = 6 ∨ month = 9 ∨ month = 11 then 30
  else 31

/-- The characters after a date at the front. -/
def afterDate : List Char → Option (List Char)
  | y₁ :: y₂ :: y₃ :: y₄ :: '-' :: m₁ :: m₂ :: '-' :: d₁ :: d₂ :: rest => do
    let year ← readDigits [y₁, y₂, y₃, y₄]
    let month ← twoDigits m₁ m₂
    let day ← twoDigits d₁ d₂
    if 1 ≤ month ∧ month ≤ 12 ∧ 1 ≤ day ∧ day ≤ daysIn year month then some rest else none
  | _ => none

/-- The characters after the seconds of a time, from the colon in front of them, and after the
fraction that may follow them.  The last minute of an hour may have a leap second. -/
def afterSeconds : List Char → Option (List Char)
  | ':' :: s₁ :: s₂ :: rest => do
    let second ← twoDigits s₁ s₂
    if second ≤ 60 then
      match rest with
      | '.' :: cs =>
        if (cs.takeWhile Char.isDigit).isEmpty then none else some (cs.dropWhile Char.isDigit)
      | _ => some rest
    else none
  | _ => none

/-- The characters after a time at the front: hours and minutes, and seconds if there is a colon for
them. -/
def afterTime : List Char → Option (List Char)
  | h₁ :: h₂ :: ':' :: m₁ :: m₂ :: rest => do
    let hour ← twoDigits h₁ h₂
    let minute ← twoDigits m₁ m₂
    if hour ≤ 23 ∧ minute ≤ 59 then
      if rest.head? = some ':' then afterSeconds rest else some rest
    else none
  | _ => none

/-- Whether characters are the offset of a time from that of the prime meridian, which may be left
out. -/
def isOffset : List Char → Bool
  | [] => true
  | ['Z'] => true
  | ['z'] => true
  | [sign, h₁, h₂, ':', m₁, m₂] =>
    (sign == '+' || sign == '-') && (twoDigits h₁ h₂).any (· ≤ 23) && (twoDigits m₁ m₂).any (· ≤ 59)
  | _ => false

/-- Whether characters are a date, a time, or a date and a time with an optional offset. -/
def isMoment (cs : List Char) : Bool :=
  match afterDate cs with
  | some [] => true
  | some (c :: rest) =>
    (c == 'T' || c == 't' || c == ' ') &&
      match afterTime rest with
      | some offset => isOffset offset
      | none => false
  | none => afterTime cs == some []

/-! ## Any of them -/

/-- The value that a run of characters is. -/
def readScalar (cs : List Char) : Option Item :=
  if cs = "true".toList then some (.bool true)
  else if cs = "false".toList then some (.bool false)
  else if isMoment cs then some (.moment (String.ofList cs))
  else
    match readInteger cs with
    | some n => some (.integer n)
    | none => (readFloat cs).map .float

/-- The characters that such a value is made of. -/
def isScalarChar (c : Char) : Bool :=
  c.isAlphanum || c == '+' || c == '-' || c == '_' || c == '.' || c == ':'

/-- A value of this kind at the front.  A space between a date and a digit belongs to the value. -/
def takeScalar (cs : List Char) : Option (Item × List Char) :=
  let run := cs.takeWhile isScalarChar
  let rest := cs.dropWhile isScalarChar
  match afterDate run, rest with
  | some [], ' ' :: d :: more =>
    if d.isDigit then
      (readScalar (run ++ ' ' :: (d :: more).takeWhile isScalarChar)).map fun item =>
        (item, (d :: more).dropWhile isScalarChar)
    else (readScalar run).map fun item => (item, rest)
  | _, _ => (readScalar run).map fun item => (item, rest)

end SearchTable.Toml
