import SearchTable.Number.Decimal
import SearchTable.Text.Quoted
/-!
# JSON values and their text

`Json` is a value of the format: integers of any size and floating-point numbers are apart, and an
object is the list of its members in the order in which they are written.

The text of a value comes in two layouts.  The compact one has no blanks; the indented one puts
every item on a line of its own.  A floating-point number is written with its shortest digits, a tie
to the even one, positionally while its point stands among or near the digits and with an exponent
otherwise, so that it always differs from an integer.
-/

namespace SearchTable

open Number

/-- A JSON value. -/
inductive Json where
  | null
  | bool (b : Bool)
  | integer (n : Int)
  | float (x : Binary .double)
  | text (s : String)
  | array (items : List Json)
  | object (members : List (String × Json))
  deriving Repr, Inhabited

namespace Json

/-- A number of things as a JSON value. -/
def ofNat (n : Nat) : Json := .integer n

/-- A text, or null when there is none. -/
def textOrNull : Option String → Json
  | none => .null
  | some s => .text s

/-! ## Scalars -/

/-- A number below 16 as a lower-case hexadecimal digit. -/
def hexDigit (n : Nat) : Char := Nat.digitChar n

/-- One character of a text, escaped where the format demands it. -/
def escapeChar (c : Char) : List Char :=
  if c = '"' then ['\\', '"']
  else if c = '\\' then ['\\', '\\']
  else if c = '\n' then ['\\', 'n']
  else if c = '\r' then ['\\', 'r']
  else if c = '\t' then ['\\', 't']
  else if c.toNat = 8 then ['\\', 'b']
  else if c.toNat = 12 then ['\\', 'f']
  else if c.toNat < 32 then
    ['\\', 'u', '0', '0', hexDigit (c.toNat / 16), hexDigit (c.toNat % 16)]
  else [c]

/-- A text between quotation marks. -/
def textChars (s : String) : List Char := '"' :: s.toList.flatMap escapeChar ++ ['"']

/-- The greatest number of digits in front of the point in positional notation. -/
def positionalDigits : Int := 16

/-- The greatest number of zeros between the point and the first digit, the zero in front of the
point included, in positional notation. -/
def positionalZeros : Int := 5

/-- An exponent, which always has a sign. -/
def exponentChars (n : Int) : List Char :=
  (if n < 0 then '-' else '+') :: digits n.natAbs

/-- A decimal as the format writes a floating-point number. -/
def decimalChars (d : Decimal) : List Char :=
  let ds := digits d.coefficient
  let point : Int := ds.length + d.scale
  if 0 ≤ d.scale ∧ point ≤ positionalDigits then d.positional ++ ['.', '0']
  else if d.scale < 0 ∧ -positionalZeros < point ∧ point ≤ positionalDigits then d.positional
  else
    let fraction := ds.drop 1
    let mantissa := ds.take 1 ++ if fraction.isEmpty then [] else '.' :: fraction
    mantissa ++ 'e' :: exponentChars (point - 1)

/-- A floating-point number; the format has no text for one that is not finite. -/
def floatChars : Binary .double → List Char
  | .nan => "null".toList
  | .number negative rank =>
    if rank.val = Width.double.infinityRank then "null".toList
    else
      let body := decimalChars (shortest .double .even rank.val)
      if negative then '-' :: body else body

/-! ## Compact text -/

mutual

/-- The text of a value without blanks. -/
def compactChars : Json → List Char
  | .null => "null".toList
  | .bool b => if b then "true".toList else "false".toList
  | .integer n => (integerText n).toList
  | .float x => floatChars x
  | .text s => textChars s
  | .array items => '[' :: compactItems items ++ [']']
  | .object members => '{' :: compactMembers members ++ ['}']

/-- The items of an array with commas between them. -/
def compactItems : List Json → List Char
  | [] => []
  | [item] => item.compactChars
  | item :: items => item.compactChars ++ ',' :: compactItems items

/-- The members of an object with commas between them. -/
def compactMembers : List (String × Json) → List Char
  | [] => []
  | [(name, value)] => textChars name ++ ':' :: value.compactChars
  | (name, value) :: members =>
    textChars name ++ ':' :: value.compactChars ++ ',' :: compactMembers members

end

/-- The compact text of a value. -/
def compact (j : Json) : String := String.ofList j.compactChars

/-! ## Indented text -/

/-- The start of a line at a depth of nesting: two spaces for each level. -/
def lineStart (depth : Nat) : List Char := '\n' :: List.replicate (2 * depth) ' '

mutual

/-- The text of a value with one item or member to a line; empty containers stay on one line. -/
def indentedChars (depth : Nat) : Json → List Char
  | .array [] => ['[', ']']
  | .array items => '[' :: indentedItems (depth + 1) items ++ lineStart depth ++ [']']
  | .object [] => ['{', '}']
  | .object members => '{' :: indentedMembers (depth + 1) members ++ lineStart depth ++ ['}']
  | .null => "null".toList
  | .bool b => if b then "true".toList else "false".toList
  | .integer n => (integerText n).toList
  | .float x => floatChars x
  | .text s => textChars s

/-- The items of an array, each on a line of its own. -/
def indentedItems (depth : Nat) : List Json → List Char
  | [] => []
  | [item] => lineStart depth ++ item.indentedChars depth
  | item :: items => lineStart depth ++ item.indentedChars depth ++ ',' :: indentedItems depth items

/-- The members of an object, each on a line of its own. -/
def indentedMembers (depth : Nat) : List (String × Json) → List Char
  | [] => []
  | [(name, value)] => lineStart depth ++ textChars name ++ ':' :: ' ' :: value.indentedChars depth
  | (name, value) :: members =>
    lineStart depth ++ textChars name ++ ':' :: ' ' :: value.indentedChars depth ++
      ',' :: indentedMembers depth members

end

/-- The indented text of a value. -/
def indented (j : Json) : String := String.ofList (j.indentedChars 0)

end Json

end SearchTable
