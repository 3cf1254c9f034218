/-!
# Blank characters

The characters that separate words: those with the Unicode property White_Space.  A string is
*trimmed* by dropping the blank characters at both of its ends, and it is *blank* when nothing
remains.

Texts are taken apart as lists of characters; the functions on `String` are the same functions
behind `String.toList`.
-/

namespace SearchTable.Text

/-- The characters with the Unicode property White_Space: the five control characters from the tab
to the carriage return, the space, the next-line control and the spaces of other scripts. -/
def isBlank (c : Char) : Bool :=
  let n := c.toNat
  (9 ≤ n && n ≤ 13) || n == 0x20 || n == 0x85 || n == 0xA0 || n == 0x1680 ||
    (0x2000 ≤ n && n ≤ 0x200A) || n == 0x2028 || n == 0x2029 || n == 0x202F || n == 0x205F ||
    n == 0x3000

/-- The characters of a text between its first and its last character that is not blank. -/
def trimChars (cs : List Char) : List Char :=
  ((cs.dropWhile isBlank).reverse.dropWhile isBlank).reverse

/-- A text without the blank characters at its ends. -/
def trim (s : String) : String := String.ofList (trimChars s.toList)

/-- A text that holds no character but blank ones. -/
def isBlankText (s : String) : Bool := s.toList.all isBlank

/-- Letters of the Latin alphabet in lower case; every other character is kept. -/
def lower (s : String) : String := String.ofList (s.toList.map Char.toLower)

/-- The pieces of a text between the occurrences of a separator; there is always one piece more than
there are separators. -/
def splitChars (separator : Char) : List Char → List (List Char)
  | [] => [[]]
  | c :: cs =>
    if c = separator then [] :: splitChars separator cs
    else
      match splitChars separator cs with
      | [] => [[c]]
      | piece :: pieces => (c :: piece) :: pieces

/-- `splitChars` on strings. -/
def split (separator : Char) (s : String) : List String :=
  (splitChars separator s.toList).map String.ofList

/-- The part of a text before the first occurrence of a separator and the part after it, if the
separator occurs. -/
def cutChars (separator : Char) : List Char → Option (List Char × List Char)
  | [] => none
  | c :: cs =>
    if c = separator then some ([], cs)
    else (cutChars separator cs).map fun (before, after) => (c :: before, after)

/-- `cutChars` on strings. -/
def cut (separator : Char) (s : String) : Option (String × String) :=
  (cutChars separator s.toList).map fun (before, after) =>
    (String.ofList before, String.ofList after)

/-- The characters after `word`, if they start with it. -/
def afterWord : (word cs : List Char) → Option (List Char)
  | [], cs => some cs
  | w :: ws, c :: cs => if w = c then afterWord ws cs else none
  | _ :: _, [] => none

theorem splitChars_ne_nil (separator : Char) (cs : List Char) :
    splitChars separator cs ≠ [] := by
  cases cs with
  | nil => simp [splitChars]
  | cons c cs =>
    simp only [splitChars]
    split
    · simp
    · split <;> simp

end SearchTable.Text
