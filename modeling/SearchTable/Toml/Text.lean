import SearchTable.Toml.Basic
/-!
# Texts in TOML

Texts stand between quotation marks, in which a backslash gives the character after it a meaning, or
between apostrophes, in which every character stands for itself.  Three marks in a row open a text
that may run over several lines; a line end directly behind them does not belong to it.

All readers start behind the opening mark and return what follows the closing one.
-/

namespace SearchTable.Toml

open Number

/-- Control characters other than the tab, which may not stand in texts and comments. -/
def isControl (c : Char) : Bool := (c.toNat < 32 && c != '\t') || c.toNat == 127

/-- Blanks within a line. -/
def isSpace (c : Char) : Bool := c == ' ' || c == '\t'

/-- The character of a code point written in hexadecimal digits. -/
def charOfCode? (ds : List Char) : Option Char := do
  let n ← readBase 16 ds
  if n.isValidChar then some (Char.ofNat n) else none

/-- The character that stands for a letter behind a backslash. -/
def escapedChar? : Char → Option Char
  | '"' => some '"'
  | '\\' => some '\\'
  | 'b' => some (Char.ofNat 8)
  | 't' => some '\t'
  | 'n' => some '\n'
  | 'f' => some (Char.ofNat 12)
  | 'r' => some '\r'
  | 'e' => some (Char.ofNat 27)
  | _ => none

/-! ## Texts on one line -/

/-- A text with escapes up to its closing quotation mark. -/
def readQuoted : List Char → Option (List Char × List Char)
  | [] => none
  | '"' :: rest => some ([], rest)
  | '\\' :: 'x' :: a :: b :: cs => do
    let char ← charOfCode? [a, b]
    let (text, rest) ← readQuoted cs
    some (char :: text, rest)
  | '\\' :: 'u' :: a :: b :: c :: d :: cs => do
    let char ← charOfCode? [a, b, c, d]
    let (text, rest) ← readQuoted cs
    some (char :: text, rest)
  | '\\' :: 'U' :: a :: b :: c :: d :: e :: f :: g :: h :: cs => do
    let char ← charOfCode? [a, b, c, d, e, f, g, h]
    let (text, rest) ← readQuoted cs
    some (char :: text, rest)
  | '\\' :: c :: cs => do
    let char ← escapedChar? c
    let (text, rest) ← readQuoted cs
    some (char :: text, rest)
  | c :: cs =>
    if isControl c || c == '\\' then none
    else (readQuoted cs).map fun (text, rest) => (c :: text, rest)

/-- A text without escapes up to its closing apostrophe. -/
def readPlain : List Char → Option (List Char × List Char)
  | [] => none
  | '\'' :: rest => some ([], rest)
  | c :: cs =>
    if isControl c then none else (readPlain cs).map fun (text, rest) => (c :: text, rest)

/-! ## Texts over several lines -/

/-- The characters after a line end directly at the front, if there is one. -/
def dropLineEnd : List Char → List Char
  | '\n' :: cs => cs
  | '\r' :: '\n' :: cs => cs
  | cs => cs

/-- Up to two marks directly behind the three closing ones, which belong to the text. -/
def trailingMarks (mark : Char) : List Char → List Char × List Char
  | a :: b :: cs =>
    if a = mark then if b = mark then ([a, b], cs) else ([a], b :: cs) else ([], a :: b :: cs)
  | [a] => if a = mark then ([a], []) else ([], [a])
  | [] => ([], [])

/-- Where a reader stands with respect to a backslash at the end of a line. -/
inductive Fold where
  /-- No such backslash is in force. -/
  | none
  /-- Behind the backslash, where only blanks may stand up to the line end. -/
  | opened
  /-- Behind the line end, where all blanks and line ends are passed over. -/
  | skipping
  deriving DecidableEq, Repr

/-- A text with escapes over several lines.  A backslash at the end of a line takes away that line
end and all blanks and line ends after it. -/
def readQuotedLines : Fold → List Char → Option (List Char × List Char)
  | _, [] => Option.none
  | .opened, '\n' :: cs => readQuotedLines .skipping cs
  | .opened, '\r' :: '\n' :: cs => readQuotedLines .skipping cs
  | .opened, c :: cs => if isSpace c then readQuotedLines .opened cs else Option.none
  | .skipping, '\n' :: cs => readQuotedLines .skipping cs
  | .skipping, '\r' :: '\n' :: cs => readQuotedLines .skipping cs
  | .skipping, ' ' :: cs => readQuotedLines .skipping cs
  | .skipping, '\t' :: cs => readQuotedLines .skipping cs
  | _, '"' :: '"' :: '"' :: cs => some (trailingMarks '"' cs)
  | _, '\\' :: 'x' :: a :: b :: cs => do
    let char ← charOfCode? [a, b]
    let (text, rest) ← readQuotedLines .none cs
    some (char :: text, rest)
  | _, '\\' :: 'u' :: a :: b :: c :: d :: cs => do
    let char ← charOfCode? [a, b, c, d]
    let (text, rest) ← readQuotedLines .none cs
    some (char :: text, rest)
  | _, '\\' :: 'U' :: a :: b :: c :: d :: e :: f :: g :: h :: cs => do
    let char ← charOfCode? [a, b, c, d, e, f, g, h]
    let (text, rest) ← readQuotedLines .none cs
    some (char :: text, rest)
  | _, '\\' :: '\n' :: cs => readQuotedLines .skipping cs
  | _, '\\' :: '\r' :: '\n' :: cs => readQuotedLines .skipping cs
  | _, '\\' :: c :: cs =>
    if isSpace c then readQuotedLines .opened cs
    else do
      let char ← escapedChar? c
      let (text, rest) ← readQuotedLines .none cs
      some (char :: text, rest)
  | _, '\r' :: '\n' :: cs =>
    (readQuotedLines .none cs).map fun (text, rest) => ('\r' :: '\n' :: text, rest)
  | _, c :: cs =>
    if (isControl c && c != '\n') || c == '\\' then Option.none
    else (readQuotedLines .none cs).map fun (text, rest) => (c :: text, rest)

/-- A text without escapes over several lines. -/
def readPlainLines : List Char → Option (List Char × List Char)
  | [] => none
  | '\'' :: '\'' :: '\'' :: cs => some (trailingMarks '\'' cs)
  | '\r' :: '\n' :: cs => (readPlainLines cs).map fun (text, rest) => ('\r' :: '\n' :: text, rest)
  | c :: cs =>
    if isControl c && c != '\n' then none
    else (readPlainLines cs).map fun (text, rest) => (c :: text, rest)

/-! ## Any of them -/

/-- A text of one of the four kinds at the front, from its opening mark. -/
def takeText : List Char → Option (String × List Char)
  | '"' :: '"' :: '"' :: cs => finish (readQuotedLines .none (dropLineEnd cs))
  | '"' :: cs => finish (readQuoted cs)
  | '\'' :: '\'' :: '\'' :: cs => finish (readPlainLines (dropLineEnd cs))
  | '\'' :: cs => finish (readPlain cs)
  | _ => none
where
  /-- The characters of a text as a string. -/
  finish (result : Option (List Char × List Char)) : Option (String × List Char) :=
    result.map fun (text, rest) => (String.ofList text, rest)

end SearchTable.Toml
