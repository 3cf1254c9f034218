import SearchTable.Toml.Scalar
import SearchTable.Toml.Text
/-!
# Reading TOML text

`statements?` takes a text apart into statements, one a line, and `readDocument` puts the table
together that they describe.  A value that encloses others, a list or a table between braces, may be
nested `maxDepth` deep, and a key has at most as many names.

Between brackets and between braces, line ends and comments may stand wherever blanks may; only a
key with its points stands on one line.
-/

namespace SearchTable.Toml

/-- The greatest number of values that may enclose one another, and of names in one key. -/
def maxDepth : Nat := 80

/-! ## Blanks, comments and line ends -/

/-- The characters after the blanks at the front. -/
def skipSpace (cs : List Char) : List Char := cs.dropWhile isSpace

/-- The line end that a comment runs up to, from behind its mark. -/
def skipComment : List Char → Option (List Char)
  | [] => some []
  | '\n' :: cs => some ('\n' :: cs)
  | '\r' :: '\n' :: cs => some ('\r' :: '\n' :: cs)
  | c :: cs => if isControl c then none else skipComment cs

/-- What follows the end of a line, in front of which only blanks and a comment may stand. -/
def endLine (cs : List Char) : Option (List Char) :=
  let afterEnd : List Char → Option (List Char)
    | [] => some []
    | '\n' :: cs => some cs
    | '\r' :: '\n' :: cs => some cs
    | _ => none
  match skipSpace cs with
  | '#' :: cs => (skipComment cs).bind afterEnd
  | cs => afterEnd cs

/-- What follows blanks, line ends and comments inside of brackets and braces. -/
def skipFiller : (inComment : Bool) → List Char → Option (List Char)
  | _, [] => some []
  | _, '\n' :: cs => skipFiller false cs
  | _, '\r' :: '\n' :: cs => skipFiller false cs
  | true, c :: cs => if isControl c then none else skipFiller true cs
  | false, '#' :: cs => skipFiller true cs
  | false, c :: cs => if isSpace c then skipFiller false cs else some (c :: cs)

/-! ## Keys -/

/-- The characters of a name without quotation marks. -/
def isNameChar (c : Char) : Bool := c.isAlphanum || c == '_' || c == '-'

/-- A name at the front: a text on one line, or a run of name characters. -/
def takeName : List Char → Option (String × List Char)
  | '"' :: cs => (readQuoted cs).map fun (name, rest) => (String.ofList name, rest)
  | '\'' :: cs => (readPlain cs).map fun (name, rest) => (String.ofList name, rest)
  | cs =>
    let run := cs.takeWhile isNameChar
    if run.isEmpty then none else some (String.ofList run, cs.dropWhile isNameChar)

/-- A key at the front: names with points between them and blanks around each, of which there are at
most `fuel`. -/
def takeKey : (fuel : Nat) → List Char → Option (List String × List Char)
  | 0, _ => none
  | fuel + 1, cs => do
    let (name, cs) ← takeName (skipSpace cs)
    match skipSpace cs with
    | '.' :: cs =>
      let (path, rest) ← takeKey fuel cs
      some (name :: path, rest)
    | rest => some ([name], rest)

/-- A key at the front, if it does not have too many names. -/
def takePath (cs : List Char) : Option (List String × List Char) :=
  (takeKey (cs.length + 1) cs).filter fun (path, _) => path.length ≤ maxDepth

/-! ## Values -/

/-- A setting at the front, whose value is read by `value`; `skip` passes over what may stand around
the equals sign. -/
def takeSetting (skip : List Char → Option (List Char))
    (value : List Char → Option (Item × List Char)) (cs : List Char) :
    Option ((List String × Item) × List Char) := do
  let (path, cs) ← takePath cs
  match ← skip cs with
  | '=' :: cs =>
    let (item, rest) ← value (← skip cs)
    some ((path, item), rest)
  | _ => none

/-- The items of a list up to its closing bracket; a comma may follow the last one. -/
def takeItems (value : List Char → Option (Item × List Char)) :
    (fuel : Nat) → List Char → Option (List Item × List Char)
  | 0, _ => none
  | fuel + 1, cs => do
    match ← skipFiller false cs with
    | ']' :: rest => some ([], rest)
    | cs =>
      let (item, cs) ← value cs
      match ← skipFiller false cs with
      | ']' :: rest => some ([item], rest)
      | ',' :: cs =>
        let (items, rest) ← takeItems value fuel cs
        some (item :: items, rest)
      | _ => none

/-- The settings between braces up to the closing one; a comma may follow the last one. -/
def takeSettings (value : List Char → Option (Item × List Char)) :
    (fuel : Nat) → List Char → Option (List (List String × Item) × List Char)
  | 0, _ => none
  | fuel + 1, cs => do
    match ← skipFiller false cs with
    | '}' :: rest => some ([], rest)
    | cs =>
      let (setting, cs) ← takeSetting (skipFiller false) value cs
      match ← skipFiller false cs with
      | '}' :: rest => some ([setting], rest)
      | ',' :: cs =>
        let (settings, rest) ← takeSettings value fuel cs
        some (setting :: settings, rest)
      | _ => none

/-- A value at the front, which encloses others at most `depth` deep. -/
def takeValue : (depth : Nat) → List Char → Option (Item × List Char)
  | 0, '[' :: _ => none
  | 0, '{' :: _ => none
  | depth + 1, '[' :: cs =>
    (takeItems (takeValue depth) (cs.length + 1) cs).map fun (items, rest) => (.array items, rest)
  | depth + 1, '{' :: cs => do
    let (settings, rest) ← takeSettings (takeValue depth) (cs.length + 1) cs
    some (← Item.ofSettings? settings, rest)
  | _, '"' :: cs => (takeText ('"' :: cs)).map fun (s, rest) => (.text s, rest)
  | _, '\'' :: cs => (takeText ('\'' :: cs)).map fun (s, rest) => (.text s, rest)
  | _, cs => takeScalar cs

/-! ## Statements -/

/-- The path of a header between brackets, from behind the opening ones. -/
def takeHeader (closing : List Char) (cs : List Char) : Option (List String × List Char) := do
  let (path, cs) ← takePath cs
  if closing.isPrefixOf cs then some (path, cs.drop closing.length) else none

/-- A statement at the front. -/
def takeStatement : List Char → Option (Statement × List Char)
  | '[' :: '[' :: cs =>
    (takeHeader [']', ']'] cs).map fun (path, rest) => (.seriesHeader path, rest)
  | '[' :: cs => (takeHeader [']'] cs).map fun (path, rest) => (.header path, rest)
  | cs =>
    (takeSetting (some ∘ skipSpace) (takeValue maxDepth) cs).map fun ((path, item), rest) =>
      (.setting path item, rest)

/-- The statements of a text of at most `fuel` lines. -/
def takeStatements : (fuel : Nat) → List Char → Option (List Statement)
  | 0, _ => none
  | fuel + 1, cs =>
    match skipSpace cs with
    | [] => some []
    | c :: cs =>
      if c = '#' ∨ c = '\n' ∨ c = '\r' then do takeStatements fuel (← endLine (c :: cs))
      else do
        let (statement, rest) ← takeStatement (c :: cs)
        let statements ← takeStatements fuel (← endLine rest)
        some (statement :: statements)

/-- A text without the byte order mark in front of it, if there is one. -/
def withoutOrderMark : List Char → List Char
  | [] => []
  | c :: cs => if c.toNat = 0xFEFF then cs else c :: cs

/-- The statements of a text. -/
def statements? (text : String) : Option (List Statement) :=
  let cs := withoutOrderMark text.toList
  takeStatements (cs.length + 1) cs

/-- The table that a text describes. -/
def readDocument (text : String) : Option Entries := (statements? text).bind Item.ofStatements?

end SearchTable.Toml
