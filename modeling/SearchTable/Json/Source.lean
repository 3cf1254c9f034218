import SearchTable.Json.Number
import SearchTable.Text.Blank
/-!
# Reading JSON text

Reading goes in two stages.  `Source.ofText?` takes a text apart by the grammar alone; the result
still holds what is well formed but denotes nothing, such as a number that is too great or half of a
surrogate pair, because a reader may skip the parts that it does not ask for.  `Source.toJson?` then
reads a whole value, in which nothing of that kind may stand.

Containers may be nested `maxDepth` deep in what is read.  Members of an object keep their order and
their repetitions in a `Source`; in a value the names are in order and the last member of a name
counts.
-/

namespace SearchTable.Json

open Number Text

/-- JSON text taken apart.  A number or a text that denotes nothing is `none`. -/
inductive Source where
  | null
  | bool (b : Bool)
  | number (n : Option Json)
  | text (s : Option String)
  | array (items : List Source)
  | object (members : List (Option String × Source))
  deriving Inhabited

/-- The greatest number of containers that may enclose one another. -/
def maxDepth : Nat := 127

/-! ## Blanks, words and numbers -/

/-- The four characters that may stand between tokens. -/
def isSpace (c : Char) : Bool := c == ' ' || c == '\n' || c == '\t' || c == '\r'

/-- The characters after the blanks at the front. -/
def skipSpace (cs : List Char) : List Char := cs.dropWhile isSpace

/-- At least one digit from the front. -/
def readDigitRun (cs : List Char) : Option (List Char × List Char) :=
  let run := cs.takeWhile Char.isDigit
  if run.isEmpty then none else some (run, cs.dropWhile Char.isDigit)

/-- The digits in front of the point: a zero stands alone. -/
def readWhole (cs : List Char) : Option (List Char × List Char) := do
  let (run, rest) ← readDigitRun cs
  if run.head? = some '0' ∧ 1 < run.length then none else some (run, rest)

/-- The digits behind a point, if there is one. -/
def readFraction : List Char → Option (Option (List Char) × List Char)
  | '.' :: cs => do
    let (run, rest) ← readDigitRun cs
    some (some run, rest)
  | cs => some (none, cs)

/-- The exponent, if there is one. -/
def readExponentPart : List Char → Option (Option Int × List Char)
  | [] => some (none, [])
  | c :: cs =>
    if c = 'e' ∨ c = 'E' then do
      let (negative, digits) := takeSign cs
      let (run, rest) ← readDigitRun digits
      let n : Int := foldDigits 0 run
      some (some (if negative then -n else n), rest)
    else some (none, c :: cs)

/-- A number, from behind its minus sign. -/
def readNumber (negative : Bool) (cs : List Char) : Option (Source × List Char) := do
  let (whole, cs) ← readWhole cs
  let (fraction, cs) ← readFraction cs
  let (exponent, cs) ← readExponentPart cs
  some (.number (NumberParts.value ⟨negative, whole, fraction, exponent⟩), cs)

/-! ## Texts -/

/-- A piece of a text: a character as it stands, or a code unit that is written by its number. -/
inductive Piece where
  | char (c : Char)
  | unit (n : Nat)

/-- The character that stands for a letter behind a backslash. -/
def escapedChar? : Char → Option Char
  | '"' => some '"'
  | '\\' => some '\\'
  | '/' => some '/'
  | 'b' => some (Char.ofNat 8)
  | 'f' => some (Char.ofNat 12)
  | 'n' => some '\n'
  | 'r' => some '\r'
  | 't' => some '\t'
  | _ => none

/-- The pieces of a text up to its closing quotation mark. -/
def readPieces : List Char → Option (List Piece × List Char)
  | [] => none
  | '"' :: cs => some ([], cs)
  | '\\' :: 'u' :: a :: b :: c :: d :: cs => do
    let n := 4096 * (← hexValue? a) + 256 * (← hexValue? b) + 16 * (← hexValue? c) + (← hexValue? d)
    let (pieces, rest) ← readPieces cs
    some (.unit n :: pieces, rest)
  | '\\' :: c :: cs => do
    let e ← escapedChar? c
    let (pieces, rest) ← readPieces cs
    some (.char e :: pieces, rest)
  | c :: cs =>
    if c.toNat < 32 ∨ c = '\\' then none
    else do
      let (pieces, rest) ← readPieces cs
      some (.char c :: pieces, rest)

/-- The characters of a list of pieces.  Two code units that form a surrogate pair are one
character; half a pair denotes nothing. -/
def joinPieces : List Piece → Option (List Char)
  | [] => some []
  | .char c :: ps => (joinPieces ps).map (c :: ·)
  | .unit n :: ps =>
    if n < 0xD800 ∨ 0xDFFF < n then (joinPieces ps).map (Char.ofNat n :: ·)
    else
      match ps with
      | .unit m :: ps =>
        if n < 0xDC00 ∧ 0xDC00 ≤ m ∧ m ≤ 0xDFFF then
          (joinPieces ps).map (Char.ofNat (0x10000 + 1024 * (n - 0xD800) + (m - 0xDC00)) :: ·)
        else none
      | _ => none

/-- A text, from behind its opening quotation mark. -/
def readText (cs : List Char) : Option (Option String × List Char) :=
  (readPieces cs).map fun (pieces, rest) => ((joinPieces pieces).map String.ofList, rest)

/-! ## Values -/

mutual

/-- A value at the front.  `fuel` bounds the nesting and the length of containers. -/
def readValue : (fuel : Nat) → List Char → Option (Source × List Char)
  | 0, _ => none
  | fuel + 1, cs =>
    match skipSpace cs with
    | [] => none
    | '"' :: cs => (readText cs).map fun (s, rest) => (.text s, rest)
    | '[' :: cs =>
      match skipSpace cs with
      | ']' :: rest => some (.array [], rest)
      | cs => (readItems fuel cs).map fun (items, rest) => (.array items, rest)
    | '{' :: cs =>
      match skipSpace cs with
      | '}' :: rest => some (.object [], rest)
      | cs => (readMembers fuel cs).map fun (members, rest) => (.object members, rest)
    | '-' :: cs => readNumber true cs
    | c :: cs =>
      if c.isDigit then readNumber false (c :: cs)
      else
        match afterWord "null".toList (c :: cs) with
        | some rest => some (.null, rest)
        | none =>
          match afterWord "true".toList (c :: cs) with
          | some rest => some (.bool true, rest)
          | none => (afterWord "false".toList (c :: cs)).map fun rest => (.bool false, rest)

/-- The items of an array up to its closing bracket; there is at least one. -/
def readItems : (fuel : Nat) → List Char → Option (List Source × List Char)
  | 0, _ => none
  | fuel + 1, cs => do
    let (item, cs) ← readValue fuel cs
    match skipSpace cs with
    | ',' :: cs =>
      let (items, rest) ← readItems fuel cs
      some (item :: items, rest)
    | ']' :: rest => some ([item], rest)
    | _ => none

/-- The members of an object up to its closing brace; there is at least one. -/
def readMembers : (fuel : Nat) → List Char → Option (List (Option String × Source) × List Char)
  | 0, _ => none
  | fuel + 1, cs =>
    match skipSpace cs with
    | '"' :: cs => do
      let (name, cs) ← readText cs
      match skipSpace cs with
      | ':' :: cs =>
        let (value, cs) ← readValue fuel cs
        match skipSpace cs with
        | ',' :: cs =>
          let (members, rest) ← readMembers fuel cs
          some ((name, value) :: members, rest)
        | '}' :: rest => some ([(name, value)], rest)
        | _ => none
      | _ => none
    | _ => none

end

/-- The one value a text consists of, with blanks around it. -/
def Source.ofText? (text : String) : Option Source :=
  let cs := text.toList
  match readValue (2 * cs.length + 2) cs with
  | some (source, rest) => if (skipSpace rest).isEmpty then some source else none
  | none => none

/-! ## From source to value -/

namespace Source

/-- Adds a member to an object whose names are in order; a member of the same name is replaced. -/
def insertMember (name : String) (value : Json) : List (String × Json) → List (String × Json)
  | [] => [(name, value)]
  | (n, v) :: rest =>
    if name < n then (name, value) :: (n, v) :: rest
    else if name = n then (name, value) :: rest
    else (n, v) :: insertMember name value rest

/-- The value a source denotes, with at most `depth` containers around one another. -/
def toJsonWithin : (depth : Nat) → Source → Option Json
  | _, .null => some .null
  | _, .bool b => some (.bool b)
  | _, .number n => n
  | _, .text s => s.map .text
  | 0, .array _ => none
  | 0, .object _ => none
  | depth + 1, .array items => (items.mapM (toJsonWithin depth)).map .array
  | depth + 1, .object members => do
    let pairs ← members.mapM fun (name, value) => do
      some (← name, ← toJsonWithin depth value)
    some (.object (pairs.foldl (fun sorted (name, value) => insertMember name value sorted) []))

/-- The text a source denotes, if it is one. -/
def toText? : Source → Option String
  | .text s => s
  | _ => none

/-- The truth value a source denotes, if it is one. -/
def toBool? : Source → Option Bool
  | .bool b => some b
  | _ => none

/-- The members of an object by name; a name that denotes nothing spoils the whole object. -/
def toMembers? : Source → Option (List (String × Source))
  | .object members => members.mapM fun (name, value) => name.map fun n => (n, value)
  | _ => none

/-- The members of a list that have a name. -/
def named (name : String) (members : List (String × Source)) : List Source :=
  (members.filter fun m => m.1 == name).map (·.2)

/-- The one member of a name that must occur exactly once. -/
def required (name : String) (members : List (String × Source)) : Option Source :=
  match named name members with
  | [value] => some value
  | _ => none

/-- The member of a name that may be left out but not be repeated. -/
def optional (name : String) (members : List (String × Source)) : Option (Option Source) :=
  match named name members with
  | [] => some none
  | [value] => some (some value)
  | _ => none

end Source

end SearchTable.Json
