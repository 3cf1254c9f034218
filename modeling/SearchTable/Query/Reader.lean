import SearchTable.Query.Node
/-!
# Reading queries

The query language: `*:*`, `field:"term"`, bare `field:term`, ranges in square brackets (ends
included) and braces (ends excluded) with `*` for an open end, `AND`, `OR`, `NOT`, the signs `-` and
`!`, and parentheses.  A backslash takes the meaning from the character after it wherever a field
name or a value is read.

Every step reads from the front of the remaining characters and returns the rest.  Nesting is
limited by `maxDepth` and is the argument on which reading recurses; `chain` reads the operands of
`AND` and `OR`, of which there can be no more than there are characters.  A failing step tells how
many characters remained, from which `parse` computes the position.
-/

namespace SearchTable.Query

open Text

/-! ## Limits -/

/-- The greatest length of a query text in bytes. -/
def maxLength : Nat := 65536

/-- The greatest number of operands that may enclose one another. -/
def maxDepth : Nat := 128

/-! ## Steps -/

/-- Where and why reading stopped. -/
structure Halt where
  fault : SyntaxFault
  remaining : Nat
  deriving DecidableEq, Repr

/-- A step takes characters from the front and returns what it read with the rest. -/
abbrev Step (α : Type) := List Char → Except Halt (α × List Char)

/-- Stops in front of the given characters. -/
def halt {α : Type} (fault : SyntaxFault) (cs : List Char) : Except Halt α :=
  .error ⟨fault, cs.length⟩

/-- The characters after the blanks at the front. -/
def skipBlank (cs : List Char) : List Char := cs.dropWhile isBlank

/-- Whether a keyword may end in front of these characters. -/
def endsKeyword : List Char → Bool
  | [] => true
  | c :: _ => isBlank c || c == '('

/-- The characters after a keyword that stands at the front as a word of its own. -/
def keyword (word cs : List Char) : Option (List Char) :=
  (afterWord word cs).filter endsKeyword

/-- Passes blanks and then one given character. -/
def expect (c : Char) (cs : List Char) : Except Halt (List Char) :=
  match skipBlank cs with
  | [] => halt (.expected c) []
  | d :: rest => if d = c then .ok rest else halt (.expected c) (d :: rest)

/-- Reads up to the first character that stops the run and is not escaped.  A backslash stands for
the character after it; at the very end it stands for itself. -/
def readUntil (stop : Char → Bool) : List Char → List Char × List Char
  | [] => ([], [])
  | '\\' :: c :: cs =>
    let (run, rest) := readUntil stop cs
    (c :: run, rest)
  | c :: cs =>
    if stop c then ([], c :: cs)
    else
      let (run, rest) := readUntil stop cs
      (c :: run, rest)

/-! ## Clauses -/

/-- The characters that end a field name. -/
def endsField (c : Char) : Bool := c == ':' || isBlank c || c == '(' || c == ')'

/-- The characters that end the upper end of a range. -/
def endsUpper (c : Char) : Bool := c == ']' || c == '}' || isBlank c

/-- The characters that end a bare value. -/
def endsValue (c : Char) : Bool := isBlank c || c == ')'

/-- One end of a range: `*` leaves it open. -/
def rangeEnd (text : List Char) : Option String :=
  if text = ['*'] then none else some (String.ofList text)

/-- A value between quotation marks, from behind the first one. -/
def readQuoted (field : List Char) : Step Node := fun cs => do
  let (value, cs) := readUntil (· == '"') cs
  let cs ← expect '"' cs
  .ok (.term (String.ofList field) (String.ofList value), cs)

/-- A range, from behind its opening bracket. -/
def readRange (field : List Char) (lowerInclusive : Bool) : Step Node := fun cs =>
  let (lower, cs) := readUntil isBlank (skipBlank cs)
  let cs := skipBlank cs
  match keyword "TO".toList cs with
  | none => halt .rangeKeyword cs
  | some cs =>
    let (upper, cs) := readUntil endsUpper (skipBlank cs)
    let node := Node.range (String.ofList field) (rangeEnd lower) (rangeEnd upper) lowerInclusive
    match skipBlank cs with
    | ']' :: cs => .ok (node true, cs)
    | '}' :: cs => .ok (node false, cs)
    | cs => halt .unterminatedRange cs

/-- A bare value; the value `*` of the field `*` asks for every document. -/
def readBare (field : List Char) : Step Node := fun cs =>
  let (value, cs) := readUntil endsValue cs
  if field = ['*'] ∧ value = ['*'] then .ok (.all, cs)
  else if value.isEmpty then halt .value cs
  else .ok (.term (String.ofList field) (String.ofList value), cs)

/-- A clause: a field name, a colon, and a quoted value, a range or a bare value. -/
def readClause : Step Node := fun cs =>
  let (field, cs) := readUntil endsField cs
  if field.isEmpty then halt .fieldName cs
  else do
    match ← expect ':' cs with
    | '"' :: cs => readQuoted field cs
    | '[' :: cs => readRange field true cs
    | '{' :: cs => readRange field false cs
    | cs => readBare field cs

/-! ## Operators -/

/-- Operands with a keyword between them; `fuel` bounds their number. -/
def chainFrom (word : List Char) (operand : Step Node) : Nat → Step (List Node)
  | 0, cs => halt .unexpectedEnd cs
  | fuel + 1, cs => do
    let (first, cs) ← operand cs
    let cs := skipBlank cs
    match keyword word cs with
    | none => .ok ([first], cs)
    | some cs =>
      let (others, cs) ← chainFrom word operand fuel cs
      .ok (first :: others, cs)

/-- One operand stands for itself, several are combined. -/
def combine (make : List Node → Node) : List Node → Node
  | [n] => n
  | ns => make ns

/-- Operands with a keyword between them, combined into one node. -/
def chain (word : String) (make : List Node → Node) (operand : Step Node) : Step Node :=
  fun cs => do
    let (nodes, cs) ← chainFrom word.toList operand (cs.length + 1) cs
    .ok (combine make nodes, cs)

/-- A disjunction of conjunctions of operands. -/
def readDisjunction (operand : Step Node) : Step Node :=
  chain "OR" .or (chain "AND" .and operand)

/-- An operand: a negated one, one in parentheses, or a clause.  `levels` is the number of operands
that may still enclose one another. -/
def readOperand : (levels : Nat) → Step Node
  | 0, cs => halt .nestedTooDeeply cs
  | levels + 1, cs =>
    let cs := skipBlank cs
    match keyword "NOT".toList cs with
    | some cs => do
      let (node, cs) ← readOperand levels cs
      .ok (.not node, cs)
    | none =>
      match cs with
      | [] => halt .unexpectedEnd []
      | c :: rest =>
        if c = '-' ∨ c = '!' then do
          let (node, cs) ← readOperand levels rest
          .ok (.not node, cs)
        else if c = '(' then do
          let (node, cs) ← readDisjunction (readOperand levels) rest
          let cs ← expect ')' cs
          .ok (node, cs)
        else readClause (c :: rest)

/-! ## Texts -/

/-- The query that the characters of a whole text denote. -/
def parseChars (cs : List Char) : Except Halt Node := do
  let (node, rest) ← readDisjunction (readOperand maxDepth) cs
  match skipBlank rest with
  | [] => .ok node
  | rest => halt .trailingInput rest

/-- The query a text denotes. -/
def parse (text : String) : Except StoreError Node :=
  if maxLength < text.utf8ByteSize then .error (.compile (.query .tooLong))
  else
    match parseChars text.toList with
    | .ok node => .ok node
    | .error h => .error (.compile (.query (.syntaxFault (text.length - h.remaining) h.fault)))

end SearchTable.Query
