import SearchTable.Text.Blank
/-!
# Escaping in query literals

A backslash takes the meaning from the character after it.  `escape` writes a backslash before every
character that the query language reads as structure, so that a text of any content can stand where
a value is expected.
-/

namespace SearchTable.Text

/-- The characters that the query language gives a meaning of their own, blanks apart. -/
def operatorChars : List Char :=
  ['\\', '+', '-', '!', '(', ')', ':', '^', '[', ']', '"', '{', '}', '~', '*', '?', '|', '&', ';',
    '/']

/-- A character is escaped when it is an operator of the query language or blank. -/
def needsEscape (c : Char) : Bool := operatorChars.contains c || isBlank c

/-- A text with a backslash before every character that needs one. -/
def escapeChars : List Char → List Char
  | [] => []
  | c :: cs => if needsEscape c then '\\' :: c :: escapeChars cs else c :: escapeChars cs

/-- `escapeChars` on strings. -/
def escape (s : String) : String := String.ofList (escapeChars s.toList)

@[simp] theorem toList_escape (s : String) : (escape s).toList = escapeChars s.toList := by
  simp [escape]

end SearchTable.Text
