import SearchTable.Expression.Basic
/-!
# Clauses

How a comparison between one field and one value is written as a clause of the query language.  The
shape depends on the comparison and on the side on which the field stands, by a fixed table; the
rows for a field on the right are not the algebraic converse of those for a field on the left.
-/

namespace SearchTable.Condition

/-- The side of a comparison on which the field stands. -/
inductive Side where
  | left
  | right
  deriving DecidableEq, Repr

/-- The shape of a clause. -/
inductive Shape where
  /-- A range that is open below. -/
  | upper (inclusive : Bool)
  /-- A range that is open above. -/
  | lower (inclusive : Bool)
  | equal
  | notEqual
  deriving DecidableEq, Repr

/-- The shape of the clause for a comparison with the field on a side. -/
def shapeOf : Comparison → Side → Shape
  | .equal, _ => .equal
  | .notEqual, _ => .notEqual
  | .less, .left => .upper false
  | .lessEqual, .left => .upper true
  | .greater, .left => .lower false
  | .greaterEqual, .left => .lower true
  | .less, .right => .lower true
  | .lessEqual, .right => .lower false
  | .greater, .right => .upper true
  | .greaterEqual, .right => .upper false

/-- The opening bracket of a range. -/
def openBracket (inclusive : Bool) : Char := if inclusive then '[' else '{'

/-- The closing bracket of a range. -/
def closeBracket (inclusive : Bool) : Char := if inclusive then ']' else '}'

/-- The characters of a clause on a field with the text of a value. -/
def renderChars (shape : Shape) (field value : List Char) : List Char :=
  match shape with
  | .upper inclusive =>
    field ++ ':' :: openBracket inclusive :: "* TO ".toList ++ value ++ [closeBracket inclusive]
  | .lower inclusive =>
    field ++ ':' :: openBracket inclusive :: value ++ " TO *".toList ++ [closeBracket inclusive]
  | .equal => field ++ ':' :: '"' :: value ++ ['"']
  | .notEqual => '!' :: field ++ ':' :: '"' :: value ++ ['"']

/-- The clause on a field with the text of a value. -/
def render (shape : Shape) (field value : String) : String :=
  String.ofList (renderChars shape field.toList value.toList)

end SearchTable.Condition
