import SearchTable.Error
import SearchTable.Text.Escape
import SearchTable.Value.Stored
/-!
# Typed values

A table declares columns of seven types, and a record holds one typed value per column.  A value
goes to the store as a `Stored` one and comes back through the type of its column; it stands in a
query as a literal, escaped where it is text.

* `Value.toStored` and `Value.ofStored` are the two ways between a record and a document.
* `Value.plain` is the text that identities are derived from, `Value.literal` the text of queries.
* `Value.ofLiteral` reads a text by the narrowest type that fits it.
-/

namespace SearchTable

open Number Text

/-! ## Columns -/

/-- The types a column can be declared with. -/
inductive ColumnType where
  | int
  | long
  | float
  | double
  | bool
  | string
  | object
  deriving DecidableEq, Repr

namespace ColumnType

/-- The name of a column type in declarations. -/
def name : ColumnType → String
  | int => "INT"
  | long => "LONG"
  | float => "FLOAT"
  | double => "DOUBLE"
  | bool => "BOOL"
  | string => "STRING"
  | object => "OBJECT"

/-- The field type of the store for a column type. -/
def fieldType : ColumnType → String
  | int => "pint"
  | long => "plong"
  | float => "pfloat"
  | double => "pdouble"
  | bool => "boolean"
  | string => "string"
  | object => "binary"

/-- The column type of a name, in letters of any case. -/
def read (text : String) : Except StoreError ColumnType :=
  match lower text with
  | "int" => .ok int
  | "long" => .ok long
  | "float" => .ok float
  | "double" => .ok double
  | "bool" => .ok bool
  | "boolean" => .ok bool
  | "string" => .ok string
  | "object" => .ok object
  | other => .error (.config (.columnType other))

/-- Every type in the order of declaration. -/
def all : List ColumnType := [int, long, float, double, bool, string, object]

end ColumnType

/-- A declared column. -/
structure Column where
  name : String
  type : ColumnType
  deriving DecidableEq, Repr

/-! ## Values -/

/-- A value of a record. -/
inductive Value where
  | int (n : Int32)
  | long (n : Int64)
  | float (x : Binary .single)
  | double (x : Binary .double)
  | bool (b : Bool)
  | text (s : String)
  | object (v : Stored)
  | null
  deriving DecidableEq, Repr, Inhabited

/-- The values of one row, in the order of the columns. -/
abbrev Record := List Value

namespace Value

/-- Whether a value is absent. -/
def isNull : Value → Bool
  | null => true
  | _ => false

theorem isNull_iff {v : Value} : v.isNull = true ↔ v = null := by
  cases v <;> simp [isNull]

/-- The value as the store keeps it; single precision is widened. -/
def toStored : Value → Stored
  | int n => .int32 n
  | long n => .int64 n
  | float x => .double (x.convert .double)
  | double x => .double x
  | bool b => .bool b
  | text s => .text s
  | object v => v
  | null => .null

/-- A truth value from exactly the words `true` and `false`. -/
def readBool (s : String) : Option Bool :=
  match s with
  | "true" => some true
  | "false" => some false
  | _ => none

/-- A number as a 32-bit integer: its integer part within the range. -/
def truncateInt32 (x : Binary .double) : Int32 :=
  Int32.ofInt (x.truncate Int32.minValue.toInt Int32.maxValue.toInt)

/-- A number as a 64-bit integer: its integer part within the range. -/
def truncateInt64 (x : Binary .double) : Int64 :=
  Int64.ofInt (x.truncate Int64.minValue.toInt Int64.maxValue.toInt)

/-- A single stored value, not a list, read as a value of a column type.  What does not fit the type
is absent. -/
def ofScalar (v : Stored) (type : ColumnType) : Value :=
  match type with
  | .int =>
    match v with
    | .int32 n => int n
    | .int64 n => (toInt32? n.toInt).elim null int
    | .double x => int (truncateInt32 x)
    | .text s => (readInt32 (trim s)).elim null int
    | _ => null
  | .long =>
    match v with
    | .int32 n => long (Int64.ofInt n.toInt)
    | .int64 n => long n
    | .double x => long (truncateInt64 x)
    | .text s => (readInt64 (trim s)).elim null long
    | _ => null
  | .float =>
    match v with
    | .int32 n => float (.ofInt n.toInt)
    | .int64 n => float (.ofInt n.toInt)
    | .double x => float (x.convert .single)
    | .text s => (readBinary (trim s)).elim null float
    | _ => null
  | .double =>
    match v with
    | .int32 n => double (.ofInt n.toInt)
    | .int64 n => double (.ofInt n.toInt)
    | .double x => double x
    | .text s => (readBinary (trim s)).elim null double
    | _ => null
  | .bool =>
    match v with
    | .bool b => bool b
    | .text s => (readBool (trim s)).elim null bool
    | _ => null
  | .string => text v.plain
  | .object => object v

/-- A stored value read as a value of a column type.  Of a list only the first item counts. -/
def ofStored (v : Stored) (type : ColumnType) : Value :=
  match v with
  | .array [] => null
  | .array (.null :: _) => null
  | .array (item :: _) => ofScalar item type
  | .null => null
  | v => ofScalar v type

/-- The text of a value without escapes. -/
def plain : Value → String
  | int n => integerText n.toInt
  | long n => integerText n.toInt
  | float x => x.text
  | double x => x.text
  | bool b => if b then "true" else "false"
  | text s => s
  | object v => v.plain
  | null => "null"

/-- The text of a value as a query literal: texts are escaped, numbers are not. -/
def literal : Value → String
  | text s => escape s
  | object v => escape v.plain
  | v => v.plain

/-- The value a literal denotes, by the narrowest type that fits: absent, a truth value, an integer,
a floating-point number, or text. -/
def ofLiteral (s : String) : Value :=
  if s = "null" then null
  else
    match readBool s with
    | some b => bool b
    | none =>
      match readInt64 s with
      | some n => (toInt32? n.toInt).elim (long n) int
      | none =>
        match readBinary s with
        | some x => double x
        | none => text s

end Value

end SearchTable
