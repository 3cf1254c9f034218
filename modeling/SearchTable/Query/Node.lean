import SearchTable.Document
import SearchTable.Text.Blank
import SearchTable.Value.Basic
/-!
# Queries and their meaning

A query is a boolean combination of terms and ranges over the fields of a document.  A field offers
its values: none when it is absent or null, the items of a list, otherwise its one value.  A term or
a range holds of a document when it holds of one of these.

A literal is text, and the stored value decides how it is read: as a number beside a number, as a
truth value beside a truth value, as text beside text.  A literal that does not read as required
compares with nothing, so the clause fails for that value.
-/

namespace SearchTable.Query

open Number Text

/-- A query. -/
inductive Node where
  | all
  | term (field value : String)
  | range (field : String) (lower upper : Option String) (lowerInclusive upperInclusive : Bool)
  | and (items : List Node)
  | or (items : List Node)
  | not (item : Node)
  deriving Repr, Inhabited

/-! ## Values of a field -/

/-- The values a field of a document offers to a clause. -/
def fieldValues (d : Document) (field : String) : List Stored :=
  match d.get? field with
  | none => []
  | some .null => []
  | some (.array items) => items
  | some v => [v]

/-- A stored number in double precision. -/
def toNumber? : Stored → Option (Binary .double)
  | .int32 n => some (.ofInt n.toInt)
  | .int64 n => some (.ofInt n.toInt)
  | .double x => some x
  | _ => none

/-- How a stored value compares with a query literal, read by the type of the stored value. -/
def compareLiteral (v : Stored) (literal : String) : Option Ordering :=
  match toNumber? v with
  | some x => (readBinary (trim literal)).bind x.compare?
  | none =>
    match v with
    | .text s => some (compare s literal)
    | .bool b => (Value.readBool literal).map (compare b)
    | _ => none

/-! ## Matching -/

/-- A value is not below a lower end. -/
def aboveLower (v : Stored) (lower : Option String) (inclusive : Bool) : Bool :=
  match lower with
  | none => true
  | some l =>
    match compareLiteral v l with
    | some .gt => true
    | some .eq => inclusive
    | _ => false

/-- A value is not above an upper end. -/
def belowUpper (v : Stored) (upper : Option String) (inclusive : Bool) : Bool :=
  match upper with
  | none => true
  | some u =>
    match compareLiteral v u with
    | some .lt => true
    | some .eq => inclusive
    | _ => false

mutual

/-- Whether a document satisfies a query. -/
def Node.holds (d : Document) : Node → Bool
  | .all => true
  | .term field value => (fieldValues d field).any fun v => compareLiteral v value == some .eq
  | .range field lower upper lowerInclusive upperInclusive =>
    (fieldValues d field).any fun v =>
      aboveLower v lower lowerInclusive && belowUpper v upper upperInclusive
  | .and items => allHold d items
  | .or items => someHolds d items
  | .not item => !item.holds d

/-- Whether a document satisfies every query of a list. -/
def allHold (d : Document) : List Node → Bool
  | [] => true
  | n :: ns => n.holds d && allHold d ns

/-- Whether a document satisfies some query of a list. -/
def someHolds (d : Document) : List Node → Bool
  | [] => false
  | n :: ns => n.holds d || someHolds d ns

end

end SearchTable.Query
