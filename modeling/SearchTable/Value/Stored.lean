import SearchTable.Number.Decimal
/-!
# Stored values

What a document store keeps under a field: scalars, lists and nested documents.  A nested document
is its list of fields in insertion order; `Document` wraps such a list where it is a document of the
store.

Left out are the other kinds of the binary format: dates and timestamps, identifiers of objects,
binary data, regular expressions, code, symbols, references, 128-bit decimals, and the undefined,
least and greatest values.  Nothing here makes or asks for one of them.  Each would be taken as a
nested document is that is no marker, but for the text that shows it: it is absent from every column
but those of texts and objects, it compares with no literal, and it is kept as it is.
-/

namespace SearchTable

open Number

/-- A value as the store keeps it. -/
inductive Stored where
  | null
  | bool (b : Bool)
  | int32 (n : Int32)
  | int64 (n : Int64)
  | double (x : Binary .double)
  | text (s : String)
  | array (items : List Stored)
  | document (fields : List (String × Stored))
  deriving Repr, Inhabited

namespace Stored

/-! ## Equality -/

mutual

/-- Decides whether two stored values are the same. -/
def decEq : (a b : Stored) → Decidable (a = b)
  | .null, b => by cases b <;> first | exact isTrue rfl | exact isFalse nofun
  | .bool x, b => by
    cases b with
    | bool y => exact decidable_of_iff (x = y) (by simp)
    | _ => exact isFalse nofun
  | .int32 x, b => by
    cases b with
    | int32 y => exact decidable_of_iff (x = y) (by simp)
    | _ => exact isFalse nofun
  | .int64 x, b => by
    cases b with
    | int64 y => exact decidable_of_iff (x = y) (by simp)
    | _ => exact isFalse nofun
  | .double x, b => by
    cases b with
    | double y => exact decidable_of_iff (x = y) (by simp)
    | _ => exact isFalse nofun
  | .text x, b => by
    cases b with
    | text y => exact decidable_of_iff (x = y) (by simp)
    | _ => exact isFalse nofun
  | .array xs, b => by
    cases b with
    | array ys => exact @decidable_of_iff _ (xs = ys) (by simp) (decEqItems xs ys)
    | _ => exact isFalse nofun
  | .document xs, b => by
    cases b with
    | document ys => exact @decidable_of_iff _ (xs = ys) (by simp) (decEqFields xs ys)
    | _ => exact isFalse nofun

/-- Decides whether two lists of stored values are the same. -/
def decEqItems : (xs ys : List Stored) → Decidable (xs = ys)
  | [], [] => isTrue rfl
  | [], _ :: _ => isFalse nofun
  | _ :: _, [] => isFalse nofun
  | x :: xs, y :: ys =>
    have := decEq x y
    have := decEqItems xs ys
    decidable_of_iff (x = y ∧ xs = ys) (by simp)

/-- Decides whether two lists of fields are the same. -/
def decEqFields : (xs ys : List (String × Stored)) → Decidable (xs = ys)
  | [], [] => isTrue rfl
  | [], _ :: _ => isFalse nofun
  | _ :: _, [] => isFalse nofun
  | (j, x) :: xs, (k, y) :: ys =>
    have := decEq x y
    have := decEqFields xs ys
    decidable_of_iff (j = k ∧ x = y ∧ xs = ys) (by simp [and_assoc])

end

instance : DecidableEq Stored := decEq

/-! ## Text -/

mutual

/-- A stored value as it is shown inside another one: texts stand between quotation marks, without
escapes. -/
def display : Stored → String
  | .null => "null"
  | .bool b => if b then "true" else "false"
  | .int32 n => integerText n.toInt
  | .int64 n => integerText n.toInt
  | .double x => x.text
  | .text s => "\"" ++ s ++ "\""
  | .array items => "[" ++ displayItems items ++ "]"
  | .document fields =>
    if fields.isEmpty then "\x7b\x7d" else "\x7b " ++ displayFields fields ++ " \x7d"

/-- The items of a list, with commas between them. -/
def displayItems : List Stored → String
  | [] => ""
  | [item] => item.display
  | item :: items => item.display ++ ", " ++ displayItems items

/-- The fields of a document, with commas between them. -/
def displayFields : List (String × Stored) → String
  | [] => ""
  | [(name, value)] => "\"" ++ name ++ "\": " ++ value.display
  | (name, value) :: fields =>
    "\"" ++ name ++ "\": " ++ value.display ++ ", " ++ displayFields fields

end

/-- The plain text of a stored value: a text is itself, anything else is shown. -/
def plain : Stored → String
  | .text s => s
  | v => v.display

end Stored

end SearchTable
