import SearchTable.Value.Stored
/-!
# Partial-update markers

A patch wraps each new value in a marker, a document whose one field is `set`.  The store then
replaces that field alone and keeps the others.
-/

namespace SearchTable.Stored

/-- The one field of a marker. -/
def markerField : String := "set"

/-- Wraps a value in a marker. -/
def mark (v : Stored) : Stored := .document [(markerField, v)]

/-- The value inside a marker; nothing for a value that is not a marker. -/
def unmark? : Stored → Option Stored
  | .document [(name, v)] => if name = markerField then some v else none
  | _ => none

@[simp] theorem unmark?_mark (v : Stored) : v.mark.unmark? = some v := by simp [mark, unmark?]

end SearchTable.Stored
