import SearchTable.Value.Stored
/-!
# Documents

A document maps field names to stored values and keeps its fields in the order in which they were
first set.  Setting a field again replaces the value where it stands; removing one leaves the order
of the others.

Two field names are reserved: `idField` holds the identity, `versionField` the version that the
store gives to every write.
-/

namespace SearchTable

/-- The field that holds a document's identity. -/
def idField : String := "id"

/-- The field that holds the version the store gave to a document. -/
def versionField : String := "_version_"

/-- A document of a store. -/
structure Document where
  fields : List (String × Stored)
  deriving DecidableEq, Repr, Inhabited

namespace Document

/-- The fields after one of them has been set. -/
def setField (name : String) (value : Stored) : List (String × Stored) → List (String × Stored)
  | [] => [(name, value)]
  | (n, v) :: rest => if n = name then (n, value) :: rest else (n, v) :: setField name value rest

/-- The document without fields. -/
def empty : Document := ⟨[]⟩

instance : EmptyCollection Document := ⟨empty⟩

/-- Sets a field. -/
def insert (d : Document) (name : String) (value : Stored) : Document :=
  ⟨setField name value d.fields⟩

/-- Removes a field. -/
def erase (d : Document) (name : String) : Document :=
  ⟨d.fields.filter fun f => f.1 ≠ name⟩

/-- The value of a field. -/
def get? (d : Document) (name : String) : Option Stored := d.fields.lookup name

/-- Whether a field is set. -/
def contains (d : Document) (name : String) : Bool := (d.get? name).isSome

/-- The document in which the fields of a list are set one after the other. -/
def ofList (fields : List (String × Stored)) : Document :=
  fields.foldl (fun d f => d.insert f.1 f.2) empty

/-- The text a field holds, if it holds text. -/
def getText? (d : Document) (name : String) : Option String :=
  match d.get? name with
  | some (.text s) => some s
  | _ => none

theorem lookup_setField (name : String) (value : Stored) (fields : List (String × Stored))
    (key : String) :
    (setField name value fields).lookup key =
      if key = name then some value else fields.lookup key := by
  induction fields with
  | nil =>
    by_cases h : key = name <;>
      simp [setField, List.lookup_cons, List.lookup_nil, h, beq_eq_false_iff_ne.2]
  | cons head rest ih =>
    obtain ⟨n, v⟩ := head
    simp only [setField]
    split
    · rename_i heq
      subst heq
      by_cases h : key = n <;> simp [List.lookup_cons, h, beq_eq_false_iff_ne.2]
    · rename_i hne
      by_cases h : key = n
      · subst h; simp [hne]
      · simp [List.lookup_cons, beq_eq_false_iff_ne.2 h, ih]

/-- A look-up after setting a field finds the new value there and the old ones elsewhere. -/
@[simp] theorem get?_insert (d : Document) (name : String) (value : Stored) (key : String) :
    (d.insert name value).get? key = if key = name then some value else d.get? key :=
  lookup_setField name value d.fields key

@[simp] theorem get?_empty (key : String) : empty.get? key = none := rfl

end Document

end SearchTable
