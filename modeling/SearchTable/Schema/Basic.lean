import SearchTable.Dictionary
import SearchTable.Document
import SearchTable.Value.Basic
/-!
# Schemas

The field definitions of a collection, filed under their names, and the name of the field that tells
documents apart.  A schema is derived from the columns of a table, or written out as text
(`Schema.Text`); merging a new schema over an old one replaces fields of the same name and keeps the
others.
-/

namespace SearchTable

/-- The definition of a field: its name, its type in the store, whether its values are kept and
whether they can be searched, and further switches that are passed on as they are. -/
structure FieldDef where
  name : String
  type : String
  stored : Bool
  indexed : Bool
  flags : Dictionary String
  deriving DecidableEq, Repr

/-- A field that is stored and indexed and has no further switches. -/
def FieldDef.plain (name type : String) : FieldDef := ⟨name, type, true, true, .empty⟩

/-- The fields of a collection and the one that identifies documents. -/
structure Schema where
  uniqueKey : String
  fields : Dictionary FieldDef
  deriving DecidableEq, Repr

namespace Schema

/-- A schema without fields; the identity field is the unique key unless another one is named. -/
def ofKey (uniqueKey : Option String) : Schema := ⟨uniqueKey.getD idField, .empty⟩

/-- Files a definition under its name. -/
def add (s : Schema) (f : FieldDef) : Schema := { s with fields := s.fields.insert f.name f }

/-- Adds the identity field unless a field of that name is there. -/
def withIdField (s : Schema) : Schema :=
  if s.fields.contains idField then s else s.add (.plain idField "string")

/-- The schema of a table: a field for every column, and the identity field when no column has its
name. -/
def ofColumns (columns : List Column) : Schema :=
  let start := ofKey none
  let start :=
    if columns.any fun c => c.name == idField then start else start.add (.plain idField "string")
  columns.foldl (fun s c => s.add (.plain c.name c.type.fieldType)) start

/-- The schema in effect after a new one has been merged over an old one: the unique key and the
fields of the new one, and those fields that only the old one has. -/
def merge (old new : Schema) : Schema := ⟨new.uniqueKey, old.fields.override new.fields⟩

end Schema

end SearchTable
