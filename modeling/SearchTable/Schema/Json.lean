import SearchTable.Json.Source
import SearchTable.Schema.Basic
/-!
# Schemas as JSON

A schema is an object with the unique key and the fields by name.  The switches of a field are
written beside its four fixed parts, even where one of them has the name of a fixed part; reading
gives such a name to the fixed part.
-/

namespace SearchTable

open Json

namespace FieldDef

/-- A definition as a JSON value: the fixed parts, then the switches. -/
def toJson (f : FieldDef) : Json :=
  .object ([("name", .text f.name), ("type", .text f.type), ("stored", .bool f.stored),
    ("indexed", .bool f.indexed)] ++ f.flags.entries.map fun (name, value) => (name, .text value))

/-- The names of the fixed parts. -/
def fixedParts : List String := ["name", "type", "stored", "indexed"]

/-- A truth value that may be left out, which reads as true. -/
def switchOf : Option Source → Option Bool
  | none => some true
  | some source => source.toBool?

/-- The definition an object holds.  All but the fixed parts are switches, whose values are
texts. -/
def ofSource? (source : Source) : Option FieldDef := do
  let members ← source.toMembers?
  let name ← (← Source.required "name" members).toText?
  let type ← (← Source.required "type" members).toText?
  let stored ← switchOf (← Source.optional "stored" members)
  let indexed ← switchOf (← Source.optional "indexed" members)
  let flags ← (members.filter fun m => !fixedParts.contains m.1).mapM fun (name, value) => do
    some (name, ← value.toText?)
  some ⟨name, type, stored, indexed, .ofList flags⟩

end FieldDef

namespace Schema

/-- A schema as a JSON value. -/
def toJson (s : Schema) : Json :=
  .object [("unique_key", .text s.uniqueKey),
    ("fields", .object (s.fields.entries.map fun (name, f) => (name, f.toJson)))]

/-- The unique key of a source; the identity field when it is left out. -/
def keyOf : Option Source → Option String
  | none => some idField
  | some source => source.toText?

/-- The fields of a source by the names under which they are filed; none when they are left out. -/
def fieldsOf : Option Source → Option (Dictionary FieldDef)
  | none => some .empty
  | some source => do
    let members ← source.toMembers?
    let fields ← members.mapM fun (name, value) => do some (name, ← FieldDef.ofSource? value)
    some (.ofList fields)

/-- The schema a source holds: an object with the two parts by name, or a list of them in order. -/
def ofSource? (source : Source) : Option Schema :=
  match source with
  | .array [] => some (ofKey none)
  | .array [key] => do some ⟨← keyOf (some key), .empty⟩
  | .array [key, fields] => do some ⟨← keyOf (some key), ← fieldsOf (some fields)⟩
  | .object _ => do
    let members ← source.toMembers?
    let key ← keyOf (← Source.optional "unique_key" members)
    let fields ← fieldsOf (← Source.optional "fields" members)
    some ⟨key, fields⟩
  | _ => none

/-- The schema a JSON text holds. -/
def ofJsonText (text : String) : Except StoreError Schema :=
  match (Source.ofText? text).bind ofSource? with
  | some s => .ok s
  | none => .error .json

end Schema

end SearchTable
