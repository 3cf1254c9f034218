import SearchTable.Schema.Basic
/-!
# Schemas as text

A schema is written as entries with commas between them.  An entry is a name, a type and any number
of flags; a flag is a name with a value behind a colon, or a name alone, which reads as `true`.  The
flags `stored` and `indexed` take truth values and belong to the definition proper.  Blank entries
are passed over, and of two entries with one name the last one counts.
-/

namespace SearchTable.Schema

open Text

/-- The words of a text: its runs of characters that are not blank. -/
def wordsFrom (current : List Char) : List Char → List (List Char)
  | [] => if current.isEmpty then [] else [current.reverse]
  | c :: cs =>
    if isBlank c then
      if current.isEmpty then wordsFrom [] cs else current.reverse :: wordsFrom [] cs
    else wordsFrom (c :: current) cs

/-- The words of a text as strings. -/
def words (s : String) : List String := (wordsFrom [] s.toList).map String.ofList

/-- A flag's name and value. -/
def flagParts (flag : String) : String × String := (cut ':' flag).getD (flag, "true")

/-- The truth value of a flag of a field. -/
def flagValue (field flag value : String) : Except StoreError Bool :=
  match Value.readBool value with
  | some b => .ok b
  | none => .error (.config (.schemaFlag field flag value))

/-- A definition with one more flag. -/
def applyFlag (f : FieldDef) (flag : String) : Except StoreError FieldDef :=
  let (key, value) := flagParts flag
  if key = "stored" then do .ok { f with stored := ← flagValue f.name key value }
  else if key = "indexed" then do .ok { f with indexed := ← flagValue f.name key value }
  else .ok { f with flags := f.flags.insert key value }

/-- The definition an entry stands for. -/
def readEntry (entry : String) : Except StoreError FieldDef :=
  match words entry with
  | name :: type :: flags => flags.foldlM applyFlag (FieldDef.plain name type)
  | _ => .error (.config (.schemaEntry entry))

/-- The entries of a text that are not blank, trimmed. -/
def entries (text : String) : List String := ((split ',' text).map trim).filter (· ≠ "")

/-- The schema a text stands for; the first entry at fault is reported. -/
def ofText (text : String) (uniqueKey : Option String) : Except StoreError Schema :=
  (entries text).foldlM (fun s entry => do .ok (s.add (← readEntry entry))) (ofKey uniqueKey)

end SearchTable.Schema
