import SearchTable.Condition.Assignment
import SearchTable.Document
import SearchTable.Identity.Basic
/-!
# Record layouts

The columns of a table and its primary key, and with them the way from a record to a document and
back.  A document leaves absent values out; reading it gives them back as absent.  A document that
has no identity among its columns gets one: derived from the values of the key, or drawn from the
supply when the table has no key.
-/

namespace SearchTable

/-- The columns of a table and the names of its key columns. -/
structure Layout where
  columns : List Column
  key : Option (List String)
  deriving DecidableEq, Repr

namespace Layout

/-- The first column of a name. -/
def column? (columns : List Column) (name : String) : Option Column :=
  columns.find? fun c => c.name == name

/-- The layout of a table.  A key without columns is no key, and every key column must be
declared. -/
def make (columns : List Column) (key : Option (List String)) : Except StoreError Layout :=
  let key := key.filter fun names => !names.isEmpty
  match (key.getD []).find? fun name => (column? columns name).isNone with
  | some name => .error (.config (.primaryKey name))
  | none => .ok ⟨columns, key⟩

/-- Whether a column of a name is declared. -/
def declares (l : Layout) (name : String) : Bool := l.columns.any fun c => c.name == name

/-! ## From records to documents -/

/-- The fields of a record; absent values are left out. -/
def fieldsOf (columns : List Column) (r : Record) : Document :=
  (columns.zip r).foldl
    (fun d (c, v) => if v.isNull then d else d.insert c.name v.toStored) .empty

/-- The value of a record in the first column of a name. -/
def valueIn (columns : List Column) (r : Record) (name : String) : Value :=
  (((columns.zip r).find? fun (c, _) => c.name == name).map (·.2)).getD .null

/-- Refuses a record that does not have one value per column. -/
def checkWidth (l : Layout) (r : Record) : Except StoreError Unit :=
  if r.length = l.columns.length then .ok ()
  else .error (.table (.recordWidth r.length l.columns.length))

/-- The document of a record, and the number that the supply of identities gives out next. -/
def build (l : Layout) (supply : Nat) (r : Record) : Except StoreError (Document × Nat) := do
  l.checkWidth r
  let d := fieldsOf l.columns r
  if d.contains idField then .ok (d, supply)
  else
    match l.key with
    | some names =>
      let id := Identity.ofKey (names.map (valueIn l.columns r))
      .ok (d.insert idField (.text id), supply)
    | none => .ok (d.insert idField (.text (Identity.ofNumber supply)), supply + 1)

/-- The documents of a list of records, built in order. -/
def buildAll (l : Layout) (supply : Nat) : List Record → Except StoreError (List Document × Nat)
  | [] => .ok ([], supply)
  | r :: rs => do
    let (d, supply) ← l.build supply r
    let (ds, supply) ← l.buildAll supply rs
    .ok (d :: ds, supply)

/-! ## From documents to records -/

/-- The value of a column in a document. -/
def readColumn (d : Document) (c : Column) : Value :=
  ((d.get? c.name).map fun v => Value.ofStored v c.type).getD .null

/-- The record of a document. -/
def readRecord (columns : List Column) (d : Document) : Record := columns.map (readColumn d)

/-- The identity of a document once its key fields have been changed; those that are not among the
changes keep their values. -/
def identityAfter (l : Layout) (d : Document) (changes : Changes) : String :=
  Identity.ofKey <| (l.key.getD []).map fun name =>
    match changes.lookup name with
    | some v => v
    | none => ((column? l.columns name).map (readColumn d)).getD .null

end Layout

end SearchTable
