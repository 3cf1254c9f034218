import SearchTable.Cursor
import SearchTable.Table.Basic
/-!
# Adding, finding and deleting records

Reading operations fail with an error of the table.  Writing operations never fail: they return a
report that says how far they came, and leave an audit record.
-/

namespace SearchTable

/-- What an addition has done. -/
structure InsertReport where
  inserted : Nat
  failed : Bool
  deriving DecidableEq, Repr

/-- What a deletion has done. -/
structure DeleteReport where
  /-- The number of deletions that the store has accepted. -/
  requests : Nat
  failed : Bool
  deriving DecidableEq, Repr

namespace Table

variable {σ : Type}

/-- The line that reports a failure. -/
def failureLine (what : String) (e : StoreError) : String := what ++ " failed: " ++ e.message

/-! ## Adding -/

/-- The documents of records of a connected table, with the supply that is left. -/
def buildRecords (t : Table) (supply : Nat) (records : List Record) :
    Except StoreError (List Document × Nat) := do
  t.checkConnected
  t.layout.buildAll supply records

/-- Builds the documents of records and writes them in one request. -/
def writeRecords (service : Service σ) (t : Table) (records : List Record) :
    Act σ (Except StoreError Unit) := do
  match t.buildRecords (← get).supply records with
  | .error e => return .error e
  | .ok (documents, supply) =>
    modify fun w => { w with supply := supply }
    Act.ask service (.write t.collection.name documents t.options.commitAsync)

/-- Adds records as whole documents. -/
def add (service : Service σ) (t : Table) (records : List Record) : Act σ InsertReport := do
  if records.isEmpty then return ⟨0, false⟩
  else
    let count := records.length
    let report ← match ← t.writeRecords service records with
      | .ok () => pure (InsertReport.mk count false)
      | .error e => do
        Act.complain (failureLine
          ("add of " ++ countText count ++ " records to " ++ t.collection.name) e)
        pure (InsertReport.mk 0 true)
    Act.report (.audit "insert" t.collection.name
      [("failed", .bool report.failed), ("records", .ofNat count)])
    return report

/-! ## Finding -/

/-- Reports a failed reading operation and words its error. -/
def readFault (t : Table) (action : String) (e : StoreError) : Act σ StoreError := do
  Act.complain (failureLine (action ++ " on " ++ t.collection.name) e)
  return .table (.requestFailed action t.collection.name e.message)

/-- The query of a condition for the given values. -/
def resolveQuery (t : Table) (params : Bindings) (condition : Condition) :
    Act σ (Except StoreError String) := do
  match t.checkConnected.bind fun () => condition.resolve params with
  | .ok q => return .ok q
  | .error e => return .error (← t.readFault "query" e)

/-- A cursor over the records that satisfy a condition.  No request is made yet. -/
def find (t : Table) (params : Bindings) (condition : Condition) :
    Act σ (Except StoreError RecordCursor) := do
  match ← t.resolveQuery params condition with
  | .error e => return .error e
  | .ok q => return .ok ⟨.make t.collection.name q t.options.readBatchSize, t.layout.columns⟩

/-- Whether a record satisfies a condition. -/
def contains (service : Service σ) (t : Table) (params : Bindings) (condition : Condition) :
    Act σ (Except StoreError Bool) := do
  match ← t.resolveQuery params condition with
  | .error e => return .error e
  | .ok q =>
    match ← Act.ask service (.query t.collection.name q 0 1) with
    | .error e => return .error (← t.readFault "contains" e)
    | .ok (page : Page) => return .ok (0 < page.found || !page.documents.isEmpty)

/-! ## Deleting -/

/-- Deletes what satisfies the condition for one set of values. -/
def deleteOne (service : Service σ) (t : Table) (condition : Condition) (params : Bindings) :
    Act σ (Except StoreError Unit) := do
  match condition.resolve params with
  | .error e => return .error e
  | .ok q => Act.ask service (.delete t.collection.name (.query q) t.options.commitAsync)

/-- Deletes for one set of values after the other.  A set that fails is reported and passed over. -/
def deleteEach (service : Service σ) (t : Table) (condition : Condition) :
    List Bindings → DeleteReport → Act σ DeleteReport
  | [], report => return report
  | params :: sets, report => do
    match ← t.deleteOne service condition params with
    | .ok () => deleteEach service t condition sets { report with requests := report.requests + 1 }
    | .error e =>
      Act.complain (failureLine ("delete on " ++ t.collection.name) e)
      deleteEach service t condition sets { report with failed := true }

/-- Deletes the records that satisfy a condition, once for every set of values. -/
def delete (service : Service σ) (t : Table) (condition : Condition) (sets : List Bindings) :
    Act σ DeleteReport := do
  match t.checkConnected with
  | .error e =>
    Act.complain ("delete on " ++ t.collection.name ++ " skipped: " ++ e.message)
    return ⟨0, true⟩
  | .ok () =>
    let report ← t.deleteEach service condition sets ⟨0, false⟩
    Act.report (.audit "delete" t.collection.name
      [("condition", .text condition.query), ("failed", .bool report.failed),
        ("requests", .ofNat report.requests)])
    return report

end Table

end SearchTable
