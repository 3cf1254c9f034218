import SearchTable.Condition.Assignment
import SearchTable.Layout
import SearchTable.Store.Run
/-!
# Tables

A table is a record view of one collection: its declaration fixes the columns, the key, the options
and the collection, and connecting it creates the collection and puts its schema into effect.  From
its first success on a table stays connected, also when a session ends.
-/

namespace SearchTable

/-- A table over a collection. -/
structure Table where
  name : String
  layout : Layout
  options : Options
  collection : Collection
  /-- Whether connecting has succeeded. -/
  connected : Bool
  /-- The schema in effect, as far as it is known. -/
  schema : Option Schema
  deriving DecidableEq, Repr

namespace Table

variable {σ : Type}

/-! ## Declaring and connecting -/

/-- Declares a table.  No request is made. -/
def declare (name : String) (columns : List Column) (key : Option (List String))
    (options : Options) : Except StoreError Table := do
  options.validate
  let collection ← Collection.ofTable name columns options
  let layout ← Layout.make columns key
  .ok ⟨name, layout, options, collection, false, none⟩

/-- Whether the table has been connected. -/
def isConnected (t : Table) : Bool := t.connected

/-- The error of a step of connecting: whatever failed, the host should try again. -/
def connectError (t : Table) (step : String) (e : StoreError) : StoreError :=
  .connectionUnavailable <|
    if e.isConnection then .whileConnecting step e.message
    else .whilePreparing step t.collection.name e.message

/-- Reports the failure of a step of connecting. -/
def reportConnect (t : Table) (step : String) (e : StoreError) : Act σ Unit :=
  Act.complain (step ++ " for " ++ t.collection.name ++ " failed: " ++ e.message)

/-- Puts the schema of the table into effect, unless it knows the one in effect already. -/
def putSchema (service : Service σ) (t : Table) : Act σ (Except StoreError Table) := do
  match t.schema with
  | some _ => return .ok t
  | none =>
    let request :=
      Request.syncSchema t.collection.name t.collection.schema t.options.mergeSchema
    match ← Act.ask service request with
    | .error e => return .error e
    | .ok schema => return .ok { t with schema := some schema }

/-- Creates the collection and puts the schema into effect.  A table that is connected already does
nothing; one that fails to connect stays as it was. -/
def connect (service : Service σ) (t : Table) : Act σ (Except StoreError Unit × Table) := do
  if t.isConnected then return (.ok (), t)
  else
    match ← Act.ask service (.ensure t.collection) with
    | .error e =>
      t.reportConnect "creating collection" e
      return (.error (t.connectError "creating collection" e), t)
    | .ok () =>
      match ← t.putSchema service with
      | .error e =>
        t.reportConnect "synchronizing schema" e
        return (.error (t.connectError "synchronizing schema" e), t)
      | .ok t => return (.ok (), { t with connected := true })

/-- Ends a session.  The client is shared with other tables, so it stays open, and the table stays
connected. -/
def disconnect (t : Table) : Act σ Unit :=
  Act.report (.line .info
    ("table " ++ t.name ++ " disconnected; store client left open for other tables"))

/-- Refuses an operation on a table that is not connected. -/
def checkConnected (t : Table) : Except StoreError Unit :=
  if t.isConnected then .ok () else .error (.connectionUnavailable (.notConnected t.name))

theorem checkConnected_eq_ok {t : Table} (h : t.isConnected = true) : t.checkConnected = .ok () :=
  if_pos h

theorem checkConnected_eq_error {t : Table} (h : t.isConnected = false) :
    t.checkConnected = .error (.connectionUnavailable (.notConnected t.name)) :=
  if_neg (by simp [h])

/-! ## Compiling -/

/-- Whether conditions may name a field: the identity or a declared column. -/
def knows (t : Table) (field : String) : Bool := field == idField || t.layout.declares field

/-- Compiles a condition that names known fields only; the first unknown one from the left is
reported. -/
def compileCondition (t : Table) (e : Expression) : Except StoreError Condition :=
  match e.fields.find? fun f => !t.knows f with
  | some f => .error (.compile (.undeclaredField t.name f))
  | none => .ok (.compile e)

/-- Compiles assignments to declared columns; the first other target is reported before any
right-hand side is looked at. -/
def compileUpdateSet (t : Table) (assignments : List (String × Expression)) :
    Except StoreError UpdateSet :=
  match assignments.find? fun a => !t.layout.declares a.1 with
  | some (f, _) => .error (.compile (.undeclaredTarget f))
  | none => UpdateSet.compile assignments

end Table

end SearchTable
