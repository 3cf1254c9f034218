import SearchTable.Table.Access
import SearchTable.Value.Marker
/-!
# Updating records

An update is a list of pairs, each a set of values for the condition and the changes for the records
that satisfy it then.  For every pair all matches are read before anything is written.  A match
whose identity stays is patched; one whose key changes is written anew under its new identity, and
the old identity is deleted.  Writes go out in groups of bounded size, deletions before documents.

Which key columns can change an identity is settled by the first change list of the call.  With
records to insert, a pair without matches adds the record that belongs to it.

The report covers the groups that have reached the store, also when the update ends early.
-/

namespace SearchTable

/-- What an update has done. -/
structure UpdateReport where
  matched : Nat
  /-- Documents written back, as patches or anew. -/
  patched : Nat
  /-- Documents added for pairs without matches. -/
  inserted : Nat
  /-- Identities deleted after a change of the key. -/
  deleted : Nat
  /-- Groups of writes that have reached the store. -/
  flushes : Nat
  failed : Bool
  deriving DecidableEq, Repr

/-- The report of an update that has done nothing. -/
def UpdateReport.empty : UpdateReport := ⟨0, 0, 0, 0, 0, false⟩

namespace Reconcile

/-! ## Documents -/

/-- The identity of a match as text. -/
def documentId (d : Document) : Except StoreError String :=
  match d.get? idField with
  | some v => .ok v.plain
  | none => .error (.table .missingId)

/-- A patch: the identity and a marked value for every change. -/
def patchDocument (id : String) (changes : Changes) : Document :=
  changes.foldl (fun d (name, v) => d.insert name v.toStored.mark)
    (Document.empty.insert idField (.text id))

/-- A document with changes made to it; absent values remove fields. -/
def applyChanges (d : Document) (changes : Changes) : Document :=
  changes.foldl (fun d (name, v) => if v.isNull then d.erase name else d.insert name v.toStored) d

/-- A match written anew: without its version, with the changes, under a new identity. -/
def rebuiltDocument (d : Document) (id : String) (changes : Changes) : Document :=
  (applyChanges (d.erase versionField) changes).insert idField (.text id)

/-! ## Groups of writes -/

/-- Writes that wait for the next group. -/
structure Pending where
  deletions : List String
  documents : List Document
  patched : Nat
  inserted : Nat
  deriving DecidableEq, Repr

namespace Pending

/-- No writes. -/
def empty : Pending := ⟨[], [], 0, 0⟩

/-- Whether nothing waits. -/
def isEmpty (p : Pending) : Bool := p.deletions.isEmpty && p.documents.isEmpty

/-- Adds a patch. -/
def addPatch (p : Pending) (d : Document) : Pending :=
  { p with documents := p.documents ++ [d], patched := p.patched + 1 }

/-- Adds a document under a new identity, and the deletion of its old one. -/
def addRebuilt (p : Pending) (d : Document) (oldId : String) : Pending :=
  { p with
    documents := p.documents ++ [d]
    deletions := p.deletions ++ [oldId]
    patched := p.patched + 1 }

/-- Adds a new document. -/
def addInsert (p : Pending) (d : Document) : Pending :=
  { p with documents := p.documents ++ [d], inserted := p.inserted + 1 }

end Pending

/-! ## Steps -/

/-- What the steps of an update change: the world and the report so far. -/
structure Progress (σ : Type) where
  world : World σ
  report : UpdateReport

/-- A step of an update.  The progress made before a failure is kept. -/
abbrev Step (σ α : Type) : Type := ExceptT StoreError (StateM (Progress σ)) α

/-- What an update works with. -/
structure Plan where
  layout : Layout
  collection : String
  readBatch : Nat
  updateBatch : Nat
  commitAsync : Bool
  /-- The key columns whose changes can change identities. -/
  rotating : List String
  deriving DecidableEq, Repr

variable {σ : Type}

/-- An operation on the world as a step. -/
def act {α : Type} (a : Act σ (Except StoreError α)) : Step σ α :=
  ExceptT.mk fun p =>
    let (result, world) := a p.world
    (result, { p with world := world })

/-- Changes the report. -/
def count (f : UpdateReport → UpdateReport) : Step σ Unit :=
  ExceptT.mk fun p => (.ok (), { p with report := f p.report })

/-- Deletes identities, unless there are none. -/
def sendDeletions (service : Service σ) (plan : Plan) (ids : List String) : Step σ Unit := do
  if !ids.isEmpty then
    act (Act.ask service (.delete plan.collection (.ids ids) plan.commitAsync))
    count fun r => { r with deleted := r.deleted + ids.length }

/-- Writes documents, unless there are none. -/
def sendDocuments (service : Service σ) (plan : Plan) (ds : List Document) : Step σ Unit := do
  if !ds.isEmpty then
    act (Act.ask service (.write plan.collection ds plan.commitAsync))

/-- Sends a group of writes. -/
def flush (service : Service σ) (plan : Plan) (p : Pending) : Step σ Unit := do
  if !p.isEmpty then
    sendDeletions service plan p.deletions
    sendDocuments service plan p.documents
    count fun r =>
      { r with
        patched := r.patched + p.patched
        inserted := r.inserted + p.inserted
        flushes := r.flushes + 1 }

/-- The writes for one match: a patch, or a rebuilt document when the identity changes. -/
def stageMatch (plan : Plan) (changes : Changes) (p : Pending) (d : Document) :
    Except StoreError Pending := do
  let oldId ← documentId d
  let keyChanges := changes.filter fun c => plan.rotating.contains c.1
  let newId := if keyChanges.isEmpty then oldId else plan.layout.identityAfter d keyChanges
  if newId = oldId then .ok (p.addPatch (patchDocument oldId changes))
  else .ok (p.addRebuilt (rebuiltDocument d newId changes) oldId)

/-- The writes for all matches; a group is sent as soon as it is full.  Returns what is left for the
next group. -/
def stageMatches (service : Service σ) (plan : Plan) (changes : Changes) :
    List Document → Pending → Step σ Pending
  | [], p => pure p
  | d :: ds, p => do
    let p ← liftExcept (stageMatch plan changes p d)
    if plan.updateBatch ≤ p.documents.length then
      flush service plan p
      stageMatches service plan changes ds .empty
    else stageMatches service plan changes ds p
where
  /-- A result as a step. -/
  liftExcept {α : Type} (e : Except StoreError α) : Step σ α := ExceptT.mk (pure e)

/-- The document of a record that is to be added. -/
def buildInsert (plan : Plan) (r : Record) : Act σ (Except StoreError Document) := do
  match plan.layout.build (← get).supply r with
  | .error e => return .error e
  | .ok (d, supply) =>
    modify fun w => { w with supply := supply }
    return .ok d

/-- All documents that satisfy the condition for the given values. -/
def collectMatches (service : Service σ) (plan : Plan) (condition : Condition)
    (params : Bindings) : Act σ (Except StoreError (List Document)) := do
  match condition.resolve params with
  | .error e => return .error e
  | .ok q => (Cursor.make plan.collection q plan.readBatch).toList service

/-- A pair of an update with the record to be added when nothing matches. -/
structure Pair where
  params : Bindings
  changes : Changes
  insert : Option Record
  deriving DecidableEq, Repr

/-- Carries out one pair. -/
def runPair (service : Service σ) (plan : Plan) (condition : Condition) (pair : Pair) :
    Step σ Unit := do
  let found ← act (collectMatches service plan condition pair.params)
  count fun r => { r with matched := r.matched + found.length }
  let p ← stageMatches service plan pair.changes found .empty
  match found, pair.insert with
  | [], some record =>
    let d ← act (buildInsert plan record)
    flush service plan (p.addInsert d)
  | _, _ => flush service plan p

/-- Carries out pairs in order. -/
def runPairs (service : Service σ) (plan : Plan) (condition : Condition) :
    List Pair → Step σ Unit
  | [] => pure ()
  | pair :: pairs => do
    runPair service plan condition pair
    runPairs service plan condition pairs

/-! ## Calls -/

/-- The pairs of a call.  Every list must have as many members as there are sets of values. -/
def makePairs (sets : List Bindings) (changes : List Changes) (inserts : Option (List Record)) :
    Except StoreError (List Pair) :=
  if sets.length ≠ changes.length then
    .error (.table (.unpairedUpdates sets.length changes.length))
  else
    match inserts with
    | none => .ok ((sets.zip changes).map fun (s, c) => ⟨s, c, none⟩)
    | some records =>
      if records.length ≠ sets.length then
        .error (.table (.unpairedRecords sets.length records.length))
      else .ok (((sets.zip changes).zip records).map fun ((s, c), r) => ⟨s, c, some r⟩)

/-- The key columns that the first change list assigns. -/
def rotatingKeys (layout : Layout) (changes : List Changes) : List String :=
  match changes with
  | [] => []
  | first :: _ => (layout.key.getD []).filter fun k => first.any fun c => c.1 == k

/-- The plan of a call on a table. -/
def planFor (t : Table) (changes : List Changes) : Plan :=
  ⟨t.layout, t.collection.name, t.options.readBatchSize, t.options.updateBatchSize,
    t.options.commitAsync, rotatingKeys t.layout changes⟩

/-- Carries out all pairs of a call, and tells how it ended. -/
def runAll (service : Service σ) (t : Table) (condition : Condition) (sets : List Bindings)
    (changes : List Changes) (inserts : Option (List Record)) :
    Act σ (Except StoreError Unit × UpdateReport) := fun w =>
  match makePairs sets changes inserts with
  | .error e => ((.error e, .empty), w)
  | .ok pairs =>
    let (result, progress) :=
      (runPairs service (planFor t changes) condition pairs).run ⟨w, .empty⟩
    ((result, progress.report), progress.world)

end Reconcile

namespace Table

variable {σ : Type}

/-- Carries out an update under a name for the log, with or without records to insert. -/
def reconcile (service : Service σ) (t : Table) (operation : String) (condition : Condition)
    (sets : List Bindings) (changes : List Changes) (inserts : Option (List Record)) :
    Act σ UpdateReport := do
  match t.checkConnected with
  | .error e =>
    Act.complain (operation ++ " on " ++ t.collection.name ++ " skipped: " ++ e.message)
    return { UpdateReport.empty with failed := true }
  | .ok () =>
    let report ← match ← Reconcile.runAll service t condition sets changes inserts with
      | (.ok (), report) => pure report
      | (.error e, report) => do
        Act.complain (operation ++ " on " ++ t.collection.name ++ " failed after " ++
          countText report.flushes ++ " flushes: " ++ e.message)
        pure { report with failed := true }
    Act.report (.audit operation t.collection.name
      [("condition", .text condition.query), ("deleted", .ofNat report.deleted),
        ("failed", .bool report.failed), ("inserted", .ofNat report.inserted),
        ("matched", .ofNat report.matched), ("patched", .ofNat report.patched)])
    return report

/-- Makes changes to the records that satisfy a condition. -/
def update (service : Service σ) (t : Table) (condition : Condition) (sets : List Bindings)
    (changes : List Changes) : Act σ UpdateReport :=
  t.reconcile service "update" condition sets changes none

/-- Like `update`, and adds a record for every pair that matches nothing. -/
def updateOrAdd (service : Service σ) (t : Table) (condition : Condition) (sets : List Bindings)
    (changes : List Changes) (records : List Record) : Act σ UpdateReport :=
  t.reconcile service "upsert" condition sets changes (some records)

end Table

end SearchTable
