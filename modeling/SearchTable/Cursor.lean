import SearchTable.Layout
import SearchTable.Store.Run
/-!
# Cursors

A cursor reads the documents that match a query, page by page and forward only.  It asks for a page
when its buffer is empty and a document is wanted; a page that is shorter than asked for, or that
reaches the number of matches, is the last one.  A failed request delivers nothing and leaves the
cursor where it was, so a later call asks again.

`Cursor.step` reads as a loop does: after an error there is nothing more.  `RecordCursor` turns the
documents into records.
-/

namespace SearchTable

/-- Where a cursor stands: before a page, within one, or at the end. -/
inductive CursorState where
  | fetching
  | hasBuffer
  | exhausted
  deriving DecidableEq, Repr

/-- The name of a cursor's state. -/
def CursorState.name : CursorState → String
  | fetching => "Fetching"
  | hasBuffer => "HasBuffer"
  | exhausted => "Exhausted"

/-- A reading position in the result of a query. -/
structure Cursor where
  collection : String
  query : String
  /-- The number of documents asked for at a time. -/
  batch : Nat
  /-- The number of documents received so far. -/
  offset : Nat
  /-- Documents received and not yet delivered. -/
  buffer : List Document
  state : CursorState
  lastPage : Bool
  /-- The number of pages received. -/
  refills : Nat
  deriving DecidableEq, Repr

namespace Cursor

variable {σ : Type}

/-- A cursor in front of the first document.  A batch has at least one document. -/
def make (collection query : String) (batch : Nat) : Cursor :=
  ⟨collection, query, max 1 batch, 0, [], .fetching, false, 0⟩

/-- The cursor after a page has been received. -/
def receive (c : Cursor) (page : Page) : Cursor :=
  let got := page.documents.length
  let offset := c.offset + got
  { c with
    offset := offset
    buffer := page.documents
    state := if got = 0 then .exhausted else .hasBuffer
    lastPage := got < c.batch || page.found ≤ offset
    refills := c.refills + 1 }

/-- Asks for the next page. -/
def refill (service : Service σ) (c : Cursor) : Act σ (Except StoreError Unit × Cursor) := do
  match ← Act.ask service (.query c.collection c.query c.offset c.batch) with
  | .ok page => return (.ok (), c.receive page)
  | .error e => return (.error e, { c with state := .fetching })

/-- Whether there is another document; a page is asked for if that is not known. -/
def hasNext (service : Service σ) (c : Cursor) : Act σ (Except StoreError Bool × Cursor) := do
  if !c.buffer.isEmpty then return (.ok true, c)
  else if c.lastPage || c.state = .exhausted then
    return (.ok false, { c with state := .exhausted })
  else
    match ← c.refill service with
    | (.ok (), c) => return (.ok !c.buffer.isEmpty, c)
    | (.error e, c) => return (.error e, c)

/-- The first document of the buffer, and the cursor behind it. -/
def take (c : Cursor) : Option Document × Cursor :=
  match c.buffer with
  | [] => (none, c)
  | d :: rest =>
    let state :=
      if !rest.isEmpty then c.state else if c.lastPage then .exhausted else .fetching
    (some d, { c with buffer := rest, state := state })

/-- The next document, if there is one. -/
def next (service : Service σ) (c : Cursor) :
    Act σ (Except StoreError (Option Document) × Cursor) := do
  match ← c.hasNext service with
  | (.ok true, c) =>
    let (d, c) := c.take
    return (.ok d, c)
  | (.ok false, c) => return (.ok none, c)
  | (.error e, c) => return (.error e, c)

/-- The next document, or an error after which there is nothing more. -/
def step (service : Service σ) (c : Cursor) :
    Act σ (Option (Except StoreError Document) × Cursor) := do
  match ← c.next service with
  | (.ok d, c) => return (d.map .ok, c)
  | (.error e, c) => return (some (.error e), { c with state := .exhausted, lastPage := true })

/-- The documents up to the end, at most `fuel` of them. -/
def drain (service : Service σ) :
    (fuel : Nat) → Cursor → Act σ (Except StoreError (List Document))
  | 0, _ => return .ok []
  | fuel + 1, c => do
    match ← c.next service with
    | (.ok (some d), c) =>
      match ← drain service fuel c with
      | .ok ds => return .ok (d :: ds)
      | .error e => return .error e
    | (.ok none, _) => return .ok []
    | (.error e, _) => return .error e

/-- Every document from the position on; no query can reach more of them than the store has. -/
def toList (service : Service σ) (c : Cursor) : Act σ (Except StoreError (List Document)) := do
  drain service (service.capacity (← get).store + 1) c

end Cursor

/-! ## Records -/

/-- A cursor over the records of a table. -/
structure RecordCursor where
  cursor : Cursor
  columns : List Column
  deriving DecidableEq, Repr

namespace RecordCursor

variable {σ : Type}

/-- Whether there is another record. -/
def hasNext (service : Service σ) (r : RecordCursor) :
    Act σ (Except StoreError Bool × RecordCursor) := do
  let (result, c) ← r.cursor.hasNext service
  return (result, { r with cursor := c })

/-- The next record, or an error after which there is nothing more. -/
def step (service : Service σ) (r : RecordCursor) :
    Act σ (Option (Except StoreError Record) × RecordCursor) := do
  let (result, c) ← r.cursor.step service
  return (result.map (·.map (Layout.readRecord r.columns)), { r with cursor := c })

end RecordCursor

end SearchTable
