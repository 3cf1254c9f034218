import SearchTable.Table.Reconcile
/-!
# Hosts and the clients they share

A host keeps clients of stores, and shares each of them between whatever needs it: a handle of its
own, an entry of the registry of endpoints, a table, and the cursors that read through it.  Each of
these *holds* the client.  Destroying a table and releasing an endpoint take a holder away and close
the client when it was the last one; giving up a handle or a cursor never closes anything.

Everything is kept under a name.  Names of one kind are independent of those of another; what is
kept under a name gives way when the name is used again.
-/

namespace SearchTable

/-- A client of a store: its label, and the state of the store behind it. -/
structure Client (σ : Type) where
  label : String
  store : σ

/-- Something that holds a client, which is given by its number. -/
structure Held (α : Type) where
  item : α
  client : Nat

/-- The clients of a host and what holds them. -/
structure Host (σ : Type) where
  /-- Every client there has been, by number. -/
  clients : List (Client σ)
  handles : Dictionary Nat
  registry : Dictionary Nat
  tables : Dictionary (Held Table)
  records : Dictionary (Held RecordCursor)
  cursors : Dictionary (Held Cursor)
  /-- The number of the next random identity. -/
  supply : Nat
  /-- The entries of the log, the latest one last. -/
  log : List Log.Entry

namespace Host

variable {σ : Type}

/-- A host without clients. -/
def empty : Host σ := ⟨[], .empty, .empty, .empty, .empty, .empty, 0, []⟩

instance : Inhabited (Host σ) := ⟨.empty⟩

/-! ## Holders -/

/-- How many entries of a dictionary stand for a client. -/
def countIn {α : Type} (number : α → Nat) (client : Nat) (d : Dictionary α) : Nat :=
  d.entries.countP fun e => number e.2 == client

/-- How many holders a client has. -/
def holders (h : Host σ) (client : Nat) : Nat :=
  countIn id client h.handles + countIn id client h.registry + countIn Held.client client h.tables +
    countIn Held.client client h.records + countIn Held.client client h.cursors

/-! ## Clients -/

/-- Adds a client and returns its number. -/
def addClient (h : Host σ) (label : String) (store : σ) : Nat × Host σ :=
  (h.clients.length, { h with clients := h.clients ++ [⟨label, store⟩] })

/-- Keeps a client under a handle. -/
def bind (h : Host σ) (handle : String) (client : Nat) : Host σ :=
  { h with handles := h.handles.insert handle client }

/-- Adds a client under a handle of its label. -/
def openClient (h : Host σ) (label : String) (store : σ) : Host σ :=
  let (client, h) := h.addClient label store
  h.bind label client

/-- Gives up a handle. -/
def dropHandle (h : Host σ) (handle : String) : Host σ :=
  { h with handles := h.handles.erase handle }

/-- Changes the state of the store behind a client. -/
def modifyStore (h : Host σ) (client : Nat) (f : σ → σ) : Host σ :=
  { h with clients := h.clients.modify client fun c => { c with store := f c.store } }

/-- Carries out an operation on the store behind a client; nothing when there is no such client. -/
def run {α : Type} (h : Host σ) (client : Nat) (act : Act σ α) : Option (α × Host σ) :=
  h.clients[client]?.map fun c =>
    let (result, w) := act ⟨c.store, h.supply, h.log⟩
    (result, { h.modifyStore client fun _ => w.store with supply := w.supply, log := w.log })

/-- Closes a client, and reports a failure to do so. -/
def close (service : Service σ) (name : String) : Act σ Unit := do
  match ← Act.ask service .close with
  | .ok () => return ()
  | .error e =>
    Act.complain ("closing store client for " ++ name ++ " failed: " ++ e.message)

/-- Closes a client unless something still holds it. -/
def closeUnheld (service : Service σ) (h : Host σ) (client : Nat) (name : String) : Host σ :=
  if h.holders client = 0 then ((h.run client (close service name)).map (·.2)).getD h else h

/-! ## The registry of endpoints -/

/-- What a connection gives: a new client, by its label and its store, or one that the host has. -/
inductive Connection (σ : Type) where
  | opened (label : String) (store : σ)
  | shared (client : Nat)

/-- The client of a connection, and the host that has it. -/
def accept (h : Host σ) : Connection σ → Nat × Host σ
  | .opened label store => h.addClient label store
  | .shared client => (client, h)

/-- The client for an endpoint.  The first time it is asked for, `connect` provides it, or an error,
after which the registry is as it was.  Tells whether `connect` was asked. -/
def getOrRegister (h : Host σ) (endpoint : String) (connect : Except StoreError (Connection σ)) :
    Except StoreError (Bool × Nat × Host σ) :=
  match h.registry.get? endpoint with
  | some client => .ok (false, client, h)
  | none => do
    let (client, h) := h.accept (← connect)
    .ok (true, client, { h with registry := h.registry.insert endpoint client })

/-- The client for an endpoint, where `connect` provides the label and the store of a new one. -/
def getOrConnect (h : Host σ) (endpoint : String) (connect : Except StoreError (String × σ)) :
    Except StoreError (Bool × Nat × Host σ) :=
  h.getOrRegister endpoint (connect.map fun (label, store) => .opened label store)

/-- Takes an endpoint out of the registry, and closes its client if that was the last holder. -/
def release (service : Service σ) (h : Host σ) (endpoint : String) : Host σ :=
  match h.registry.get? endpoint with
  | none => h
  | some client =>
    { h with registry := h.registry.erase endpoint }.closeUnheld service client endpoint

/-- The endpoints of the registry in order. -/
def endpoints (h : Host σ) : List String := h.registry.names

/-- The registry as diagnostics show it. -/
def registryText (h : Host σ) : String :=
  let names := String.intercalate ", " (h.endpoints.map Text.quoted)
  "ClientRegistry \x7b endpoints: [" ++ names ++ "] \x7d"

/-! ## Tables -/

/-- Keeps a table that uses a client. -/
def addTable (h : Host σ) (name : String) (t : Table) (client : Nat) : Host σ :=
  { h with tables := h.tables.insert name ⟨t, client⟩ }

/-- Carries out an operation of a table on its client. -/
def runTable {α : Type} (h : Host σ) (name : String) (act : Table → Act σ α) :
    Option (α × Host σ) :=
  (h.tables.get? name).bind fun t => h.run t.client (act t.item)

/-- Connects a table and keeps what it knows then. -/
def connect (service : Service σ) (h : Host σ) (name : String) :
    Option (Except StoreError Unit × Host σ) :=
  (h.tables.get? name).bind fun held =>
    (h.run held.client (held.item.connect service)).map fun ((result, t), h) =>
      (result, h.addTable name t held.client)

/-- Takes a table away, and closes its client if that was the last holder. -/
def destroy (service : Service σ) (h : Host σ) (name : String) : Host σ :=
  match h.tables.get? name with
  | none => h
  | some t =>
    { h with tables := h.tables.erase name }.closeUnheld service t.client t.item.collection.name

/-! ## Cursors -/

/-- Keeps a cursor over records that reads through a client. -/
def addRecords (h : Host σ) (name : String) (r : RecordCursor) (client : Nat) : Host σ :=
  { h with records := h.records.insert name ⟨r, client⟩ }

/-- Keeps a cursor over documents that reads through a client. -/
def addCursor (h : Host σ) (name : String) (c : Cursor) (client : Nat) : Host σ :=
  { h with cursors := h.cursors.insert name ⟨c, client⟩ }

/-- Finds records of a table, and keeps the cursor over them if the condition could be resolved. -/
def find (h : Host σ) (table name : String) (params : Bindings) (condition : Condition) :
    Option (Except StoreError RecordCursor × Host σ) :=
  (h.tables.get? table).bind fun t =>
    (h.run t.client (t.item.find params condition)).map fun (result, h) =>
      match result with
      | .error e => (.error e, h)
      | .ok r => (.ok r, h.addRecords name r t.client)

/-- Carries out an operation of a cursor over records on its client. -/
def runRecords {α : Type} (h : Host σ) (name : String)
    (act : RecordCursor → Act σ (α × RecordCursor)) : Option (α × Host σ) :=
  (h.records.get? name).bind fun held =>
    (h.run held.client (act held.item)).map fun ((result, r), h) =>
      (result, h.addRecords name r held.client)

/-- Carries out an operation of a cursor over documents on its client. -/
def runCursor {α : Type} (h : Host σ) (name : String) (act : Cursor → Act σ (α × Cursor)) :
    Option (α × Host σ) :=
  (h.cursors.get? name).bind fun held =>
    (h.run held.client (act held.item)).map fun ((result, c), h) =>
      (result, h.addCursor name c held.client)

/-- Gives up a cursor over records. -/
def dropRecords (h : Host σ) (name : String) : Host σ :=
  { h with records := h.records.erase name }

/-- Gives up a cursor over documents. -/
def dropCursor (h : Host σ) (name : String) : Host σ :=
  { h with cursors := h.cursors.erase name }

end Host

namespace Table

/-- A table as diagnostics show it. -/
def debugText (t : Table) : String :=
  "StoreTable \x7b name: " ++ Text.quoted t.name ++ ", collection: " ++
    Text.quoted t.collection.name ++ ", connected: " ++
    (if t.isConnected then "true" else "false") ++ ", .. \x7d"

end Table

namespace Cursor

/-- A cursor as diagnostics show it. -/
def debugText (c : Cursor) : String :=
  "DocumentCursor \x7b collection: " ++ Text.quoted c.collection ++ ", query: " ++
    Text.quoted c.query ++ ", offset: " ++ countText c.offset ++ ", state: " ++ c.state.name ++
    ", .. \x7d"

end Cursor

end SearchTable
