import SearchTable.Query.Reader
import SearchTable.Store.Service
import SearchTable.Value.Marker
/-!
# A store in memory

The reference store: collections of documents in insertion order, read with the query language.
Every write of a document draws the next version of its collection.  A document with markers among
its values patches the document of its identity, any other one replaces it where it stands, and a
new identity is appended.  A write that meets a document without an identity stops there; the
documents before it have been written.
-/

namespace SearchTable.Memory

/-! ## One collection -/

/-- A collection: whether it has been created, its schema, its documents, and how many documents it
has accepted. -/
structure Contents where
  created : Bool
  schema : Option Schema
  documents : List Document
  accepted : Nat
  deriving DecidableEq, Repr

/-- A collection that nothing is known of. -/
def Contents.empty : Contents := ⟨false, none, [], 0⟩

instance : Inhabited Contents := ⟨.empty⟩

/-- Whether a document has an identity. -/
def hasId (id : String) (d : Document) : Bool := d.getText? idField == some id

/-- Sets the fields of `incoming` in a document.  A marked value is set without its marker, a marked
null removes the field, and the version is left alone. -/
def applyFields (d : Document) (incoming : List (String × Stored)) : Document :=
  incoming.foldl
    (fun d (name, v) =>
      if name = versionField then d
      else
        match v.unmark? with
        | some .null => d.erase name
        | some inner => d.insert name inner
        | none => d.insert name v)
    d

/-- Whether a document is a patch: some value of it is marked. -/
def isPatch (d : Document) : Bool := d.fields.any fun f => f.2.unmark?.isSome

/-- Changes the first document of an identity; nothing when there is none. -/
def changeFirst (id : String) (change : Document → Document) :
    List Document → Option (List Document)
  | [] => none
  | d :: ds =>
    if hasId id d then some (change d :: ds) else (changeFirst id change ds).map (d :: ·)

/-- A document with the version of its write. -/
def withVersion (version : Nat) (d : Document) : Document :=
  d.insert versionField (.int64 (Int64.ofNat version))

/-- What is written over the document that has the identity of `incoming`. -/
def written (version : Nat) (incoming current : Document) : Document :=
  withVersion version
    (if isPatch incoming then applyFields current incoming.fields else incoming)

/-- The text of an identity. -/
def idText (v : Stored) : String := v.plain

/-- The contents after one document has been written. -/
def Contents.put (c : Contents) (incoming : Document) : Except String Contents :=
  match incoming.get? idField with
  | none => .error ("document without '" ++ idField ++ "'")
  | some id =>
    let version := c.accepted + 1
    let documents :=
      match changeFirst (idText id) (written version incoming) c.documents with
      | some documents => documents
      | none => c.documents ++ [withVersion version (applyFields .empty incoming.fields)]
    .ok { c with documents := documents, accepted := version }

/-- Writes documents one after the other.  The contents are those after the last document that could
be written. -/
def Contents.putAll (c : Contents) : List Document → Option String × Contents
  | [] => (none, c)
  | d :: ds =>
    match c.put d with
    | .ok c => c.putAll ds
    | .error reason => (some reason, c)

/-- The documents that a query matches, in storage order. -/
def Contents.select (c : Contents) (q : Query.Node) : List Document :=
  c.documents.filter (Query.Node.holds · q)

end Memory

/-! ## The store -/

/-- A store in memory: its collections by name, and whether it can be reached. -/
structure Memory where
  collections : Dictionary Memory.Contents
  available : Bool
  closed : Bool
  deriving DecidableEq, Repr

namespace Memory

/-- A store without collections. -/
def empty : Memory := ⟨.empty, true, false⟩

instance : Inhabited Memory := ⟨.empty⟩

/-- Refuses work while the store is closed or out of reach. -/
def check (m : Memory) : Except StoreError Unit :=
  if m.closed then .error (.connectionUnavailable .clientClosed)
  else if !m.available then .error (.connectionUnavailable .unreachable)
  else .ok ()

/-- The contents of a collection that must be there. -/
def contents (m : Memory) (name : String) : Except StoreError Contents :=
  match m.collections.get? name with
  | some c => .ok c
  | none => .error (.connectionUnavailable (.missingCollection name))

/-- Replaces the contents of a collection. -/
def setContents (m : Memory) (name : String) (c : Contents) : Memory :=
  { m with collections := m.collections.insert name c }

/-- The documents of a collection in storage order. -/
def documents (m : Memory) (name : String) : List Document :=
  ((m.collections.get? name).map Contents.documents).getD []

/-- Gives a collection a schema, as if it had been put there before. -/
def preloadSchema (m : Memory) (name : String) (s : Schema) : Memory :=
  { m with collections := m.collections.modify name .empty fun c => { c with schema := some s } }

/-- Creates a collection unless it has been created. -/
def ensure (m : Memory) (c : Collection) : Except StoreError Unit × Memory :=
  match m.check with
  | .error e => (.error e, m)
  | .ok () =>
    (.ok (), { m with
      collections := m.collections.modify c.name .empty fun held => { held with created := true } })

/-- Puts a schema into effect in a collection that has been created. -/
def syncSchema (m : Memory) (name : String) (s : Schema) (merge : Bool) :
    Except StoreError Schema × Memory :=
  let target := do
    m.check
    let c ← m.contents name
    if c.created then .ok c else .error (.connectionUnavailable (.missingCollection name))
  match target with
  | .error e => (.error e, m)
  | .ok c =>
    let effective :=
      match c.schema with
      | some old => if merge then old.merge s else s
      | none => s
    (.ok effective, m.setContents name { c with schema := some effective })

/-- Writes documents into a collection. -/
def write (m : Memory) (name : String) (documents : List Document) :
    Except StoreError Unit × Memory :=
  match (do m.check; m.contents name) with
  | .error e => (.error e, m)
  | .ok c =>
    let (failure, c) := c.putAll documents
    (match failure with
      | none => .ok ()
      | some reason => .error (.operation name "insert" reason),
    m.setContents name c)

/-- Deletes documents from a collection. -/
def delete (m : Memory) (name : String) (target : DeleteTarget) : Except StoreError Unit × Memory :=
  let kept := do
    m.check
    let c ← m.contents name
    match target with
    | .ids ids =>
      .ok { c with documents := c.documents.filter fun d => !ids.any fun id => hasId id d }
    | .query text =>
      let q ← Query.parse text
      .ok { c with documents := c.documents.filter fun d => !q.holds d }
  match kept with
  | .error e => (.error e, m)
  | .ok c => (.ok (), m.setContents name c)

/-- A page of the documents that match a query. -/
def query (m : Memory) (name text : String) (offset limit : Nat) : Except StoreError Page := do
  m.check
  let q ← Query.parse text
  let c ← m.contents name
  let found := c.select q
  .ok ⟨(found.drop offset).take limit, found.length⟩

/-- The number of documents of all collections. -/
def size (m : Memory) : Nat := (m.collections.entries.flatMap fun e => e.2.documents).length

/-- The answer to a request. -/
def answer : (r : Request) → Memory → Except StoreError r.Answer × Memory
  | .ensure c, m => m.ensure c
  | .syncSchema name s merge, m => m.syncSchema name s merge
  | .write name documents _, m => m.write name documents
  | .delete name target _, m => m.delete name target
  | .query name text offset limit, m => (m.query name text offset limit, m)
  | .close, m => (.ok (), { m with closed := true })

/-- The store in memory as a service. -/
def service : Service Memory := ⟨answer, size⟩

end Memory

end SearchTable
