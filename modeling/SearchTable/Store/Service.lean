import SearchTable.Collection
import SearchTable.Document
import SearchTable.Error
/-!
# The boundary to the store

A store answers requests.  `Request` lists them, `Request.Answer` gives the type of the answer to
each, and a `Service` over states of type `σ` is what answers them: a request in a state gives an
answer or an error, and the next state.

Tables and cursors work over any service, so what they do is stated for stores that answer or fail
in any pattern.
-/

namespace SearchTable

/-- Which documents a deletion is for. -/
inductive DeleteTarget where
  | query (text : String)
  | ids (ids : List String)
  deriving DecidableEq, Repr

/-- A part of the documents that match a query, and how many match it in all. -/
structure Page where
  documents : List Document
  found : Nat
  deriving DecidableEq, Repr

/-- A request to a store. -/
inductive Request where
  /-- Creates the collection unless it is there. -/
  | ensure (collection : Collection)
  /-- Puts a schema into effect, merged over the one in effect if `merge` is set. -/
  | syncSchema (collection : String) (schema : Schema) (merge : Bool)
  /-- Writes whole documents or applies patches, by identity. -/
  | write (collection : String) (documents : List Document) (commitAsync : Bool)
  | delete (collection : String) (target : DeleteTarget) (commitAsync : Bool)
  /-- Asks for at most `limit` matches after the first `offset` ones. -/
  | query (collection : String) (text : String) (offset limit : Nat)
  | close
  deriving DecidableEq, Repr

namespace Request

/-- The type of the answer to a request. -/
def Answer : Request → Type
  | syncSchema .. => Schema
  | query .. => Page
  | _ => Unit

/-- The name of a request's kind. -/
def name : Request → String
  | ensure _ => "ensure"
  | syncSchema .. => "sync_schema"
  | write .. => "write"
  | delete _ (.ids _) _ => "delete_ids"
  | delete _ (.query _) _ => "delete_query"
  | query .. => "query"
  | close => "close"

end Request

/-- What answers requests.  `capacity` bounds the number of documents that a query can reach in a
state, and with it the work of reading a result to its end. -/
structure Service (σ : Type) where
  answer : (r : Request) → σ → Except StoreError r.Answer × σ
  capacity : σ → Nat

end SearchTable
