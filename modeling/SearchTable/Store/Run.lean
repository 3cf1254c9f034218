import SearchTable.Log
import SearchTable.Store.Service
/-!
# Operations on a store

An operation of a table or a cursor works on a `World`: the state of the store, the supply of new
identities and the log.  An operation that may fail gives an `Except` as its result, so a failure
keeps what has happened to the world before it.
-/

namespace SearchTable

/-- What operations change. -/
structure World (σ : Type) where
  store : σ
  /-- The number of the next random identity. -/
  supply : Nat
  /-- The entries of the log, the latest one last. -/
  log : List Log.Entry

/-- An operation on a world. -/
abbrev Act (σ α : Type) : Type := StateM (World σ) α

namespace Act

variable {σ : Type}

/-- Puts a request to the store. -/
def ask (service : Service σ) (r : Request) : Act σ (Except StoreError r.Answer) := fun w =>
  let (result, store) := service.answer r w.store
  (result, { w with store := store })

/-- Adds an entry to the log. -/
def report (entry : Log.Entry) : Act σ Unit :=
  modify fun w => { w with log := w.log ++ [entry] }

/-- Adds a line of the level for errors to the log. -/
def complain (text : String) : Act σ Unit := report (.line .error text)

end Act

end SearchTable
