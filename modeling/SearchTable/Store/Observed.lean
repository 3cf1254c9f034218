import SearchTable.Store.Service
/-!
# Observed stores

A store of any kind with a record of the requests it has received.  Requests can be made to fail, by
the name of their kind: a plan says how many more of them succeed before all of them fail.  A
request is recorded first, then it may fail as planned, and only then it reaches the store.
-/

namespace SearchTable

/-- A store with the requests it has received, the latest one last, and the planned failures. -/
structure Observed (σ : Type) where
  store : σ
  requests : List Request
  failures : Dictionary Nat

namespace Observed

variable {σ : Type}

/-- Observes a store from now on. -/
def ofStore (store : σ) : Observed σ := ⟨store, [], .empty⟩

/-- The error of a request that fails as planned. -/
def plannedError (r : Request) : StoreError := .operation "test" r.name "injected failure"

/-- Lets a kind of request fail after `count` more successes. -/
def failAfter (o : Observed σ) (kind : String) (count : Nat) : Observed σ :=
  { o with failures := o.failures.insert kind count }

/-- Lets a kind of request succeed again. -/
def recover (o : Observed σ) (kind : String) : Observed σ :=
  { o with failures := o.failures.erase kind }

/-- Records a request, and tells whether it is to fail. -/
def note (o : Observed σ) (r : Request) : Bool × Observed σ :=
  let o := { o with requests := o.requests ++ [r] }
  match o.failures.get? r.name with
  | none => (false, o)
  | some 0 => (true, o)
  | some (count + 1) => (false, { o with failures := o.failures.insert r.name count })

/-- The answer to a request. -/
def answer (service : Service σ) (r : Request) (o : Observed σ) :
    Except StoreError r.Answer × Observed σ :=
  match o.note r with
  | (true, o) => (.error (plannedError r), o)
  | (false, o) =>
    let (result, store) := service.answer r o.store
    (result, { o with store := store })

/-- Observed stores as a service. -/
def service (inner : Service σ) : Service (Observed σ) :=
  ⟨answer inner, fun o => inner.capacity o.store⟩

end Observed

end SearchTable
