import Mathlib
import SearchTable.Store.Run
/-!
# Stores that fail

A store of any kind whose requests fail as planned: the plan says for every request, by its number,
whether it fails before it reaches the store.  All requests are recorded with their outcome, so that
what a table or a cursor does can be stated as a property of the calls that it makes.
-/

namespace SearchTable

/-- A request that a store has received, and whether it has succeeded. -/
structure Call where
  request : Request
  succeeded : Bool
  deriving DecidableEq, Repr

/-- A store with the calls that it has received, the latest one last. -/
structure Unreliable (σ : Type) where
  store : σ
  calls : List Call

namespace Unreliable

variable {σ : Type} {inner : Service σ} {failures : Nat → Option StoreError}
  {w w' : World (Unreliable σ)}

/-- The answer to a request that may fail as planned. -/
def answer (inner : Service σ) (failures : Nat → Option StoreError) (r : Request)
    (u : Unreliable σ) : Except StoreError r.Answer × Unreliable σ :=
  match failures u.calls.length with
  | some e => (.error e, ⟨u.store, u.calls ++ [⟨r, false⟩]⟩)
  | none =>
    let (result, store) := inner.answer r u.store
    (result, ⟨store, u.calls ++ [⟨r, result.isOk⟩]⟩)

/-- Stores that fail as planned, as a service. -/
def service (inner : Service σ) (failures : Nat → Option StoreError) : Service (Unreliable σ) :=
  ⟨answer inner failures, fun u => inner.capacity u.store⟩

/-- The world after a call that has changed nothing but the record. -/
def record (w : World (Unreliable σ)) (call : Call) : World (Unreliable σ) :=
  { w with store := ⟨w.store.store, w.store.calls ++ [call]⟩ }

/-- The calls that a world has received and an earlier one has not. -/
def callsSince (w w' : World (Unreliable σ)) : List Call :=
  w'.store.calls.drop w.store.calls.length

theorem callsSince_self (w : World (Unreliable σ)) : callsSince w w = [] :=
  List.drop_length

theorem callsSince_eq {calls : List Call} (h : w'.store.calls = w.store.calls ++ calls) :
    callsSince w w' = calls := by
  rw [callsSince, h, List.drop_left]

/-- The calls since a world are those up to another one and those since that. -/
theorem callsSince_append {w'' : World (Unreliable σ)} {before after : List Call}
    (h : w'.store.calls = w.store.calls ++ before)
    (h' : w''.store.calls = w'.store.calls ++ after) :
    callsSince w w'' = before ++ after :=
  callsSince_eq (by rw [h', h, List.append_assoc])

theorem ask_of_failure (inner : Service σ) {e : StoreError}
    (h : failures w.store.calls.length = some e) (r : Request) :
    Act.ask (service inner failures) r w = (.error e, record w ⟨r, false⟩) := by
  simp only [Act.ask, service, answer, h]
  rfl

theorem ask_of_none (h : failures w.store.calls.length = none) {r : Request}
    {result : Except StoreError r.Answer} (hanswer : inner.answer r w.store.store =
      (result, w.store.store)) :
    Act.ask (service inner failures) r w = (result, record w ⟨r, result.isOk⟩) := by
  simp only [Act.ask, service, answer, h, hanswer]
  rfl

/-! ## Requests that are made until one fails -/

variable {α β : Type} {rs rs' : List Request} {calls calls' : List Call} {e : StoreError}
  {result : Except StoreError α}

/-- The calls for requests that have all succeeded. -/
def succeeded (rs : List Request) : List Call := rs.map (⟨·, true⟩)

theorem succeeded_append (rs rs' : List Request) :
    succeeded (rs ++ rs') = succeeded rs ++ succeeded rs' :=
  List.map_append

/-- The calls that carry out requests one after the other.  The first one that fails is the last one,
and its error is the result. -/
inductive Carried (rs : List Request) : Except StoreError α → List Call → Prop
  | all (result : Except StoreError α) : Carried rs result (succeeded rs)
  | cut {before after : List Request} {r : Request} (e : StoreError)
      (h : rs = before ++ r :: after) : Carried rs (.error e) (succeeded before ++ [⟨r, false⟩])

/-- With a result, all of them have succeeded. -/
theorem Carried.eq_succeeded {a : α} (h : Carried rs (.ok a : Except StoreError α) calls) :
    calls = succeeded rs := by
  cases h with
  | all _ => rfl

theorem Carried.append {a : α} {result : Except StoreError β}
    (h : Carried rs (.ok a : Except StoreError α) calls) (h' : Carried rs' result calls') :
    Carried (rs ++ rs') result (calls ++ calls') := by
  obtain rfl := h.eq_succeeded
  cases h' with
  | all _ =>
    rw [← succeeded_append]
    exact .all _
  | cut e hrs =>
    rw [← List.append_assoc, ← succeeded_append]
    exact .cut e (by rw [hrs, List.append_assoc])

/-- Only success and failure matter of a result. -/
theorem Carried.congr {result' : Except StoreError β} (h : Carried rs result calls)
    (hsame : result'.isOk = result.isOk) : Carried rs result' calls := by
  cases h with
  | all _ => exact .all _
  | cut e h =>
    cases result' with
    | ok b => simp [Except.isOk, Except.toBool] at hsame
    | error e' => exact .cut e' h

/-- Between two worlds the calls have been made that carry out some requests. -/
structure Carries (w : World (Unreliable σ)) (rs : List Request) (result : Except StoreError α)
    (w' : World (Unreliable σ)) : Prop where
  calls : w'.store.calls = w.store.calls ++ callsSince w w'
  carried : Carried rs result (callsSince w w')

theorem Carries.trans {w'' : World (Unreliable σ)} {a : α} {result : Except StoreError β}
    (h : Carries w rs (.ok a : Except StoreError α) w') (h' : Carries w' rs' result w'') :
    Carries w (rs ++ rs') result w'' := by
  have hsince := callsSince_append h.calls h'.calls
  exact ⟨by rw [hsince, h'.calls, h.calls, List.append_assoc], hsince ▸ h.carried.append h'.carried⟩

theorem Carries.congr {result' : Except StoreError β} (h : Carries w rs result w')
    (hsame : result'.isOk = result.isOk) : Carries w rs result' w' :=
  ⟨h.calls, h.carried.congr hsame⟩

/-- A request that is put to the store is one call. -/
theorem calls_ask (inner : Service σ) (failures : Nat → Option StoreError) (r : Request)
    (w : World (Unreliable σ)) :
    (Act.ask (service inner failures) r w).2.store.calls =
      w.store.calls ++ [⟨r, (Act.ask (service inner failures) r w).1.isOk⟩] := by
  simp only [Act.ask, service, answer]
  split <;> rfl

end Unreliable

end SearchTable
