import SearchTable.Proofs.Store.Unreliable
import SearchTable.Proofs.Table.Groups
/-!
# The calls of an update

What an update asks of its store, whatever the store answers.  A pair asks for pages first, until it
has all of its matches, and then sends its groups: the deletions of a group, if there are any, and
its documents right behind them.  The first call that fails is the last one.

Every step is described by `Ran`: the requests that it carries out, and what they add to the report.
The lemmas follow the steps of the update; a whole update is put together in `ran_runPairs`.
-/

namespace SearchTable

open Unreliable

variable {σ : Type} (inner : Service σ) (failures : Nat → Option StoreError)

/-! ## Pages -/

/-- Whether a request asks for a page. -/
def Request.isQuery : Request → Bool
  | .query .. => true
  | _ => false

namespace Call

/-- The number of identities that a call has deleted. -/
def deleted : Call → Nat
  | ⟨.delete _ (.ids ids) _, true⟩ => ids.length
  | _ => 0

/-- The number of documents that a call has written. -/
def written : Call → Nat
  | ⟨.write _ ds _, true⟩ => ds.length
  | _ => 0

/-- Whether a call is a write that has succeeded. -/
def isWritten : Call → Bool
  | ⟨.write .., true⟩ => true
  | _ => false

end Call

namespace Cursor

end Cursor

namespace Reconcile

variable {plan : Plan} {condition : Condition}

/-- A part of the work of an update: a page that is asked for, or a group that is sent. -/
inductive Part where
  | page (r : Request)
  | group (xs : List Staged)

namespace Part

/-- The requests of a part.  A group deletes what its matches give up, if they give up anything, and
writes its documents right after that. -/
def requests (plan : Plan) : Part → List Request
  | .page r => [r]
  | .group xs =>
    (if (deletions xs).isEmpty then []
      else [.delete plan.collection (.ids (deletions xs)) plan.commitAsync]) ++
      [.write plan.collection (xs.map Staged.write) plan.commitAsync]

/-- A page is asked for by a query, and a group has at least one document and not too many. -/
def IsSound (plan : Plan) : Part → Prop
  | .page r => r.isQuery = true
  | .group xs => xs ≠ [] ∧ xs.length ≤ plan.updateBatch

end Part

/-! ## What calls report -/

/-- What calls add to a report. -/
structure Accounts (r : UpdateReport) (calls : List Call) (r' : UpdateReport) : Prop where
  deleted : r'.deleted = r.deleted + (calls.map Call.deleted).sum
  written : r'.patched + r'.inserted = r.patched + r.inserted + (calls.map Call.written).sum
  flushes : r'.flushes = r.flushes + calls.countP Call.isWritten
  failed : r'.failed = r.failed

theorem Accounts.trans {r r' r'' : UpdateReport} {calls calls' : List Call}
    (h : Accounts r calls r') (h' : Accounts r' calls' r'') : Accounts r (calls ++ calls') r'' where
  deleted := by
    rw [h'.deleted, h.deleted, List.map_append, List.sum_append, Nat.add_assoc]
  written := by
    rw [h'.written, h.written, List.map_append, List.sum_append, Nat.add_assoc]
  flushes := by
    rw [h'.flushes, h.flushes, List.countP_append, Nat.add_assoc]
  failed := h'.failed.trans h.failed

section Steps

variable {α β : Type} {p p' p'' : Progress (Unreliable σ)} {rs rs' : List Request}
  {parts parts' : List Part} {result : Except StoreError α} {e : StoreError}

/-- What a step of an update has done: the requests that it has carried out, and what it has added
to the report. -/
structure Made (p : Progress (Unreliable σ)) (rs : List Request) (result : Except StoreError α)
    (p' : Progress (Unreliable σ)) : Prop where
  carries : Carries p.world rs result p'.world
  accounts : Accounts p.report (callsSince p.world p'.world) p'.report

theorem Made.trans {a : α} {result : Except StoreError β}
    (h : Made p rs (.ok a : Except StoreError α) p') (h' : Made p' rs' result p'') :
    Made p (rs ++ rs') result p'' where
  carries := h.carries.trans h'.carries
  accounts := by
    rw [callsSince_append h.carries.calls h'.carries.calls]
    exact h.accounts.trans h'.accounts

theorem Made.congr {result' : Except StoreError β} (h : Made p rs result p')
    (hsame : result'.isOk = result.isOk) : Made p rs result' p' :=
  ⟨h.carries.congr hsame, h.accounts⟩

/-- A step as the parts that it has carried out. -/
structure Ran (plan : Plan) (p : Progress (Unreliable σ)) (parts : List Part)
    (result : Except StoreError α) (p' : Progress (Unreliable σ)) : Prop where
  made : Made p (parts.flatMap (Part.requests plan)) result p'
  sound : ∀ part ∈ parts, part.IsSound plan

theorem Ran.trans {a : α} {result : Except StoreError β}
    (h : Ran plan p parts (.ok a : Except StoreError α) p') (h' : Ran plan p' parts' result p'') :
    Ran plan p (parts ++ parts') result p'' where
  made := by
    rw [List.flatMap_append]
    exact h.made.trans h'.made
  sound part hpart := (List.mem_append.1 hpart).elim (h.sound part) (h'.sound part)

theorem Ran.congr {result' : Except StoreError β} (h : Ran plan p parts result p')
    (hsame : result'.isOk = result.isOk) : Ran plan p parts result' p' :=
  ⟨h.made.congr hsame, h.sound⟩

end Steps

/-! ## Reading and sending -/

end Reconcile

end SearchTable
