import SearchTable.Condition.Basic
/-!
# Assignments

The right-hand sides of an update: a constant or a stream variable, which get their value when the
set is resolved.  A store field may stand there too, but a set that holds one cannot be resolved,
because the store is patched with literal values only.
-/

namespace SearchTable

/-- New values for fields, in the order of their assignment. -/
abbrev Changes := List (String × Value)

/-- The right-hand side of an assignment. -/
inductive AssignedValue where
  | constant (value : Value)
  | placeholder (id : String)
  | storeField (name : String)
  deriving DecidableEq, Repr

/-- Assignments to fields, in order. -/
structure UpdateSet where
  assignments : List (String × AssignedValue)
  deriving DecidableEq, Repr, Inhabited

namespace AssignedValue

/-- The right-hand side an expression stands for in an assignment to a field. -/
def ofExpression (field : String) : Expression → Except StoreError AssignedValue
  | .constant value => .ok (.constant value)
  | .variable id => .ok (.placeholder id)
  | .field name _ => .ok (.storeField name)
  | e => .error (.compile (.unsupportedAssignment field e.kind))

/-- The value assigned to a field for one event. -/
def resolve (field : String) (params : Bindings) : AssignedValue → Except StoreError Value
  | .constant value => .ok value
  | .placeholder id =>
    match params.get? id with
    | some value => .ok value
    | none => .error (.unboundPlaceholder id)
  | .storeField name => .error (.compile (.assignmentFromField field name))

end AssignedValue

namespace UpdateSet

/-- Compiles assignments; the first one that has no compiled form fails. -/
def compile (assignments : List (String × Expression)) : Except StoreError UpdateSet := do
  let compiled ← assignments.mapM fun (field, e) => do
    .ok (field, ← AssignedValue.ofExpression field e)
  .ok ⟨compiled⟩

/-- The changes for one event; the first assignment without a value fails. -/
def resolve (s : UpdateSet) (params : Bindings) : Except StoreError Changes :=
  s.assignments.mapM fun (field, v) => do .ok (field, ← v.resolve field params)

end UpdateSet

end SearchTable
