import SearchTable.Options
import SearchTable.Schema.Text
/-!
# Collections

What a table asks of the collection that holds its documents: the name, the layout over the cluster
and the schema, put together once from the declaration of the table and its options.
-/

namespace SearchTable

/-- The settings of a collection. -/
structure Collection where
  name : String
  url : String
  shards : Nat
  replicas : Nat
  baseConfig : String
  domain : String
  schema : Schema
  deriving DecidableEq, Repr

namespace Collection

/-- The schema of a table: the one written in its options with an identity field, or the one of its
columns. -/
def schemaFor (columns : List Column) (o : Options) : Except StoreError Schema :=
  match o.schema with
  | some text => do .ok (← Schema.ofText text o.uniqueKey).withIdField
  | none =>
    let s := Schema.ofColumns columns
    .ok { s with uniqueKey := o.uniqueKey.getD s.uniqueKey }

/-- The collection of a table. -/
def ofTable (table : String) (columns : List Column) (o : Options) :
    Except StoreError Collection := do
  .ok ⟨o.collection.getD table, o.url, o.shards, o.replicas, o.baseConfig, o.domain,
    ← schemaFor columns o⟩

/-- The name of the configuration set that the collection gets as a copy of its base. -/
def configSet (c : Collection) : String := c.domain ++ "." ++ c.name

end Collection

end SearchTable
