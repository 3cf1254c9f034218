import SearchTable.Options
import SearchTable.Toml.Source
/-!
# Options files

A TOML document sets options by the names of their fields.  An option that it does not name keeps
its default, and what it says under other names is passed over.
-/

namespace SearchTable.Options

/-- The options after the field of a name has been set to an item; nothing when the item is not of
the kind of that field. -/
def setItem? (o : Options) (name : String) (item : Toml.Item) : Option Options :=
  match name with
  | "collection" => item.toText?.map fun s => { o with collection := some s }
  | "url" => item.toText?.map fun s => { o with url := s }
  | "shards" => (item.toNatBelow? countBound).map fun n => { o with shards := n }
  | "replicas" => (item.toNatBelow? countBound).map fun n => { o with replicas := n }
  | "schema" => item.toText?.map fun s => { o with schema := some s }
  | "unique_key" => item.toText?.map fun s => { o with uniqueKey := some s }
  | "commit_async" => item.toBool?.map fun b => { o with commitAsync := b }
  | "base_config" => item.toText?.map fun s => { o with baseConfig := s }
  | "merge_schema" => item.toBool?.map fun b => { o with mergeSchema := b }
  | "read_batch_size" => (item.toNatBelow? sizeBound).map fun n => { o with readBatchSize := n }
  | "update_batch_size" => (item.toNatBelow? sizeBound).map fun n => { o with updateBatchSize := n }
  | "domain" => item.toText?.map fun s => { o with domain := s }
  | _ => some o

/-- The options that a document sets, not yet validated. -/
def ofEntries? (entries : Toml.Entries) : Option Options :=
  entries.foldlM (fun o (name, item) => o.setItem? name item) {}

/-- The options that the text of an options file stands for. -/
def ofFileText (text : String) : Except StoreError Options :=
  match (Toml.readDocument text).bind ofEntries? with
  | none => .error .toml
  | some o => do
    o.validate
    .ok o

end SearchTable.Options
