import SearchTable.Json.Basic
import SearchTable.Log
import SearchTable.Value.Basic
/-!
# Store options

The options a table is declared with.  Every option has a default; `ofPairs` sets options by name
from texts, as they are written in annotations, and `validate` refuses values that no collection can
have.
-/

namespace SearchTable

open Number Text

/-- The options of a table. -/
structure Options where
  /-- The name of the collection; that of the table when there is none. -/
  collection : Option String := none
  url : String := "localhost:9983"
  shards : Nat := 2
  replicas : Nat := 1
  /-- The schema of the collection as text; derived from the columns when there is none. -/
  schema : Option String := none
  uniqueKey : Option String := none
  commitAsync : Bool := true
  baseConfig : String := "_default"
  mergeSchema : Bool := true
  readBatchSize : Nat := 1000
  updateBatchSize : Nat := 1000
  domain : String := "solrstore"
  deriving DecidableEq, Repr, Inhabited

namespace Options

/-- The bound of the counts of shards and replicas. -/
def countBound : Nat := 4294967296

/-- The bound of the batch sizes. -/
def sizeBound : Nat := 18446744073709551616

/-- Refuses options without a shard, a replica, a batch or an address. -/
def validate (o : Options) : Except StoreError Unit :=
  if o.shards = 0 ∨ o.replicas = 0 then .error (.config .zeroCount)
  else if o.readBatchSize = 0 ∨ o.updateBatchSize = 0 then .error (.config .zeroBatch)
  else if isBlankText o.url then .error (.config .emptyUrl)
  else .ok ()

/-! ## Options by name -/

/-- The number an option is set to. -/
def readNumber (bound : Nat) (key value : String) : Except StoreError Nat :=
  match readNatBelow bound value with
  | some n => .ok n
  | none => .error (.config (.notNumber key value))

/-- The truth value an option is set to, in letters of any case. -/
def readFlag (key value : String) : Except StoreError Bool :=
  match lower value with
  | "true" => .ok true
  | "false" => .ok false
  | _ => .error (.config (.notFlag key value))

/-- The options after one of them has been set; nothing when there is no option of that name. -/
def set? (o : Options) (key value : String) : Option (Except StoreError Options) :=
  match key with
  | "collection" => some (.ok { o with collection := some value })
  | "url" => some (.ok { o with url := value })
  | "shards" => some do .ok { o with shards := ← readNumber countBound key value }
  | "replicas" => some do .ok { o with replicas := ← readNumber countBound key value }
  | "schema" => some (.ok { o with schema := some value })
  | "unique.key" => some (.ok { o with uniqueKey := some value })
  | "commit.async" => some do .ok { o with commitAsync := ← readFlag key value }
  | "base.config" => some (.ok { o with baseConfig := value })
  | "merge.schema" => some do .ok { o with mergeSchema := ← readFlag key value }
  | "read.batch.size" => some do .ok { o with readBatchSize := ← readNumber sizeBound key value }
  | "update.batch.size" => some do
    .ok { o with updateBatchSize := ← readNumber sizeBound key value }
  | "domain" => some (.ok { o with domain := value })
  | _ => none

/-- Sets options one after the other, names and values trimmed.  Unknown names are reported and
passed over; the first value at fault ends the list.  The options that result have been
validated. -/
def setAll (o : Options) : List (String × String) → List Log.Entry × Except StoreError Options
  | [] => ([], do o.validate; .ok o)
  | (key, value) :: pairs =>
    let key := trim key
    match o.set? key (trim value) with
    | some (.ok o) => setAll o pairs
    | some (.error e) => ([], .error e)
    | none =>
      let (entries, result) := setAll o pairs
      (.line .warn ("ignoring unknown store option '" ++ key ++ "'") :: entries, result)

/-- The options that a list of names and values stands for, and what is reported on the way. -/
def ofPairs (pairs : List (String × String)) : List Log.Entry × Except StoreError Options :=
  setAll {} pairs

/-! ## Options as JSON -/

/-- The options as a JSON value, in the order of their declaration. -/
def toJson (o : Options) : Json :=
  .object [("collection", .textOrNull o.collection), ("url", .text o.url),
    ("shards", .ofNat o.shards), ("replicas", .ofNat o.replicas),
    ("schema", .textOrNull o.schema), ("unique_key", .textOrNull o.uniqueKey),
    ("commit_async", .bool o.commitAsync), ("base_config", .text o.baseConfig),
    ("merge_schema", .bool o.mergeSchema), ("read_batch_size", .ofNat o.readBatchSize),
    ("update_batch_size", .ofNat o.updateBatchSize), ("domain", .text o.domain)]

end Options

end SearchTable
