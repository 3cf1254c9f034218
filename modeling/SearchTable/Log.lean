import SearchTable.Json.Basic
import SearchTable.Text.Blank
/-!
# Log entries

What the library reports beside its results: lines of a level, and audit records, one for every
mutation of a collection.  Operations return their entries in the order in which they arise; who
runs them decides where the entries go.
-/

namespace SearchTable.Log

/-- The levels, from the one that lets nothing through to the one that lets everything through. -/
inductive Level where
  | off
  | error
  | warn
  | info
  | debug
  | trace
  deriving DecidableEq, Repr

namespace Level

/-- The name of a level. -/
def name : Level → String
  | off => "OFF"
  | error => "ERROR"
  | warn => "WARN"
  | info => "INFO"
  | debug => "DEBUG"
  | trace => "TRACE"

/-- The place of a level in their order. -/
def rank : Level → Nat
  | off => 0
  | error => 1
  | warn => 2
  | info => 3
  | debug => 4
  | trace => 5

/-- The level of a name, in letters of any case; `info` for any other text. -/
def read (text : String) : Level :=
  match Text.lower text with
  | "error" => error
  | "warn" => warn
  | "debug" => debug
  | "trace" => trace
  | "off" => off
  | _ => info

/-- Whether a filter of this level lets lines of another level through. -/
def admits (filter line : Level) : Bool := line.rank ≤ filter.rank

end Level

/-- An entry of the log. -/
inductive Entry where
  | line (level : Level) (text : String)
  | audit (operation collection : String) (detail : List (String × Json))
  deriving Repr

namespace Entry

/-- The record of a mutation as JSON, with the names in order. -/
def auditJson (operation collection : String) (detail : List (String × Json)) : Json :=
  .object [("collection", .text collection), ("detail", .object detail), ("op", .text operation)]

end Entry

end SearchTable.Log
