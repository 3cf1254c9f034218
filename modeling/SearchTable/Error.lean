import SearchTable.Number.Digits
/-!
# Errors

What can go wrong, as causes.  `StoreError` sorts the causes by the party that has to act on them;
`StoreError.message` is the only place where they are put into words.
-/

namespace SearchTable

/-! ## Causes -/

/-- What a query text lacks at the place where reading it stopped. -/
inductive SyntaxFault where
  | trailingInput
  | expected (c : Char)
  | nestedTooDeeply
  | unexpectedEnd
  | fieldName
  | rangeKeyword
  | unterminatedRange
  | value
  deriving DecidableEq, Repr

/-- Why a text is not a query.  Positions count characters. -/
inductive QueryProblem where
  | tooLong
  | syntaxFault (position : Nat) (fault : SyntaxFault)
  deriving DecidableEq, Repr

/-- Why a condition or an assignment cannot be compiled. -/
inductive CompileProblem where
  | query (problem : QueryProblem)
  | nestedTooDeeply (limit : Nat)
  | noOperands (tag : String)
  | placeholderId (id : String)
  | compareOperator (name : String)
  | mathOperator (name : String)
  | constantNotScalar
  | unsupportedAssignment (field : String) (kind : String)
  | assignmentFromField (field source : String)
  | undeclaredTarget (field : String)
  | undeclaredField (table field : String)
  deriving DecidableEq, Repr

/-- Why the store cannot be reached. -/
inductive ConnectionProblem where
  | clientClosed
  | unreachable
  | missingCollection (name : String)
  | notConnected (table : String)
  | refused (reason : String)
  | whileConnecting (step : String) (cause : String)
  | whilePreparing (step collection : String) (cause : String)
  deriving DecidableEq, Repr

/-- Why a table operation fails on its side of the store. -/
inductive TableProblem where
  | recordWidth (values attributes : Nat)
  | requestFailed (action collection : String) (cause : String)
  | unpairedUpdates (parameterSets updates : Nat)
  | unpairedRecords (parameterSets records : Nat)
  | missingId
  deriving DecidableEq, Repr

/-- Why a declaration or an option is refused. -/
inductive ConfigProblem where
  | columnType (name : String)
  | primaryKey (name : String)
  | zeroCount
  | zeroBatch
  | emptyUrl
  | notNumber (option value : String)
  | notFlag (option value : String)
  | schemaEntry (entry : String)
  | schemaFlag (field flag value : String)
  | binding (text : String)
  | fileNotFound (path : String)
  deriving DecidableEq, Repr

/-- A failure of the library, by the party that has to act on it. -/
inductive StoreError where
  | compile (problem : CompileProblem)
  | unboundPlaceholder (id : String)
  | connectionUnavailable (problem : ConnectionProblem)
  | operation (collection context reason : String)
  | table (problem : TableProblem)
  | config (problem : ConfigProblem)
  | io
  | json
  | toml
  deriving DecidableEq, Repr

/-! ## Wording -/

/-- A natural number in an error text. -/
def countText (n : Nat) : String := String.ofList (Number.digits n)

namespace SyntaxFault

def message : SyntaxFault → String
  | trailingInput => "unexpected trailing input"
  | expected c => "expected '" ++ String.singleton c ++ "'"
  | nestedTooDeeply => "query nested too deeply"
  | unexpectedEnd => "unexpected end of query"
  | fieldName => "expected field name"
  | rangeKeyword => "expected TO in range"
  | unterminatedRange => "unterminated range"
  | value => "expected value"

end SyntaxFault

namespace QueryProblem

def message : QueryProblem → String
  | tooLong => "query too long"
  | syntaxFault position fault =>
    "query syntax error at " ++ countText position ++ ": " ++ fault.message

end QueryProblem

namespace CompileProblem

def message : CompileProblem → String
  | query problem => problem.message
  | nestedTooDeeply limit => "expression nested deeper than " ++ countText limit
  | noOperands tag => tag ++ " requires at least one operand"
  | placeholderId id => "invalid placeholder id '" ++ id ++ "'"
  | compareOperator name => "unknown compare operator '" ++ name ++ "'"
  | mathOperator name => "unknown math operator '" ++ name ++ "'"
  | constantNotScalar => "constants must be scalar values"
  | unsupportedAssignment field kind =>
    "set '" ++ field ++ "': " ++ kind ++ " is not supported in a set expression"
  | assignmentFromField field source =>
    "cannot assign '" ++ field ++ "' from store field '" ++ source ++ "'"
  | undeclaredTarget field => "cannot assign undeclared attribute '" ++ field ++ "'"
  | undeclaredField table field => "table " ++ table ++ " has no attribute '" ++ field ++ "'"

end CompileProblem

namespace ConnectionProblem

def message : ConnectionProblem → String
  | clientClosed => "client is closed"
  | unreachable => "store is unreachable"
  | missingCollection name => "collection '" ++ name ++ "' does not exist"
  | notConnected table => "table " ++ table ++ " is not connected"
  | refused reason => reason
  | whileConnecting step cause => step ++ ": " ++ cause
  | whilePreparing step collection cause => step ++ " for '" ++ collection ++ "': " ++ cause

end ConnectionProblem

namespace TableProblem

def message : TableProblem → String
  | recordWidth values attributes =>
    "record has " ++ countText values ++ " values but the table declares " ++
      countText attributes ++ " attributes"
  | requestFailed action collection cause =>
    action ++ " on '" ++ collection ++ "' failed: " ++ cause
  | unpairedUpdates parameterSets updates =>
    countText parameterSets ++ " parameter sets but " ++ countText updates ++ " update value sets"
  | unpairedRecords parameterSets records =>
    countText parameterSets ++ " parameter sets but " ++ countText records ++ " records to insert"
  | missingId => "matched document has no 'id' field"

end TableProblem

namespace ConfigProblem

def message : ConfigProblem → String
  | columnType name => "unknown attribute type '" ++ name ++ "'"
  | primaryKey name => "primary key '" ++ name ++ "' is not a declared attribute"
  | zeroCount => "shards and replicas must be at least 1"
  | zeroBatch => "batch sizes must be at least 1"
  | emptyUrl => "url must not be empty"
  | notNumber option value => "option '" ++ option ++ "' expects a number, got '" ++ value ++ "'"
  | notFlag option value => "option '" ++ option ++ "' expects true/false, got '" ++ value ++ "'"
  | schemaEntry entry => "schema entry '" ++ entry ++ "' must be 'name type [flag]*'"
  | schemaFlag field flag value =>
    "field '" ++ field ++ "': flag '" ++ flag ++ "' expects true/false, got '" ++ value ++ "'"
  | binding text => "binding '" ++ text ++ "' is not of the form id=value"
  | fileNotFound path => "config file " ++ path ++ " not found"

end ConfigProblem

namespace StoreError

/-- The text of an error as it is shown to a caller.  The parsers of foreign formats word their own
errors; of those only the format is named. -/
def message : StoreError → String
  | compile problem => "Compile error: " ++ problem.message
  | unboundPlaceholder id => "No value bound for placeholder [" ++ id ++ "]"
  | connectionUnavailable problem => "Connection unavailable: " ++ problem.message
  | operation collection context reason =>
    "Operation failed on collection '" ++ collection ++ "' during " ++ context ++ ": " ++ reason
  | table problem => "Table error: " ++ problem.message
  | config problem => "Config error: " ++ problem.message
  | io => "I/O error: "
  | json => "Serde JSON: "
  | toml => "TOML: "

/-- Errors that a host should answer by reconnecting. -/
def isConnection : StoreError → Bool
  | connectionUnavailable _ => true
  | _ => false

end StoreError

end SearchTable
