import SearchTable.Value.Basic
/-!
# Conditions as trees

The expressions of a stream engine: comparisons and boolean combinations of constants, of fields of
the store, and of stream variables, which are slots that receive a value for every event.  Lists of
values to be in, arithmetic and function calls belong to the language of the engine too; the store
has no queries for them.
-/

namespace SearchTable

/-- The comparisons. -/
inductive Comparison where
  | less
  | lessEqual
  | greater
  | greaterEqual
  | equal
  | notEqual
  deriving DecidableEq, Repr

namespace Comparison

/-- The sign of a comparison. -/
def symbol : Comparison → String
  | less => "<"
  | lessEqual => "<="
  | greater => ">"
  | greaterEqual => ">="
  | equal => "=="
  | notEqual => "!="

/-- Every comparison. -/
def all : List Comparison := [less, lessEqual, greater, greaterEqual, equal, notEqual]

/-- The comparison with a sign. -/
def ofSymbol? (s : String) : Option Comparison := all.find? fun c => c.symbol == s

end Comparison

/-- The arithmetic operations. -/
inductive Arithmetic where
  | add
  | subtract
  | multiply
  | divide
  | remainder
  deriving DecidableEq, Repr

namespace Arithmetic

/-- The sign of an operation. -/
def symbol : Arithmetic → String
  | add => "+"
  | subtract => "-"
  | multiply => "*"
  | divide => "/"
  | remainder => "%"

/-- Every operation. -/
def all : List Arithmetic := [add, subtract, multiply, divide, remainder]

/-- The operation with a sign. -/
def ofSymbol? (s : String) : Option Arithmetic := all.find? fun a => a.symbol == s

end Arithmetic

/-- An expression of the stream engine. -/
inductive Expression where
  | and (left right : Expression)
  | or (left right : Expression)
  | not (operand : Expression)
  | compare (op : Comparison) (left right : Expression)
  | isNull (operand : Expression)
  | isIn (operand : Expression) (source : String)
  | constant (value : Value)
  | variable (id : String)
  | field (name : String) (type : ColumnType)
  | math (op : Arithmetic) (left right : Expression)
  | call (module : Option String) (name : String) (arguments : List Expression)
  deriving Repr, Inhabited

namespace Expression

/-- The name of an expression's kind in diagnostics. -/
def kind : Expression → String
  | .and .. => "AND"
  | .or .. => "OR"
  | .not _ => "NOT"
  | .compare op .. => "compare '" ++ op.symbol ++ "'"
  | .isNull _ => "IS NULL"
  | .isIn _ source => "IN " ++ source
  | .constant _ => "constant"
  | .variable _ => "stream variable"
  | .field .. => "store variable"
  | .math op .. => "math '" ++ op.symbol ++ "'"
  | .call (some module) name _ => "function '" ++ module ++ ":" ++ name ++ "'"
  | .call none name _ => "function '" ++ name ++ "'"

mutual

/-- The names of the store fields in an expression, from left to right, with repetitions. -/
def fields : Expression → List String
  | .and l r => l.fields ++ r.fields
  | .or l r => l.fields ++ r.fields
  | .not x => x.fields
  | .compare _ l r => l.fields ++ r.fields
  | .isNull x => x.fields
  | .isIn x _ => x.fields
  | .constant _ => []
  | .variable _ => []
  | .field name _ => [name]
  | .math _ l r => l.fields ++ r.fields
  | .call _ _ arguments => fieldsOfAll arguments

/-- The names of the store fields in a list of expressions. -/
def fieldsOfAll : List Expression → List String
  | [] => []
  | x :: xs => x.fields ++ fieldsOfAll xs

end

end Expression

end SearchTable
