import SearchTable.Expression.Basic
import SearchTable.Json.Source
/-!
# Expressions as JSON text

An expression is written as an object with one member, whose name is the operator.  `Form` is that
notation as it stands: `$and` and `$or` take lists of operands, operators and types are texts that
nobody has looked at yet, and a constant is any JSON value.  `Form.ofSource?` reads the notation,
`Form.toJson` writes it, and `Form.toExpression` gives it its meaning or tells what is wrong with
it.

The parts of `$cmp`, `$in`, `$math` and `$fn` are given by name, or in the order of their
declaration as a list; unknown names are passed over and a name may not be repeated.
-/

namespace SearchTable.Expression

open Json

/-- The reference to a store field. -/
inductive FieldForm where
  | name (name : String)
  | typed (name : String) (type : Option String)
  deriving DecidableEq, Repr, Inhabited

/-- The notation of an expression. -/
inductive Form where
  | and (operands : List Form)
  | or (operands : List Form)
  | not (operand : Form)
  | compare (op : String) (left right : Form)
  | isNull (operand : Form)
  | isIn (operand : Form) (source : String)
  | constant (value : Json)
  | variable (id : String)
  | field (reference : FieldForm)
  | math (op : String) (left right : Form)
  | call (module : Option String) (name : String) (arguments : List Form)
  deriving Repr, Inhabited

/-! ## Reading -/

namespace Form

/-- A text that may be null or left out. -/
def optionalText : Option Source → Option (Option String)
  | none => some none
  | some .null => some none
  | some source => source.toText?.map some

/-- The parts of a binary operator: its name and the two operands. -/
def binaryParts (source : Source) : Option (Source × Source × Source) :=
  match source with
  | .array [op, left, right] => some (op, left, right)
  | .object _ => do
    let members ← source.toMembers?
    some (← Source.required "op" members, ← Source.required "left" members,
      ← Source.required "right" members)
  | _ => none

/-- The parts of a membership test: the operand and the name of what it is looked up in. -/
def membershipParts (source : Source) : Option (Source × Source) :=
  match source with
  | .array [operand, table] => some (operand, table)
  | .object _ => do
    let members ← source.toMembers?
    some (← Source.required "expr" members, ← Source.required "source" members)
  | _ => none

/-- The parts of a function call: its module and its arguments may be left out. -/
def callParts (source : Source) : Option (Option Source × Source × Option Source) :=
  match source with
  | .array [module, name] => some (some module, name, none)
  | .array [module, name, arguments] => some (some module, name, some arguments)
  | .object _ => do
    let members ← source.toMembers?
    some (← Source.optional "namespace" members, ← Source.required "name" members,
      ← Source.optional "args" members)
  | _ => none

/-- The reference to a field: its name, or an object with the name and perhaps the type.  Everything
in such an object has to denote a value, with at most `depth` containers around one another. -/
def fieldForm (depth : Nat) (source : Source) : Option FieldForm :=
  match source with
  | .text s => s.map .name
  | .object _ => do
    let _ ← source.toJsonWithin depth
    let members ← source.toMembers?
    let name ← (← Source.required "name" members).toText?
    let type ← optionalText (← Source.optional "type" members)
    some (.typed name type)
  | _ => none

/-- The items of a list. -/
def listItems : Source → Option (List Source)
  | .array items => some items
  | _ => none

/-- The notation a source holds, with at most `depth` containers around one another.  The object of
an operator is one container; a list or an object in its body is a second one, and the list of
arguments of a call a third. -/
def ofSourceWithin : (depth : Nat) → Source → Option Form
  | depth + 1, .object [(some tag, body)] =>
    match tag with
    | "$and" =>
      match depth with
      | 0 => none
      | inner + 1 => (listItems body).bind fun items =>
        (items.mapM (ofSourceWithin inner)).map .and
    | "$or" =>
      match depth with
      | 0 => none
      | inner + 1 => (listItems body).bind fun items =>
        (items.mapM (ofSourceWithin inner)).map .or
    | "$not" => (ofSourceWithin depth body).map .not
    | "$cmp" =>
      match depth with
      | 0 => none
      | inner + 1 => do
        let (op, left, right) ← binaryParts body
        some (.compare (← op.toText?) (← ofSourceWithin inner left) (← ofSourceWithin inner right))
    | "$is_null" => (ofSourceWithin depth body).map .isNull
    | "$in" =>
      match depth with
      | 0 => none
      | inner + 1 => do
        let (operand, table) ← membershipParts body
        some (.isIn (← ofSourceWithin inner operand) (← table.toText?))
    | "$const" => (body.toJsonWithin depth).map .constant
    | "$param" => body.toText?.map .variable
    | "$field" => (fieldForm depth body).map .field
    | "$math" =>
      match depth with
      | 0 => none
      | inner + 1 => do
        let (op, left, right) ← binaryParts body
        some (.math (← op.toText?) (← ofSourceWithin inner left) (← ofSourceWithin inner right))
    | "$fn" =>
      match depth with
      | 0 => none
      | inner + 1 => do
        let (module, name, arguments) ← callParts body
        let module ← optionalText module
        let name ← name.toText?
        match arguments with
        | none => some (.call module name [])
        | some arguments =>
          match inner with
          | 0 => none
          | innermost + 1 =>
            let items ← listItems arguments
            some (.call module name (← items.mapM (ofSourceWithin innermost)))
    | _ => none
  | _, _ => none

/-- The notation a text holds. -/
def ofText? (text : String) : Option Form :=
  (Source.ofText? text).bind (ofSourceWithin Json.maxDepth)

/-! ## Writing -/

/-- The reference to a field as JSON. -/
def fieldJson : FieldForm → Json
  | .name name => .text name
  | .typed name type => .object [("name", .text name), ("type", .textOrNull type)]

mutual

/-- The notation as a JSON value, with all parts named and in the order of their declaration. -/
def toJson : Form → Json
  | .and operands => .object [("$and", .array (toJsonAll operands))]
  | .or operands => .object [("$or", .array (toJsonAll operands))]
  | .not operand => .object [("$not", operand.toJson)]
  | .compare op left right =>
    .object [("$cmp", .object [("op", .text op), ("left", left.toJson), ("right", right.toJson)])]
  | .isNull operand => .object [("$is_null", operand.toJson)]
  | .isIn operand source =>
    .object [("$in", .object [("expr", operand.toJson), ("source", .text source)])]
  | .constant value => .object [("$const", value)]
  | .variable id => .object [("$param", .text id)]
  | .field reference => .object [("$field", fieldJson reference)]
  | .math op left right =>
    .object [("$math", .object [("op", .text op), ("left", left.toJson), ("right", right.toJson)])]
  | .call module name arguments =>
    .object [("$fn", .object [("namespace", .textOrNull module), ("name", .text name),
      ("args", .array (toJsonAll arguments))])]

/-- A list of notations as JSON values. -/
def toJsonAll : List Form → List Json
  | [] => []
  | f :: fs => f.toJson :: toJsonAll fs

end

/-! ## Meaning -/

/-- The greatest depth of an expression. -/
def maxDepth : Nat := 64

/-- The greatest number of arguments of a call that are looked at. -/
def maxArguments : Nat := 32

/-- The comparison of a name or a sign, in letters of any case. -/
def comparison (name : String) : Except StoreError Comparison :=
  match Text.lower name with
  | "lt" | "<" => .ok .less
  | "lte" | "<=" => .ok .lessEqual
  | "gt" | ">" => .ok .greater
  | "gte" | ">=" => .ok .greaterEqual
  | "eq" | "==" => .ok .equal
  | "ne" | "!=" => .ok .notEqual
  | other => .error (.compile (.compareOperator other))

/-- The arithmetic operation of a name or a sign, in letters of any case. -/
def arithmetic (name : String) : Except StoreError Arithmetic :=
  match Text.lower name with
  | "add" | "+" => .ok .add
  | "sub" | "-" => .ok .subtract
  | "mul" | "*" => .ok .multiply
  | "div" | "/" => .ok .divide
  | "mod" | "%" => .ok .remainder
  | other => .error (.compile (.mathOperator other))

/-- The value of a constant.  An integer takes the narrowest type; one beyond 64 signed bits is a
floating-point number. -/
def constantValue : Json → Except StoreError Value
  | .null => .ok .null
  | .bool b => .ok (.bool b)
  | .text s => .ok (.text s)
  | .integer n =>
    match Number.toInt32? n, Number.toInt64? n with
    | some k, _ => .ok (.int k)
    | none, some k => .ok (.long k)
    | none, none => .ok (.double (.ofInt n))
  | .float x => .ok (.double x)
  | .array _ | .object _ => .error (.compile .constantNotScalar)

/-- A stream variable must have a name, and one that cannot be taken for the end of a
placeholder. -/
def placeholderId (id : String) : Except StoreError String :=
  if id = "" ∨ id.toList.any (fun c => c == '[' || c == ']') then
    .error (.compile (.placeholderId id))
  else .ok id

/-- The type of a field reference; text unless another one is given. -/
def fieldType : Option String → Except StoreError ColumnType
  | none => .ok .string
  | some name => ColumnType.read name

/-- Operands joined from the left: each is the right side of the join of all before it. -/
def joinLeft (tag : String) (join : Expression → Expression → Expression) :
    List Expression → Except StoreError Expression
  | [] => .error (.compile (.noOperands tag))
  | first :: others => .ok (others.foldl join first)

/-- The expression a notation stands for, with `levels` of nesting left.  The first fault from the
left is reported. -/
def toExpressionWithin : (levels : Nat) → Form → Except StoreError Expression
  | 0, _ => .error (.compile (.nestedTooDeeply maxDepth))
  | levels + 1, form =>
    match form with
    | .and operands => do joinLeft "$and" .and (← operands.mapM (toExpressionWithin levels))
    | .or operands => do joinLeft "$or" .or (← operands.mapM (toExpressionWithin levels))
    | .not operand => do .ok (.not (← toExpressionWithin levels operand))
    | .compare op left right => do
      let left ← toExpressionWithin levels left
      let op ← comparison op
      .ok (.compare op left (← toExpressionWithin levels right))
    | .isNull operand => do .ok (.isNull (← toExpressionWithin levels operand))
    | .isIn operand source => do .ok (.isIn (← toExpressionWithin levels operand) source)
    | .constant value => do .ok (.constant (← constantValue value))
    | .variable id => do .ok (.variable (← placeholderId id))
    | .field (.name name) => .ok (.field name .string)
    | .field (.typed name type) => do .ok (.field name (← fieldType type))
    | .math op left right => do
      let op ← arithmetic op
      let left ← toExpressionWithin levels left
      .ok (.math op left (← toExpressionWithin levels right))
    | .call module name arguments => do
      .ok (.call module name (← (arguments.take maxArguments).mapM (toExpressionWithin levels)))

/-- The expression a notation stands for. -/
def toExpression (form : Form) : Except StoreError Expression :=
  toExpressionWithin (maxDepth + 1) form

end Form

/-- The expression that a JSON text denotes. -/
def ofJsonText (text : String) : Except StoreError Expression :=
  match Form.ofText? text with
  | none => .error .json
  | some form => form.toExpression

end SearchTable.Expression
