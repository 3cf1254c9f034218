import SearchTable.Condition.Clause
import SearchTable.Dictionary
import SearchTable.Log
import SearchTable.Text.Quoted
/-!
# Compiled conditions

A condition of the stream engine is compiled once into a query text in which every stream variable
stands as a placeholder, its id in square brackets, and is resolved for every event by putting the
literals of the bound values in place of the placeholders.

* `Condition.compile` never fails.  An expression without a query counterpart contributes nothing,
  and a boolean operator with one side of that kind stands for its other side.  A comparison that is
  not between one field and one value matches nothing.
* `Condition.notices` lists what compiling has to report.
* `Condition.resolve` fails exactly on a placeholder without a value.
-/

namespace SearchTable

/-- The values of stream variables by their ids. -/
abbrev Bindings := Dictionary Value

/-- The query that asks for every document. -/
def matchAll : String := "*:*"

/-- A query text with placeholders, and the ids of those in the order of their first occurrence. -/
structure Condition where
  query : String
  placeholders : List String
  deriving DecidableEq, Repr, Inhabited

namespace Condition

/-! ## Fragments -/

/-- A part of a query while it is put together. -/
structure Fragment where
  text : List Char
  placeholders : List String
  deriving DecidableEq, Repr

namespace Fragment

/-- The ids of two fragments, those of the first before those that only the second has. -/
def joinIds (first second : List String) : List String :=
  first ++ second.filter fun id => !first.contains id

/-- A fragment between two texts. -/
def wrap (before : String) (f : Fragment) (after : String) : Fragment :=
  ⟨before.toList ++ f.text ++ after.toList, f.placeholders⟩

/-- Two fragments with a text between them, in parentheses. -/
def join (l : Fragment) (word : String) (r : Fragment) : Fragment :=
  ⟨'(' :: l.text ++ word.toList ++ r.text ++ [')'], joinIds l.placeholders r.placeholders⟩

end Fragment

/-- The clause that no document satisfies. -/
def matchNone : String := "(-*:* AND *:*)"

/-! ## Comparisons -/

/-- An operand of a comparison by the part it can play there. -/
inductive Operand where
  | field (name : String)
  | literal (text : String)
  | placeholder (id : String)
  | unsupported (kind : String)
  deriving DecidableEq, Repr

namespace Operand

/-- The part that an expression can play in a comparison. -/
def ofExpression : Expression → Operand
  | .field name _ => field name
  | .variable id => placeholder id
  | .constant value => literal value.literal
  | e => unsupported e.kind

/-- An operand as diagnostics show it. -/
def display : Operand → String
  | field name => "Field(" ++ Text.quoted name ++ ")"
  | literal text => "Value(Literal(" ++ Text.quoted text ++ "))"
  | placeholder id => "Value(Placeholder(" ++ Text.quoted id ++ "))"
  | unsupported kind => "Unsupported(" ++ Text.quoted kind ++ ")"

/-- The text of a value in a clause and the ids of the placeholders in it. -/
def valueText? : Operand → Option Fragment
  | literal text => some ⟨text.toList, []⟩
  | placeholder id => some ⟨'[' :: id.toList ++ [']'], [id]⟩
  | _ => none

/-- The field, the value and the side of the field when two operands are one field and one value. -/
def pair? (l r : Operand) : Option (String × Fragment × Side) :=
  match l, r with
  | field name, other => other.valueText?.map fun value => (name, value, .left)
  | other, field name => other.valueText?.map fun value => (name, value, .right)
  | _, _ => none

end Operand

/-- The fragment for a comparison. -/
def compileComparison (op : Comparison) (left right : Expression) : Fragment :=
  match Operand.pair? (.ofExpression left) (.ofExpression right) with
  | some (name, value, side) =>
    ⟨'(' :: renderChars (shapeOf op side) name.toList value.text ++ [')'], value.placeholders⟩
  | none => ⟨matchNone.toList, []⟩

/-! ## Compiling -/

/-- Two sides of a boolean operator; a side that has no fragment is dropped. -/
def joinSides (word : String) : Option Fragment → Option Fragment → Option Fragment
  | some l, some r => some (l.join word r)
  | some l, none => some l
  | none, some r => some r
  | none, none => none

/-- The fragment for an expression in the place of a condition, if it has one. -/
def fragment? : Expression → Option Fragment
  | .and l r => joinSides " AND " (fragment? l) (fragment? r)
  | .or l r => joinSides " OR " (fragment? l) (fragment? r)
  | .not x => (fragment? x).map fun f => f.wrap "NOT (" ")"
  | .compare op l r => some (compileComparison op l r)
  | .isNull (.field name _) => some ⟨"(-".toList ++ name.toList ++ ":[* TO *] AND *:*)".toList, []⟩
  | _ => none

/-- The condition that holds of every document. -/
def all : Condition := ⟨"", []⟩

/-- The condition for an expression; that of an expression without a fragment holds of every
document. -/
def compile (e : Expression) : Condition :=
  match fragment? e with
  | some f => ⟨String.ofList f.text, f.placeholders⟩
  | none => all

/-- What compiling an expression reports: a warning for every comparison that matches nothing, and a
remark for every expression that is passed over. -/
def notices : Expression → List Log.Entry
  | .and l r => notices l ++ notices r
  | .or l r => notices l ++ notices r
  | .not x => notices x
  | .compare op l r =>
    let left := Operand.ofExpression l
    let right := Operand.ofExpression r
    match Operand.pair? left right with
    | some _ => []
    | none =>
      [.line .warn ("comparison '" ++ op.symbol ++
        "' needs exactly one store field and one value, got " ++ left.display ++ " and " ++
        right.display ++ "; compiled to match nothing")]
  | .isNull (.field _ _) => []
  | .isNull x => [.line .debug ("IS NULL over " ++ x.kind ++ " has no query form; skipped")]
  | .isIn _ source => [.line .debug ("IN " ++ source ++ " is not translated; skipped")]
  | x => [.line .debug (x.kind ++ " in predicate position has no query form; skipped")]

/-! ## Resolving -/

/-- A condition without any text. -/
def isEmpty (c : Condition) : Bool := Text.isBlankText c.query

/-- The text of a condition; without a text of its own it asks for every document. -/
def display (c : Condition) : String := if c.isEmpty then matchAll else c.query

/-- The id between an opening bracket, in front of these characters, and the next closing one. -/
def tokenId? (cs : List Char) : Option String :=
  (Text.cutChars ']' cs).map fun (id, _) => String.ofList id

/-- The query text with every placeholder token replaced by the literal of its value.  The first
`skip` characters belong to a token that has been replaced already.  A bracket that does not open a
token stands for itself, and what is put in place of a token is not looked at again. -/
def substitute (ids : List String) (params : Bindings) : (skip : Nat) → List Char → List Char
  | _, [] => []
  | skip + 1, _ :: cs => substitute ids params skip cs
  | 0, c :: cs =>
    if c = '[' then
      match (tokenId? cs).filter ids.contains with
      | none => c :: substitute ids params 0 cs
      | some id =>
        match params.get? id with
        | none => c :: substitute ids params 0 cs
        | some value => value.literal.toList ++ substitute ids params (id.length + 1) cs
    else c :: substitute ids params 0 cs

/-- The query for the given values; it fails on the first placeholder that has none. -/
def resolve (c : Condition) (params : Bindings) : Except StoreError String :=
  if c.isEmpty then .ok matchAll
  else if c.placeholders.isEmpty then .ok c.query
  else
    match c.placeholders.find? fun id => !params.contains id with
    | some id => .error (.unboundPlaceholder id)
    | none => .ok (String.ofList (substitute c.placeholders params 0 c.query.toList))

end Condition

end SearchTable
