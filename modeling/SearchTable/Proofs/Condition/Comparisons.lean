import Mathlib
import SearchTable.Condition.Basic
/-!
# The parts of a comparison

A comparison has a query form when one of its operands is a field and the other one a *comparand*,
a constant or a stream variable.  `Expression.comparison?` takes a comparison apart into the field,
its side and the comparand; every later notion about compiled comparisons is defined from it.

Replacing stream variables by the constants of their values (`Expression.bind`) changes nothing but
the comparands.
-/

namespace SearchTable

/-! ## Comparands -/

/-- What a field is compared with: a constant, or the slot of a stream variable. -/
inductive Comparand where
  | constant (value : Value)
  | slot (id : String)
  deriving DecidableEq, Repr

namespace Comparand

/-- The value of a comparand, if it has one. -/
def value? (b : Bindings) : Comparand → Option Value
  | constant v => some v
  | slot id => b.get? id

/-- The comparand with the constant of its value in place of a slot; a slot without a value is
kept. -/
def bind (b : Bindings) (x : Comparand) : Comparand := ((x.value? b).map constant).getD x

/-- The id of a slot. -/
def slots : Comparand → List String
  | constant _ => []
  | slot id => [id]

/-- The text of a comparand in a compiled condition. -/
def text : Comparand → List Char
  | constant v => v.literal.toList
  | slot id => '[' :: id.toList ++ [']']

theorem bind_of_value? {b : Bindings} {x : Comparand} {v : Value} (h : x.value? b = some v) :
    x.bind b = constant v := by
  simp [bind, h]

end Comparand

namespace Expression

/-- The name of the field that an expression is. -/
def fieldName? : Expression → Option String
  | field name _ => some name
  | _ => none

/-- The comparand that an expression is. -/
def comparand? : Expression → Option Comparand
  | constant v => some (.constant v)
  | .variable id => some (.slot id)
  | _ => none

/-- The field of a comparison, the side on which it stands, and what it is compared with; nothing
when the operands are not one field and one comparand. -/
def comparison? (l r : Expression) : Option (String × Condition.Side × Comparand) :=
  match l.fieldName?, r.comparand? with
  | some name, some x => some (name, .left, x)
  | _, _ =>
    match r.fieldName?, l.comparand? with
    | some name, some x => some (name, .right, x)
    | _, _ => none

/-! ## Stream variables and constants -/

mutual

/-- The ids of the slots in an expression, from left to right, with repetitions. -/
def slotIds : Expression → List String
  | and l r => l.slotIds ++ r.slotIds
  | or l r => l.slotIds ++ r.slotIds
  | not x => x.slotIds
  | compare _ l r => l.slotIds ++ r.slotIds
  | isNull x => x.slotIds
  | isIn x _ => x.slotIds
  | constant _ => []
  | .variable id => [id]
  | field _ _ => []
  | math _ l r => l.slotIds ++ r.slotIds
  | call _ _ arguments => slotIdsOfAll arguments

/-- The ids of the slots in a list of expressions. -/
def slotIdsOfAll : List Expression → List String
  | [] => []
  | x :: xs => x.slotIds ++ slotIdsOfAll xs

end

mutual

/-- The constants in an expression, from left to right. -/
def constants : Expression → List Value
  | and l r => l.constants ++ r.constants
  | or l r => l.constants ++ r.constants
  | not x => x.constants
  | compare _ l r => l.constants ++ r.constants
  | isNull x => x.constants
  | isIn x _ => x.constants
  | constant v => [v]
  | .variable _ => []
  | field _ _ => []
  | math _ l r => l.constants ++ r.constants
  | call _ _ arguments => constantsOfAll arguments

/-- The constants in a list of expressions. -/
def constantsOfAll : List Expression → List Value
  | [] => []
  | x :: xs => x.constants ++ constantsOfAll xs

end

mutual

/-- The expression with the constants of their values in place of its stream variables; a variable
without a value is kept. -/
def bind (b : Bindings) : Expression → Expression
  | and l r => and (l.bind b) (r.bind b)
  | or l r => or (l.bind b) (r.bind b)
  | not x => not (x.bind b)
  | compare op l r => compare op (l.bind b) (r.bind b)
  | isNull x => isNull (x.bind b)
  | isIn x source => isIn (x.bind b) source
  | constant v => constant v
  | .variable id => ((b.get? id).map constant).getD (.variable id)
  | field name type => field name type
  | math op l r => math op (l.bind b) (r.bind b)
  | call module name arguments => call module name (bindAll b arguments)

/-- The expressions with constants in place of their stream variables. -/
def bindAll (b : Bindings) : List Expression → List Expression
  | [] => []
  | x :: xs => x.bind b :: bindAll b xs

end

/-- The ids of the stream variables that stand in comparisons with a query form, where these are
reached through boolean operators only. -/
def slots : Expression → List String
  | and l r => l.slots ++ r.slots
  | or l r => l.slots ++ r.slots
  | not x => x.slots
  | compare _ l r =>
    match comparison? l r with
    | some (_, _, x) => x.slots
    | none => []
  | _ => []

/-! ## Comparisons and their parts -/

theorem fieldName?_bind (b : Bindings) (x : Expression) : (x.bind b).fieldName? = x.fieldName? := by
  match x with
  | .variable id => cases h : b.get? id <;> simp [bind, fieldName?, h]
  | and .. | or .. | not .. | compare .. | isNull .. | isIn .. | constant .. | field .. | math ..
  | call .. => simp [bind, fieldName?]

theorem comparand?_bind (b : Bindings) (x : Expression) :
    (x.bind b).comparand? = x.comparand?.map (Comparand.bind b) := by
  match x with
  | .variable id =>
    cases h : b.get? id <;> simp [bind, comparand?, Comparand.bind, Comparand.value?, h]
  | and .. | or .. | not .. | compare .. | isNull .. | isIn .. | constant .. | field .. | math ..
  | call .. => simp [bind, comparand?, Comparand.bind, Comparand.value?]

/-- Putting constants in place of slots changes nothing but the comparand. -/
theorem comparison?_bind (b : Bindings) (l r : Expression) :
    comparison? (l.bind b) (r.bind b) =
      (comparison? l r).map fun (name, side, x) => (name, side, x.bind b) := by
  simp only [comparison?, fieldName?_bind, comparand?_bind]
  cases l.fieldName? <;> cases r.comparand? <;> cases r.fieldName? <;> cases l.comparand? <;> rfl

theorem comparison?_eq_some {l r : Expression} {name : String} {side : Condition.Side}
    {x : Comparand} (h : comparison? l r = some (name, side, x)) :
    (l.fieldName? = some name ∧ r.comparand? = some x) ∨
      (r.fieldName? = some name ∧ l.comparand? = some x) := by
  simp only [comparison?] at h
  split at h
  · rename_i hl hr
    obtain ⟨rfl, -, rfl⟩ : _ = name ∧ _ ∧ _ = x := by simpa using h
    exact .inl ⟨hl, hr⟩
  · split at h
    · rename_i hr hl
      obtain ⟨rfl, -, rfl⟩ : _ = name ∧ _ ∧ _ = x := by simpa using h
      exact .inr ⟨hr, hl⟩
    · simp at h

theorem fields_of_fieldName? {x : Expression} {name : String} (h : x.fieldName? = some name) :
    x.fields = [name] := by
  match x with
  | field .. =>
    obtain rfl := Option.some.inj h
    rfl

theorem slotIds_of_comparand? {x : Expression} {c : Comparand} (h : x.comparand? = some c) :
    x.slotIds = c.slots := by
  match x with
  | constant _ =>
    obtain rfl := Option.some.inj h
    rfl
  | .variable _ =>
    obtain rfl := Option.some.inj h
    rfl

theorem constant_mem_of_comparand? {x : Expression} {v : Value}
    (h : x.comparand? = some (.constant v)) : v ∈ x.constants := by
  match x with
  | constant _ =>
    obtain rfl := Comparand.constant.inj (Option.some.inj h)
    exact List.mem_singleton_self _

theorem mem_fields_of_comparison? {l r : Expression} {name : String} {side : Condition.Side}
    {x : Comparand} (h : comparison? l r = some (name, side, x)) : name ∈ l.fields ++ r.fields := by
  obtain ⟨hl, -⟩ | ⟨hr, -⟩ := comparison?_eq_some h
  · simp [fields_of_fieldName? hl]
  · simp [fields_of_fieldName? hr]

theorem slots_subset_of_comparison? {l r : Expression} {name : String} {side : Condition.Side}
    {x : Comparand} (h : comparison? l r = some (name, side, x)) :
    x.slots ⊆ l.slotIds ++ r.slotIds := by
  obtain ⟨-, hr⟩ | ⟨-, hl⟩ := comparison?_eq_some h
  · simp [slotIds_of_comparand? hr]
  · simp [slotIds_of_comparand? hl]

theorem constant_mem_of_comparison? {l r : Expression} {name : String} {side : Condition.Side}
    {v : Value} (h : comparison? l r = some (name, side, .constant v)) :
    v ∈ l.constants ++ r.constants := by
  obtain ⟨-, hr⟩ | ⟨-, hl⟩ := comparison?_eq_some h
  · exact List.mem_append_right _ (constant_mem_of_comparand? hr)
  · exact List.mem_append_left _ (constant_mem_of_comparand? hl)

/-- The slots in comparisons with a query form are slots of the expression. -/
theorem slots_subset (e : Expression) : e.slots ⊆ e.slotIds := by
  match e with
  | and l r | or l r =>
    simp only [slots, slotIds]
    exact List.append_subset.2 ⟨List.subset_append_of_subset_left _ l.slots_subset,
      List.subset_append_of_subset_right _ r.slots_subset⟩
  | not x => exact x.slots_subset
  | compare op l r =>
    simp only [slots, slotIds]
    cases h : comparison? l r with
    | none => simp
    | some parts => exact slots_subset_of_comparison? h
  | isNull .. | isIn .. | constant .. | .variable .. | field .. | math .. | call .. => simp [slots]

end Expression

namespace Condition

open Expression

/-- A comparison is compiled from its parts; without them it matches nothing. -/
theorem compileComparison_eq (op : Comparison) (l r : Expression) :
    compileComparison op l r =
      match comparison? l r with
      | some (name, side, x) =>
        ⟨'(' :: renderChars (shapeOf op side) name.toList x.text ++ [')'], x.slots⟩
      | none => ⟨matchNone.toList, []⟩ := by
  cases l <;> cases r <;> rfl

end Condition

end SearchTable
