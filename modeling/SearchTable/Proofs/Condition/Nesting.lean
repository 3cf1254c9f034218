import SearchTable.Expression.Form
import SearchTable.Proofs.Condition.Meaning
import SearchTable.Proofs.Failure
/-!
# How deeply a notation nests

Two readers have a limit on nesting, and they do not count the same.  The reader of the JSON
notation counts objects: an operand stands one level below its operator, and a list of any length
is one level.  The query language counts operands around one another: a negation is two of them, a
clause has parentheses of its own, and a list is joined from the left in pairs, so that each operand
of it is one more level around those before it.

`Form.nesting` counts on the notation what the query language will count.  The expression of a
notation has the same count (`Expression.outline_of_toExpressionWithin`), so a condition that has
been read from JSON can be run exactly when it counts no more than the limit of the query language
(`Condition.parse_resolve_ofJsonText`).  A list of a hundred and thirty operands does, and so does a
missing value under sixty-three negations (`Condition.not_parse_resolve_negatedText`).

A comparison needs to know whether its operands are a field and a comparand, and a list of one
operand is that operand.  An `Outline` carries both along: the role of a condition as an operand,
and the levels of its query.
-/

namespace SearchTable

open Query Text

namespace Expression

/-! ## Outlines -/

/-- What an operand is to a comparison. -/
inductive Role where
  | field
  | comparand
  | other
  deriving DecidableEq, Repr

/-- What counts of a condition: its role as an operand of a comparison, and how many operands of its
query stand around one another, if it has a query. -/
structure Outline where
  role : Role
  levels : Option Nat
  deriving DecidableEq, Repr

namespace Outline

/-- A condition that is neither a field nor a comparand. -/
def ofLevels (levels : Option Nat) : Outline := ⟨.other, levels⟩

/-- Two conditions side by side; one without a query is dropped. -/
def join (l r : Outline) : Outline :=
  ofLevels (Option.merge (fun m n => max m n + 1) l.levels r.levels)

/-- A list of conditions, joined from the left.  One alone stands for itself. -/
def joinAll : List Outline → Outline
  | [] => ofLevels none
  | first :: others => others.foldl join first

/-- A negation is one operand, and so are the parentheses behind it. -/
def not (x : Outline) : Outline := ofLevels (x.levels.map (· + 2))

/-- A comparison of a field with a comparand is a clause in parentheses.  With a sign in front of
it, or without the right operands, it has one operand more. -/
def compare (op : Option Comparison) (l r : Outline) : Outline :=
  ofLevels <| some <|
    if op ≠ some .notEqual ∧
        (l.role = .field ∧ r.role = .comparand ∨ l.role = .comparand ∧ r.role = .field) then 2
    else 3

/-- The clause for a missing value asks for a field. -/
def isNull (x : Outline) : Outline := ofLevels (if x.role = .field then some 3 else none)

end Outline

/-- The role of an expression in a comparison. -/
def role : Expression → Role
  | field .. => .field
  | constant _ => .comparand
  | .variable _ => .comparand
  | _ => .other

/-- The outline of an expression. -/
def outline (e : Expression) : Outline := ⟨e.role, e.levels?⟩

namespace Form

mutual

/-- The outline of a notation. -/
def outline : Form → Outline
  | .and operands => .joinAll (outlineAll operands)
  | .or operands => .joinAll (outlineAll operands)
  | .not x => x.outline.not
  | .compare op l r => .compare (comparison op).toOption l.outline r.outline
  | .isNull x => x.outline.isNull
  | .isIn _ _ => .ofLevels none
  | .constant _ => ⟨.comparand, none⟩
  | .variable _ => ⟨.comparand, none⟩
  | .field _ => ⟨.field, none⟩
  | .math _ _ _ => .ofLevels none
  | .call _ _ _ => .ofLevels none

/-- The outlines of a list of notations. -/
def outlineAll : List Form → List Outline
  | [] => []
  | f :: fs => f.outline :: outlineAll fs

end

/-- How deeply the query for a notation is nested; the query for all documents is one operand. -/
def nesting (form : Form) : Nat := form.outline.levels.getD 1

theorem outlineAll_eq (forms : List Form) : outlineAll forms = forms.map outline := by
  induction forms with
  | nil => rfl
  | cons f fs ih => rw [outlineAll, ih, List.map_cons]

end Form

/-! ## Expressions of notations -/

theorem role_eq_field_iff {e : Expression} : e.role = .field ↔ e.fieldName?.isSome = true := by
  cases e <;> simp [role, fieldName?]

theorem role_eq_comparand_iff {e : Expression} :
    e.role = .comparand ↔ e.comparand?.isSome = true := by
  cases e <;> simp [role, comparand?]

/-- Operands are those of a comparison when one is a field and the other one a comparand. -/
theorem isSome_comparison? (l r : Expression) :
    (comparison? l r).isSome = true ↔
      l.role = .field ∧ r.role = .comparand ∨ l.role = .comparand ∧ r.role = .field := by
  simp only [role_eq_field_iff, role_eq_comparand_iff, comparison?]
  cases l.fieldName? <;> cases r.comparand? <;> cases r.fieldName? <;> cases l.comparand? <;> simp

theorem outline_compare (op : Comparison) (l r : Expression) :
    (compare op l r).outline = .compare (some op) l.outline r.outline := by
  refine congrArg Outline.ofLevels ?_
  show (compare op l r).levels? = some (if some op ≠ some .notEqual ∧
    (l.role = .field ∧ r.role = .comparand ∨ l.role = .comparand ∧ r.role = .field) then 2 else 3)
  rw [levels?]
  simp only [← isSome_comparison?]
  cases comparison? l r with
  | none => simp
  | some parts => by_cases hop : op = .notEqual <;> simp [hop]

theorem outline_isNull (x : Expression) : (isNull x).outline = x.outline.isNull := by
  cases x <;> rfl

/-- Operands that are joined from the left have the joined outline. -/
theorem outline_foldl {make : Expression → Expression → Expression}
    (hmake : ∀ l r, (make l r).outline = l.outline.join r.outline) (first : Expression)
    (others : List Expression) :
    (others.foldl make first).outline = (others.map outline).foldl Outline.join first.outline := by
  induction others generalizing first with
  | nil => rfl
  | cons x others ih => rw [List.foldl_cons, ih, hmake, List.map_cons, List.foldl_cons]

theorem outline_joinLeft {tag : String} {make : Expression → Expression → Expression}
    (hmake : ∀ l r, (make l r).outline = l.outline.join r.outline) {es : List Expression}
    {e : Expression} (h : Form.joinLeft tag make es = .ok e) :
    e.outline = .joinAll (es.map outline) := by
  cases es with
  | nil => cases h
  | cons first others =>
    obtain rfl := Except.ok.inj h
    exact outline_foldl hmake first others

/-- The expression of a notation has the outline of the notation. -/
theorem outline_of_toExpressionWithin {levels : Nat} {form : Form} {e : Expression}
    (h : form.toExpressionWithin levels = .ok e) : e.outline = form.outline := by
  induction levels generalizing form e with
  | zero => cases h
  | succ levels ih =>
    have hall : ∀ {forms : List Form} {es : List Expression},
        forms.mapM (Form.toExpressionWithin levels) = .ok es →
          es.map outline = Form.outlineAll forms := fun hes => by
      rw [Form.outlineAll_eq]
      exact map_eq_of_mapM (fun _ _ _ hb => ih hb) hes
    cases form with
    | and operands =>
      obtain ⟨es, hes, h⟩ := bind_eq_ok_iff.1 h
      rw [outline_joinLeft (fun _ _ => rfl) h, hall hes, Form.outline]
    | or operands =>
      obtain ⟨es, hes, h⟩ := bind_eq_ok_iff.1 h
      rw [outline_joinLeft (fun _ _ => rfl) h, hall hes, Form.outline]
    | not x =>
      obtain ⟨y, hy, h⟩ := bind_eq_ok_iff.1 h
      obtain rfl := Except.ok.inj h
      rw [Form.outline, ← ih hy]
      rfl
    | compare op l r =>
      obtain ⟨l', hl, h⟩ := bind_eq_ok_iff.1 h
      obtain ⟨op', hop, h⟩ := bind_eq_ok_iff.1 h
      obtain ⟨r', hr, h⟩ := bind_eq_ok_iff.1 h
      obtain rfl := Except.ok.inj h
      rw [outline_compare, Form.outline, ih hl, ih hr, hop]
      rfl
    | isNull x =>
      obtain ⟨y, hy, h⟩ := bind_eq_ok_iff.1 h
      obtain rfl := Except.ok.inj h
      rw [outline_isNull, Form.outline, ih hy]
    | isIn x source =>
      obtain ⟨y, -, h⟩ := bind_eq_ok_iff.1 h
      obtain rfl := Except.ok.inj h
      rfl
    | constant value =>
      obtain ⟨v, -, h⟩ := bind_eq_ok_iff.1 h
      obtain rfl := Except.ok.inj h
      rfl
    | «variable» id =>
      obtain ⟨id', -, h⟩ := bind_eq_ok_iff.1 h
      obtain rfl := Except.ok.inj h
      rfl
    | field reference =>
      cases reference with
      | name name =>
        obtain rfl := Except.ok.inj h
        rfl
      | typed name type =>
        obtain ⟨type', -, h⟩ := bind_eq_ok_iff.1 h
        obtain rfl := Except.ok.inj h
        rfl
    | math op l r =>
      obtain ⟨op', -, h⟩ := bind_eq_ok_iff.1 h
      obtain ⟨l', -, h⟩ := bind_eq_ok_iff.1 h
      obtain ⟨r', -, h⟩ := bind_eq_ok_iff.1 h
      obtain rfl := Except.ok.inj h
      rfl
    | call module name arguments =>
      obtain ⟨es, -, h⟩ := bind_eq_ok_iff.1 h
      obtain rfl := Except.ok.inj h
      rfl

end Expression

namespace Condition

open Expression

variable {e : Expression} {b : Bindings} {text : String}

/-! ## Conditions in JSON -/

/-- A condition that has been read from JSON always resolves when its placeholders have values, and
a text that is not too long is read exactly when the notation does not nest too deeply. -/
theorem parse_resolve_ofJsonText (hjson : ofJsonText text = .ok e) (b : Bindings)
    (hnames : ∀ name ∈ e.fields, IsPlainName name) (hids : ∀ id ∈ e.slotIds, IsPlainName id)
    (hbound : ∀ id ∈ (compile e).placeholders, b.contains id = true)
    (hranges : ∀ v ∈ e.rangeValues b, v.CanEndRange)
    (hopen : ∀ v ∈ e.constants, '[' ∉ v.plain.toList) :
    ∃ form query, Form.ofText? text = some form ∧ (compile e).resolve b = .ok query ∧
      (query.utf8ByteSize ≤ maxLength →
        ((∃ node, parse query = .ok node) ↔ form.nesting ≤ maxDepth)) := by
  obtain ⟨node, hresolve, hread, -⟩ := exists_readsAs_resolve hnames hids hbound hranges hopen
  rw [ofJsonText] at hjson
  cases hform : Form.ofText? text with
  | none => rw [hform] at hjson; cases hjson
  | some form =>
    rw [hform] at hjson
    have hnesting : form.nesting = e.nesting :=
      congrArg (·.levels.getD 1) (outline_of_toExpressionWithin hjson).symm
    refine ⟨form, _, rfl, hresolve, fun hlength => ⟨fun ⟨node', hparse⟩ => ?_, fun hlevels => ?_⟩⟩
    · by_contra hdeep
      rw [hnesting, not_le] at hdeep
      obtain ⟨position, herror⟩ := exists_parse_eq_error hread hlength hdeep
      rw [hparse] at herror
      cases herror
    · exact ⟨node, parse_eq_ok hread hlength (hnesting ▸ hlevels)⟩

theorem parse_resolve_limitText :
    let text := "\x7b\"$cmp\":[\"<=\",\x7b\"$field\":\"age\"\x7d,\x7b\"$param\":\"limit\"\x7d]\x7d"
    let e : Expression := .compare .lessEqual (.field "age" .string) (.variable "limit")
    let b : Bindings := .ofList [("limit", .int 30)]
    ofJsonText text = .ok e ∧ (∀ name ∈ e.fields, IsPlainName name) ∧
      (∀ id ∈ e.slotIds, IsPlainName id) ∧ (∀ id ∈ (compile e).placeholders, b.contains id = true) ∧
      (∀ v ∈ e.rangeValues b, v.CanEndRange) ∧ (∀ v ∈ e.constants, '[' ∉ v.plain.toList) ∧
      ∃ form query, Form.ofText? text = some form ∧ (compile e).resolve b = .ok query ∧
        (query.utf8ByteSize ≤ maxLength →
          ((∃ node, parse query = .ok node) ↔ form.nesting ≤ maxDepth)) := by
  intro text e b
  have hjson : ofJsonText text = .ok e := by cbv
  have hnames : ∀ name ∈ e.fields, IsPlainName name := by decide
  have hids : ∀ id ∈ e.slotIds, IsPlainName id := by decide
  have hbound : ∀ id ∈ (compile e).placeholders, b.contains id = true := by decide
  have hranges : ∀ v ∈ e.rangeValues b, v.CanEndRange := by
    simp only [e, Expression.rangeValues]
    decide
  have hopen : ∀ v ∈ e.constants, '[' ∉ v.plain.toList := by decide
  exact ⟨hjson, hnames, hids, hbound, hranges, hopen,
    parse_resolve_ofJsonText hjson b hnames hids hbound hranges hopen⟩

/-! ## Objects of one member -/

/-- Whether a character stands for itself between quotation marks. -/
def standsForItself (c : Char) : Bool := c != '"' && c != '\\' && 32 ≤ c.toNat

/-- An object of one member in JSON. -/
def memberChars (name : String) (body : List Char) : List Char :=
  '\x7b' :: '"' :: (name.toList ++ '"' :: ':' :: (body ++ ['\x7d']))

section Reading

variable {s : String} {fuel : Nat} {cs rest : List Char} {source : Json.Source}

theorem readPieces_append (hcs : ∀ c ∈ cs, standsForItself c = true) (rest : List Char) :
    Json.readPieces (cs ++ '"' :: rest) = some (cs.map .char, rest) := by
  induction cs with
  | nil => simp [Json.readPieces]
  | cons c cs ih =>
    rw [List.forall_mem_cons] at hcs
    have hc : c ≠ '"' ∧ c ≠ '\\' ∧ 32 ≤ c.toNat := by simpa [standsForItself, and_assoc] using hcs.1
    have hsound : ¬(c.toNat < 32 ∨ c = '\\') := by
      rintro (hlow | rfl)
      · exact absurd hc.2.2 (not_le.2 hlow)
      · exact hc.2.1 rfl
    rw [List.cons_append, Json.readPieces.eq_def]
    split <;> simp_all

theorem joinPieces_map_char (cs : List Char) : Json.joinPieces (cs.map .char) = some cs := by
  induction cs with
  | nil => rfl
  | cons c cs ih => rw [List.map_cons, Json.joinPieces, ih, Option.map_some]

theorem readText_append (hs : ∀ c ∈ s.toList, standsForItself c = true) (rest : List Char) :
    Json.readText (s.toList ++ '"' :: rest) = some (some s, rest) := by
  simp only [Json.readText, readPieces_append hs, joinPieces_map_char, Option.map_some,
    String.ofList_toList]

theorem readValue_text (hs : ∀ c ∈ s.toList, standsForItself c = true) (fuel : Nat)
    (rest : List Char) :
    Json.readValue (fuel + 1) ('"' :: (s.toList ++ '"' :: rest)) = some (.text (some s), rest) := by
  simp [Json.readValue, Json.skipSpace, Json.isSpace, readText_append hs]

/-- An object of one member is read when its value is. -/
theorem readValue_memberChars (hs : ∀ c ∈ s.toList, standsForItself c = true)
    (h : Json.readValue fuel (cs ++ '\x7d' :: rest) = some (source, '\x7d' :: rest)) :
    Json.readValue (fuel + 2) (memberChars s cs ++ rest) =
      some (.object [(some s, source)], rest) := by
  simp [memberChars, Json.readValue, Json.readMembers, Json.skipSpace, Json.isSpace,
    readText_append hs, h]

theorem length_memberChars (s : String) (cs : List Char) :
    (memberChars s cs).length = cs.length + s.length + 5 := by
  simp only [memberChars, List.length_cons, List.length_append, List.length_nil,
    String.length_toList]
  omega

end Reading

/-! ## Negations -/

/-- The notation of a missing value under a number of negations. -/
def negatedChars : Nat → List Char
  | 0 => memberChars "$is_null" (memberChars "$field" ('"' :: ("f".toList ++ ['"'])))
  | n + 1 => memberChars "$not" (negatedChars n)

/-- A missing value under a number of negations. -/
def negated : Nat → Expression
  | 0 => .isNull (.field "f" .string)
  | n + 1 => .not (negated n)

/-- The text of the notation. -/
def negatedText (n : Nat) : String := String.ofList (negatedChars n)

/-- The notation, taken apart by the grammar alone. -/
def negatedSource : Nat → Json.Source
  | 0 => .object [(some "$is_null", .object [(some "$field", .text (some "f"))])]
  | n + 1 => .object [(some "$not", negatedSource n)]

/-- The notation as it stands. -/
def negatedForm : Nat → Form
  | 0 => .isNull (.field (.name "f"))
  | n + 1 => .not (negatedForm n)

theorem le_length_negatedChars (n : Nat) : n + 2 ≤ (negatedChars n).length := by
  induction n with
  | zero =>
    rw [negatedChars, length_memberChars]
    omega
  | succ n ih =>
    rw [negatedChars, length_memberChars]
    omega

theorem readValue_negatedChars (n fuel : Nat) (rest : List Char) :
    Json.readValue (2 * n + (fuel + 5)) (negatedChars n ++ rest) =
      some (negatedSource n, rest) := by
  induction n generalizing rest with
  | zero =>
    have hfield : Json.readValue (fuel + 1)
        ('"' :: ("f".toList ++ ['"']) ++ '\x7d' :: '\x7d' :: rest) =
        some (.text (some "f"), '\x7d' :: '\x7d' :: rest) := by
      simpa using
        readValue_text (s := "f") (by simp [standsForItself]) fuel ('\x7d' :: '\x7d' :: rest)
    rw [Nat.mul_zero, Nat.zero_add]
    exact readValue_memberChars (by simp [standsForItself])
      (readValue_memberChars (by simp [standsForItself]) hfield)
  | succ n ih =>
    have hstep :=
      readValue_memberChars (s := "$not") (by simp [standsForItself]) (ih ('\x7d' :: rest))
    rwa [Nat.add_right_comm, ← Nat.mul_succ] at hstep

theorem ofSourceWithin_negatedSource (n depth : Nat) :
    Form.ofSourceWithin (n + (depth + 2)) (negatedSource n) = some (negatedForm n) := by
  induction n with
  | zero => rw [Nat.zero_add]; rfl
  | succ n ih =>
    rw [show n + 1 + (depth + 2) = n + (depth + 2) + 1 by omega]
    exact congrArg (Option.map Form.not) ih

theorem toExpressionWithin_negatedForm (n levels : Nat) :
    (negatedForm n).toExpressionWithin (n + (levels + 2)) = .ok (negated n) := by
  induction n with
  | zero => rw [Nat.zero_add]; rfl
  | succ n ih =>
    rw [show n + 1 + (levels + 2) = n + (levels + 2) + 1 by omega]
    exact bind_eq_ok_iff.2 ⟨negated n, ih, rfl⟩

/-- Sixty-three negations can be read from JSON. -/
theorem ofJsonText_negatedText {n : Nat} (hn : n ≤ 63) :
    ofJsonText (negatedText n) = .ok (negated n) := by
  obtain ⟨fuel, hfuel⟩ : ∃ fuel, 2 * (negatedChars n).length + 2 = 2 * n + (fuel + 5) :=
    ⟨2 * (negatedChars n).length - 2 * n - 3, by have := le_length_negatedChars n; omega⟩
  have hread := readValue_negatedChars n fuel []
  rw [List.append_nil] at hread
  have hsource : Json.Source.ofText? (negatedText n) = some (negatedSource n) := by
    simp only [Json.Source.ofText?, negatedText, String.toList_ofList, hfuel, hread]
    rfl
  have hform : Form.ofText? (negatedText n) = some (negatedForm n) := by
    rw [Form.ofText?, hsource]
    have hdepth : Json.maxDepth = n + (125 - n + 2) := by
      rw [Json.maxDepth]
      omega
    rw [hdepth]
    exact ofSourceWithin_negatedSource n _
  have hlevels : Form.maxDepth + 1 = n + (63 - n + 2) := by
    rw [Form.maxDepth]
    omega
  rw [ofJsonText, hform]
  show (negatedForm n).toExpressionWithin (Form.maxDepth + 1) = _
  rw [hlevels, toExpressionWithin_negatedForm]

theorem levels?_negated (n : Nat) : (negated n).levels? = some (2 * n + 3) := by
  induction n with
  | zero => rfl
  | succ n ih =>
    rw [negated, levels?, ih, Option.map_some]
    exact congrArg some (by omega)

theorem bind_negated (n : Nat) (b : Bindings) : (negated n).bind b = negated n := by
  induction n with
  | zero => rfl
  | succ n ih => rw [negated, Expression.bind, ih]

/-- Every negation makes the query longer by a word and two parentheses. -/
theorem exists_fragment?_negated (n : Nat) :
    ∃ f, fragment? (negated n) = some f ∧ f.placeholders = [] ∧
      (String.ofList f.text).utf8ByteSize = 6 * n + 21 := by
  induction n with
  | zero => exact ⟨_, rfl, rfl, by decide +kernel⟩
  | succ n ih =>
    obtain ⟨f, hf, hplaceholders, hsize⟩ := ih
    refine ⟨f.wrap "NOT (" ")", by rw [negated, fragment?, hf]; rfl, hplaceholders, ?_⟩
    have hwrap : String.ofList (f.wrap "NOT (" ")").text =
        "NOT (" ++ String.ofList f.text ++ ")" := by
      rw [Fragment.wrap, String.ofList_append, String.ofList_append, String.ofList_toList,
        String.ofList_toList]
    have hopen : "NOT (".utf8ByteSize = 5 := by decide
    have hclose : ")".utf8ByteSize = 1 := by decide
    rw [hwrap, String.utf8ByteSize_append, String.utf8ByteSize_append, hsize, hopen, hclose]
    omega

/-- A missing value under sixty-three negations can be read from JSON, and it cannot be run. -/
theorem not_parse_resolve_negatedText :
    ∃ e query, ofJsonText (negatedText 63) = .ok e ∧ (∀ name ∈ e.fields, IsPlainName name) ∧
      e.slotIds = [] ∧ (compile e).placeholders = [] ∧ e.constants = [] ∧
      e.rangeValues .empty = [] ∧ (compile e).resolve .empty = .ok query ∧
      query.utf8ByteSize ≤ maxLength ∧ ∀ node, parse query ≠ .ok node := by
  obtain ⟨f, hf, hplaceholders, hsize⟩ := exists_fragment?_negated 63
  have hnames : ∀ name ∈ (negated 63).fields, IsPlainName name := by decide
  have hids : (negated 63).slotIds = [] := by decide
  have hconstants : (negated 63).constants = [] := by decide
  have hranges : (negated 63).rangeValues .empty = [] := by decide
  have hnone : (compile (negated 63)).placeholders = [] := by
    rw [compile, hf]
    exact hplaceholders
  obtain ⟨node, hresolve, hread, -⟩ := exists_readsAs_resolve (b := .empty) hnames (by simp [hids])
    (by simp [hnone]) (by simp [hranges]) (by simp [hconstants])
  have hlength : (String.ofList f.text).utf8ByteSize ≤ maxLength := by
    rw [hsize]
    decide
  rw [bind_negated, hf] at hresolve hread
  have hdeep : maxDepth < (negated 63).nesting := by
    rw [nesting, levels?_negated]
    decide
  obtain ⟨position, herror⟩ := exists_parse_eq_error hread hlength hdeep
  refine ⟨negated 63, _, ofJsonText_negatedText le_rfl, hnames, hids, hnone, hconstants, hranges,
    hresolve, hlength, fun node' hparse => ?_⟩
  have hboth := herror.symm.trans hparse
  cases hboth

end Condition

end SearchTable
