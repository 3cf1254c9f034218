import SearchTable.Proofs.Condition.LateBinding
import SearchTable.Proofs.Query.Clauses
/-!
# The meaning of compiled conditions

A condition has a direct reading on documents (`Expression.reading`): boolean operators combine the
readings of their sides, a side without a reading is dropped, and a comparison holds of a document
when a value of the field compares with the plain text as the table of comparisons asks for
(`Comparison.holdsOf`).  Compiling, resolving, reading the text and evaluating the query gives the
same answer on every document, unless the text is too long or nested too deeply
(`parse_resolve_compile`).

Two things have to be kept out of the text.  The ends of ranges may not be empty or a star, which
the query language reads as something else (`Expression.rangeValues`), and no constant may capture
a placeholder (`Expression.captures`); in a condition with stream variables it is enough that no
constant holds an opening bracket.
-/

namespace SearchTable

open Query Text

/-! ## The direct reading -/

namespace Comparison

open Condition

/-- Some value of a field compares with a text as accepted. -/
def someValue (d : Document) (field text : String) (accepted : Ordering → Bool) : Bool :=
  (fieldValues d field).any fun stored => (compareLiteral stored text).any accepted

/-- Whether a comparison with a field on the given side holds of a document.  With the field on the
right the bound is included where it is excluded with the field on the left. -/
def holdsOf (op : Comparison) (side : Side) (d : Document) (field text : String) : Bool :=
  match op, side with
  | equal, _ => someValue d field text Ordering.isEq
  | notEqual, _ => !someValue d field text Ordering.isEq
  | less, .left => someValue d field text Ordering.isLT
  | lessEqual, .left => someValue d field text Ordering.isLE
  | greater, .left => someValue d field text Ordering.isGT
  | greaterEqual, .left => someValue d field text Ordering.isGE
  | less, .right => someValue d field text Ordering.isGE
  | lessEqual, .right => someValue d field text Ordering.isGT
  | greater, .right => someValue d field text Ordering.isLE
  | greaterEqual, .right => someValue d field text Ordering.isLT

/-- Whether a comparison asks for more than equality, so that its clause is a range. -/
def isRange : Comparison → Bool
  | equal | notEqual => false
  | _ => true

end Comparison

/-- The value of a clause stands at the lower end of a range. -/
def Condition.Shape.isLower : Condition.Shape → Bool
  | lower _ => true
  | _ => false

/-- The plain text of a value is neither empty nor the star that leaves a range open. -/
def Value.CanEndRange (v : Value) : Prop := v.plain ≠ "" ∧ v.plain ≠ "*"

instance (v : Value) : Decidable v.CanEndRange :=
  inferInstanceAs (Decidable (_ ∧ _))

namespace Expression

/-- The direct reading of a condition on a document; what has no query form has none. -/
def reading (b : Bindings) (d : Document) : Expression → Option Bool
  | and l r => Option.merge (· && ·) (l.reading b d) (r.reading b d)
  | or l r => Option.merge (· || ·) (l.reading b d) (r.reading b d)
  | not x => (x.reading b d).map (!·)
  | compare op l r =>
    match comparison? l r with
    | some (name, side, x) => some ((x.value? b).any fun v => op.holdsOf side d name v.plain)
    | none => some false
  | isNull (field name _) => some (fieldValues d name).isEmpty
  | _ => none

/-- The values that stand at the ends of ranges. -/
def rangeValues (b : Bindings) : Expression → List Value
  | and l r => l.rangeValues b ++ r.rangeValues b
  | or l r => l.rangeValues b ++ r.rangeValues b
  | not x => x.rangeValues b
  | compare op l r =>
    match comparison? l r with
    | some (_, _, x) => if op.isRange then (x.value? b).toList else []
    | none => []
  | _ => []

/-- The values that stand at the lower ends of ranges. -/
def lowerEnds (b : Bindings) : Expression → List Value
  | and l r => l.lowerEnds b ++ r.lowerEnds b
  | or l r => l.lowerEnds b ++ r.lowerEnds b
  | not x => x.lowerEnds b
  | compare op l r =>
    match comparison? l r with
    | some (_, side, x) => if (Condition.shapeOf op side).isLower then (x.value? b).toList else []
    | none => []
  | _ => []

/-- How many operands of the query stand around one another, if there is a query. -/
def levels? : Expression → Option Nat
  | and l r => Option.merge (fun m n => max m n + 1) l.levels? r.levels?
  | or l r => Option.merge (fun m n => max m n + 1) l.levels? r.levels?
  | not x => x.levels?.map (· + 2)
  | compare op l r =>
    match comparison? l r with
    | some _ => some (if op = .notEqual then 3 else 2)
    | none => some 3
  | isNull (field _ _) => some 3
  | _ => none

/-- How deeply the query for a condition is nested; the query for all documents is one operand. -/
def nesting (e : Expression) : Nat := e.levels?.getD 1

end Expression

namespace Condition

open Expression

/-! ## Clauses -/

/-- The query that a clause denotes. -/
def clauseNode (shape : Shape) (field value : String) : Node :=
  match shape with
  | .upper inclusive => .range field none (some value) inclusive inclusive
  | .lower inclusive => .range field (some value) none inclusive inclusive
  | .equal => .term field value
  | .notEqual => .not (.term field value)

/-- A clause is one operand, and a negated one is two. -/
def Shape.levels : Shape → Nat
  | notEqual => 2
  | _ => 1

/-- The value of a clause is the end of a range. -/
def Shape.isRange : Shape → Bool
  | upper _ | lower _ => true
  | _ => false

theorem isRange_shapeOf (op : Comparison) (side : Side) :
    (shapeOf op side).isRange = op.isRange := by
  cases op <;> cases side <;> rfl

theorem Shape.isRange_of_isLower {shape : Shape} (h : shape.isLower = true) :
    shape.isRange = true := by
  cases shape with
  | lower => rfl
  | upper | equal | notEqual => simp [Shape.isLower] at h

theorem lowerEnds_subset (b : Bindings) (e : Expression) : e.lowerEnds b ⊆ e.rangeValues b := by
  match e with
  | .and l r | .or l r =>
    simp only [lowerEnds, rangeValues]
    exact List.append_subset.2 ⟨List.subset_append_of_subset_left _ (lowerEnds_subset b l),
      List.subset_append_of_subset_right _ (lowerEnds_subset b r)⟩
  | .not x => exact lowerEnds_subset b x
  | .compare op l r =>
    simp only [lowerEnds, rangeValues]
    cases comparison? l r with
    | none => simp
    | some parts =>
      obtain ⟨name, side, x⟩ := parts
      cases hlower : (shapeOf op side).isLower with
      | false => simp [hlower]
      | true =>
        have hrange : op.isRange = true := by
          rw [← isRange_shapeOf op side]
          exact Shape.isRange_of_isLower hlower
        simp [hlower, hrange]
  | .isNull .. | .isIn .. | .constant .. | .variable .. | .field .. | .math .. | .call .. =>
    simp [lowerEnds]

theorem levels_shapeOf (op : Comparison) (side : Side) :
    (shapeOf op side).levels = if op = .notEqual then 2 else 1 := by
  cases op <;> cases side <;> rfl

/-- How a stored value has to compare with the value of a clause; of a negated clause no value of the
field may compare so. -/
def Shape.accepts : Shape → Ordering → Bool
  | upper inclusive => if inclusive then Ordering.isLE else Ordering.isLT
  | lower inclusive => if inclusive then Ordering.isGE else Ordering.isGT
  | equal | notEqual => Ordering.isEq

/-- A clause that is not negated holds when some value of the field compares as it has to. -/
theorem holds_accepts {shape : Shape} (h : shape ≠ .notEqual) (d : Document)
    (field text : String) :
    (clauseNode shape field text).holds d = Comparison.someValue d field text shape.accepts := by
  cases shape with
  | notEqual => exact absurd rfl h
  | equal =>
    rw [clauseNode, Node.holds, Comparison.someValue]
    congr 1
    funext stored
    cases compareLiteral stored text with
    | none => rfl
    | some o => cases o <;> rfl
  | upper inclusive | lower inclusive =>
    rw [clauseNode, Node.holds, Comparison.someValue]
    congr 1
    funext stored
    simp only [aboveLower, belowUpper, Bool.true_and, Bool.and_true]
    cases compareLiteral stored text with
    | none => rfl
    | some o => cases inclusive <;> cases o <;> rfl

/-- The query of a clause holds as the comparison does. -/
theorem holds_clauseNode (op : Comparison) (side : Side) (d : Document) (field text : String) :
    (clauseNode (shapeOf op side) field text).holds d = op.holdsOf side d field text := by
  cases op with
  | notEqual =>
    have hequal := holds_accepts (show Shape.equal ≠ .notEqual by simp) d field text
    cases side <;> exact congrArg (!·) hequal
  | _ => cases side <;> exact holds_accepts (by simp [shapeOf]) d field text

/-- The shape of a clause whose value stands at the lower end of a range, or else at the upper
one. -/
def openShape (lower inclusive : Bool) : Shape :=
  bif lower then .lower inclusive else .upper inclusive

/-- The range with the given lower end, or else with the given upper one, and the other end open. -/
def openRange (lower : Bool) (field : String) (limit : Option String) (inclusive : Bool) : Node :=
  bif lower then .range field limit none inclusive inclusive
  else .range field none limit inclusive inclusive

/-- A range with one end is read with the text that the literal spells, a star apart, if there is
something at its lower end. -/
theorem readsAs_openRange {name : String} (hname : IsPlainName name) {l s : List Char}
    (h : Spells Passes l s) (lower inclusive : Bool) (hne : lower = true → l ≠ []) :
    ReadsAs (renderChars (openShape lower inclusive) name.toList l) 1
      (openRange lower name (rangeEnd s) inclusive) := by
  have hopen : rangeEnd ['*'] = none := rfl
  cases lower with
  | false =>
    have hread := readsAs_range hname spells_star h (by simp) inclusive inclusive
    rw [hopen] at hread
    simpa [renderChars, openShape, openRange, openBracket, closeBracket] using hread
  | true =>
    have hread := readsAs_range hname h spells_star (hne rfl) inclusive inclusive
    rw [hopen] at hread
    simpa [renderChars, openShape, openRange, openBracket, closeBracket] using hread

theorem spells_plain (v : Value) : Spells Passes v.literal.toList v.plain.toList :=
  v.spells_literal.mono fun _ => passes_of_bareInLiteral

theorem literal_ne_nil {v : Value} (h : v.plain ≠ "") : v.literal.toList ≠ [] := by
  rw [Ne, (spells_plain v).eq_nil_iff]
  simpa using h

theorem rangeEnd_toList {s : String} (h : s ≠ "*") : rangeEnd s.toList = some s := by
  have hne : s.toList ≠ ['*'] := fun heq => h (by rw [← String.ofList_toList (s := s), heq])
  rw [rangeEnd_of_ne hne, String.ofList_toList]

/-- A clause is read as its query.  At the end of a range the star is read as something else, and
at the lower end the empty text is too. -/
theorem readsAs_clause {name : String} (hname : IsPlainName name) (shape : Shape) (v : Value)
    (hstar : shape.isRange = true → v.plain ≠ "*")
    (hempty : shape.isLower = true → v.plain ≠ "") :
    ReadsAs (renderChars shape name.toList v.literal.toList) shape.levels
      (clauseNode shape name v.plain) := by
  have hspells := spells_plain v
  have hterm := readsAs_term hname hspells
  rw [String.ofList_toList] at hterm
  cases shape with
  | equal => simpa [renderChars, clauseNode, Shape.levels] using hterm
  | notEqual =>
    simpa [renderChars, clauseNode, Shape.levels] using hterm.sign (c := '!') (.inr rfl)
  | upper inclusive =>
    have hread := readsAs_openRange hname hspells false inclusive (by simp)
    rwa [rangeEnd_toList (hstar rfl)] at hread
  | lower inclusive =>
    have hne := literal_ne_nil (hempty rfl)
    have hread := readsAs_openRange hname hspells true inclusive fun _ => hne
    rwa [rangeEnd_toList (hstar rfl)] at hread

/-- The clause for a comparison without a query form holds of no document. -/
theorem readsAs_matchNone : ReadsAs matchNone.toList 3 (.and [.not .all, .all]) :=
  (readsAs_all.sign (c := '-') (.inl rfl)).groupTwo joins_and readsAs_all

/-- The clause for a missing value. -/
theorem readsAs_null {name : String} (hname : IsPlainName name) :
    ReadsAs ("(-".toList ++ name.toList ++ ":[* TO *] AND *:*)".toList) 3
      (.and [.not (.range name none none true true), .all]) := by
  have hclause := readsAs_range hname spells_star spells_star (by simp) true true
  have hstar : rangeEnd ['*'] = none := rfl
  rw [hstar] at hclause
  simpa using (hclause.sign (c := '-') (.inl rfl)).groupTwo joins_and readsAs_all

/-! ## Fragments -/

/-- The text of a fragment is read as a query with the given nesting, and the query holds of each
document as the reading does; without a fragment there is neither. -/
inductive Means : Option Fragment → Option Nat → (Document → Option Bool) → Prop
  | untranslated : Means none none fun _ => none
  | translated {f : Fragment} {levels : Nat} {node : Node} {truth : Document → Bool}
      (hread : ReadsAs f.text levels node) (htruth : ∀ d, node.holds d = truth d) :
      Means (some f) (some levels) fun d => some (truth d)

variable {f g : Option Fragment} {m n : Option Nat} {p q : Document → Option Bool}

/-- Joined fragments mean what the connective makes of their meanings; a missing side is dropped. -/
theorem Means.join {word : String} {make : List Node → Node} {connective : Bool → Bool → Bool}
    (hjoins : Joins word.toList make)
    (hmake : ∀ n n' d, (make [n, n']).holds d = connective (n.holds d) (n'.holds d))
    (h : Means f m p) (h' : Means g n q) :
    Means (joinSides word f g) (Option.merge (fun m n => max m n + 1) m n)
      fun d => Option.merge connective (p d) (q d) := by
  cases h with
  | untranslated =>
    cases h' with
    | untranslated => exact .untranslated
    | translated hread htruth => exact .translated hread htruth
  | translated hread htruth =>
    cases h' with
    | untranslated => exact .translated hread htruth
    | translated hread' htruth' =>
      refine .translated (hread.groupTwo hjoins hread') fun d => ?_
      rw [hmake, htruth, htruth']

theorem Means.and (h : Means f m p) (h' : Means g n q) :
    Means (joinSides " AND " f g) (Option.merge (fun m n => max m n + 1) m n)
      fun d => Option.merge (· && ·) (p d) (q d) :=
  h.join joins_and (fun n n' d => by simp [Node.holds, allHold]) h'

theorem Means.or (h : Means f m p) (h' : Means g n q) :
    Means (joinSides " OR " f g) (Option.merge (fun m n => max m n + 1) m n)
      fun d => Option.merge (· || ·) (p d) (q d) :=
  h.join joins_or (fun n n' d => by simp [Node.holds, someHolds]) h'

theorem Means.not (h : Means f m p) :
    Means (f.map fun f => f.wrap "NOT (" ")") (m.map (· + 2)) fun d => (p d).map (!·) := by
  cases h with
  | untranslated => exact .untranslated
  | translated hread htruth =>
    exact .translated hread.group.not fun d => congrArg (!·) (htruth d)

/-- A comparison with its value in place means what its direct reading says. -/
theorem means_compare (b : Bindings) (op : Comparison) (l r : Expression)
    (hnames : ∀ name ∈ l.fields ++ r.fields, IsPlainName name)
    (hbound : ∀ id ∈ (Expression.compare op l r).slots, ∃ v, b.get? id = some v)
    (hstars : ∀ v ∈ (Expression.compare op l r).rangeValues b, v.plain ≠ "*")
    (hempty : ∀ v ∈ (Expression.compare op l r).lowerEnds b, v.plain ≠ "") :
    Means (some (compileComparison op (l.bind b) (r.bind b))) (Expression.compare op l r).levels?
      fun d => (Expression.compare op l r).reading b d := by
  simp only [slots, rangeValues, lowerEnds, levels?, reading, compileComparison_eq,
    comparison?_bind] at *
  cases hparts : comparison? l r with
  | none => exact .translated readsAs_matchNone fun d => by simp [Node.holds, allHold]
  | some parts =>
    obtain ⟨name, side, x⟩ := parts
    have hname : IsPlainName name := hnames name (mem_fields_of_comparison? hparts)
    obtain ⟨v, hv⟩ : ∃ v, x.value? b = some v := by
      cases x with
      | constant v => exact ⟨v, rfl⟩
      | slot id => exact hbound id (by simp [hparts, Comparand.slots])
    have hstar : (shapeOf op side).isRange = true → v.plain ≠ "*" := by
      intro h
      rw [isRange_shapeOf] at h
      exact hstars v (by simp [hparts, h, hv])
    have hlower : (shapeOf op side).isLower = true → v.plain ≠ "" := fun h =>
      hempty v (by simp [hparts, h, hv])
    have hread := (readsAs_clause hname (shapeOf op side) v hstar hlower).group
    have hlevels : (shapeOf op side).levels + 1 = if op = .notEqual then 3 else 2 := by
      rw [levels_shapeOf]
      split <;> rfl
    rw [hlevels] at hread
    simp only [Option.map_some, Comparand.bind_of_value? hv, Comparand.text, hv, Option.any_some]
    exact .translated hread fun d => holds_clauseNode op side d name v.plain

/-- The fragment of an expression, with its values in place, means what the direct reading says,
unless a range has a star at an end or nothing at the lower one. -/
theorem means_fragment?_of_ends (b : Bindings) (e : Expression)
    (hnames : ∀ name ∈ e.fields, IsPlainName name)
    (hbound : ∀ id ∈ e.slots, ∃ v, b.get? id = some v)
    (hstars : ∀ v ∈ e.rangeValues b, v.plain ≠ "*")
    (hempty : ∀ v ∈ e.lowerEnds b, v.plain ≠ "") :
    Means (fragment? (e.bind b)) e.levels? fun d => e.reading b d := by
  match e with
  | .and l r =>
    simp only [fields, slots, rangeValues, lowerEnds, List.forall_mem_append] at *
    exact (means_fragment?_of_ends b l hnames.1 hbound.1 hstars.1 hempty.1).and
      (means_fragment?_of_ends b r hnames.2 hbound.2 hstars.2 hempty.2)
  | .or l r =>
    simp only [fields, slots, rangeValues, lowerEnds, List.forall_mem_append] at *
    exact (means_fragment?_of_ends b l hnames.1 hbound.1 hstars.1 hempty.1).or
      (means_fragment?_of_ends b r hnames.2 hbound.2 hstars.2 hempty.2)
  | .not x => exact (means_fragment?_of_ends b x hnames hbound hstars hempty).not
  | .compare op l r => exact means_compare b op l r hnames hbound hstars hempty
  | .isNull (.field name type) =>
    refine .translated (readsAs_null (hnames name (by simp [fields]))) fun d => ?_
    simp only [Node.holds, allHold, aboveLower, belowUpper]
    cases fieldValues d name <;> rfl
  | .isNull (.variable id) =>
    have hnone := fragment?_isNull_bind b (x := .variable id) (by simp)
    rw [Expression.bind, hnone]
    exact .untranslated
  | .variable id =>
    rw [fragment?_variable_bind]
    exact .untranslated
  | .isNull (.and ..) | .isNull (.or ..) | .isNull (.not ..) | .isNull (.compare ..)
  | .isNull (.isNull ..) | .isNull (.isIn ..) | .isNull (.constant ..) | .isNull (.math ..)
  | .isNull (.call ..) | .isIn .. | .constant .. | .field .. | .math .. | .call .. =>
    exact .untranslated

/-- The fragment of an expression, with its values in place, means what the direct reading says. -/
theorem means_fragment? (b : Bindings) (e : Expression)
    (hnames : ∀ name ∈ e.fields, IsPlainName name)
    (hbound : ∀ id ∈ e.slots, ∃ v, b.get? id = some v)
    (hranges : ∀ v ∈ e.rangeValues b, v.CanEndRange) :
    Means (fragment? (e.bind b)) e.levels? fun d => e.reading b d :=
  means_fragment?_of_ends b e hnames hbound (fun v hv => (hranges v hv).2)
    fun v hv => (hranges v (lowerEnds_subset b e hv)).1

/-! ## Conditions -/

/-- The query text of a fragment; without one it asks for everything. -/
def queryText (f : Option Fragment) : List Char := (f.map Fragment.text).getD matchAll.toList

theorem Means.exists_node (h : Means f m p) :
    ∃ node, ReadsAs (queryText f) (m.getD 1) node ∧ ∀ d, node.holds d = (p d).getD true := by
  cases h with
  | untranslated => exact ⟨.all, readsAs_all, fun _ => rfl⟩
  | @translated f levels node truth hread htruth => exact ⟨node, hread, htruth⟩

/-- When nothing is captured, resolving gives the text with the values in place. -/
theorem resolve_of_bound {e : Expression} {b : Bindings} {early : Option Fragment}
    (h : Bound (compile e).placeholders b false (fragment? e) early)
    (hbound : ∀ id ∈ (compile e).placeholders, b.contains id = true) :
    (compile e).resolve b = .ok (String.ofList (queryText early)) := by
  rw [placeholders_compile] at h hbound
  generalize hlate : fragment? e = late at h hbound
  cases h with
  | untranslated => rw [resolve_of_fragment?_none hlate, queryText]; rfl
  | @translated _ f g hrewrites _ =>
    have hrest := hrewrites []
    simp only [List.append_nil, substitute] at hrest
    rw [resolve_of_fragment? hlate hbound]
    exact congrArg (fun cs => Except.ok (String.ofList cs)) hrest

/-- When the placeholders have values, so have the slots of the expression. -/
theorem exists_get?_of_slots {e : Expression} {b : Bindings}
    (hbound : ∀ id ∈ (compile e).placeholders, b.contains id = true) :
    ∀ id ∈ e.slots, ∃ v, b.get? id = some v := fun id hid => by
  rw [placeholders_compile] at hbound
  exact Option.isSome_iff_exists.1 (hbound id ((mem_fragmentIds e id).2 hid))

/-- When no constant captures a placeholder, resolving gives the text of the fragment with the
values in place. -/
theorem resolve_of_captures {e : Expression} {b : Bindings}
    (hnames : ∀ name ∈ e.fields, IsPlainName name) (hids : ∀ id ∈ e.slotIds, IsPlainName id)
    (hbound : ∀ id ∈ (compile e).placeholders, b.contains id = true)
    (hfree : e.captures (compile e).placeholders = false) :
    (compile e).resolve b = .ok (String.ofList (queryText (fragment? (e.bind b)))) := by
  have hslots : ∀ id, id ∈ (compile e).placeholders ↔ id ∈ e.slots := fun id => by
    rw [placeholders_compile]
    exact mem_fragmentIds e id
  have hplain : ∀ id ∈ (compile e).placeholders, IsPlainName id := fun id hid =>
    hids id (e.slots_subset ((hslots id).1 hid))
  have hvalues : ∀ id ∈ (compile e).placeholders, ∃ v, b.get? id = some v := fun id hid =>
    Option.isSome_iff_exists.1 (hbound id hid)
  have hbind := bound_fragment? hplain hvalues e hnames fun id hid => (hslots id).2 hid
  rw [hfree] at hbind
  exact resolve_of_bound hbind hbound

/-- Without stream variables, or without an opening bracket in a constant, nothing is captured. -/
theorem captures_eq_false {ids : List String} (e : Expression)
    (h : ids = [] ∨ ∀ v ∈ e.constants, '[' ∉ v.plain.toList) : e.captures ids = false := by
  match e with
  | .and l r | .or l r =>
    simp only [constants, List.forall_mem_append] at h
    rw [captures, captures_eq_false l (h.imp id And.left), captures_eq_false r (h.imp id And.right)]
    rfl
  | .not x => exact captures_eq_false x h
  | .compare op l r =>
    rw [captures]
    cases hparts : comparison? l r with
    | none => rfl
    | some parts =>
      obtain ⟨name, side, x⟩ := parts
      have hends : x.endsInToken ids = false := by
        cases x with
        | slot id => rfl
        | constant v =>
          obtain rfl | h := h
          · rfl
          · have hopen : '[' ∉ v.plain.toList := h v (constant_mem_of_comparison? hparts)
            simp only [Comparand.endsInToken, List.any_eq_false, List.isSuffixOf_iff_suffix]
            exact fun id _ hsuffix => hopen (hsuffix.subset (by simp))
      simp [hends]
  | .isNull .. | .isIn .. | .constant .. | .variable .. | .field .. | .math .. | .call .. => rfl

/-- When no constant holds an opening bracket, the text of a condition with its values in place is
read as one operand, and that holds as the direct reading does. -/
theorem exists_readsAs_resolve {e : Expression} {b : Bindings}
    (hnames : ∀ name ∈ e.fields, IsPlainName name) (hids : ∀ id ∈ e.slotIds, IsPlainName id)
    (hbound : ∀ id ∈ (compile e).placeholders, b.contains id = true)
    (hranges : ∀ v ∈ e.rangeValues b, v.CanEndRange)
    (hopen : ∀ v ∈ e.constants, '[' ∉ v.plain.toList) :
    ∃ node, (compile e).resolve b = .ok (String.ofList (queryText (fragment? (e.bind b)))) ∧
      ReadsAs (queryText (fragment? (e.bind b))) e.nesting node ∧
      ∀ d, node.holds d = (e.reading b d).getD true := by
  obtain ⟨node, hread, htruth⟩ :=
    (means_fragment? b e hnames (exists_get?_of_slots hbound) hranges).exists_node
  exact ⟨node, resolve_of_captures hnames hids hbound (captures_eq_false e (.inr hopen)), hread,
    htruth⟩

/-- A compiled condition always resolves when its placeholders have values.  Reading the text gives
a query, unless the text is too long or nested too deeply, and the query holds of a document exactly
when the condition does by its direct reading; a condition without a reading holds of every
document. -/
theorem parse_resolve_compile (e : Expression) (b : Bindings)
    (hnames : ∀ name ∈ e.fields, IsPlainName name) (hids : ∀ id ∈ e.slotIds, IsPlainName id)
    (hbound : ∀ id ∈ (compile e).placeholders, b.contains id = true)
    (hranges : ∀ v ∈ e.rangeValues b, v.CanEndRange)
    (hopen : e.slotIds ≠ [] → ∀ v ∈ e.constants, '[' ∉ v.plain.toList) :
    ∃ text, (compile e).resolve b = .ok text ∧
      (maxLength < text.utf8ByteSize ∧ parse text = .error (.compile (.query .tooLong)) ∨
        text.utf8ByteSize ≤ maxLength ∧ maxDepth < e.nesting ∧
          (∃ position, parse text =
            .error (.compile (.query (.syntaxFault position .nestedTooDeeply)))) ∨
        text.utf8ByteSize ≤ maxLength ∧ e.nesting ≤ maxDepth ∧
          ∃ node, parse text = .ok node ∧ ∀ d, node.holds d = (e.reading b d).getD true) := by
  have hfree : e.captures (compile e).placeholders = false := by
    refine captures_eq_false e ?_
    by_cases hnone : e.slotIds = []
    · refine .inl (List.eq_nil_iff_forall_not_mem.2 fun id hid => ?_)
      rw [placeholders_compile] at hid
      have hmem : id ∈ e.slotIds := e.slots_subset ((mem_fragmentIds e id).1 hid)
      simp [hnone] at hmem
    · exact .inr (hopen hnone)
  have hmeans := means_fragment? b e hnames (exists_get?_of_slots hbound) hranges
  obtain ⟨node, hread, htruth⟩ := hmeans.exists_node
  refine ⟨_, resolve_of_captures hnames hids hbound hfree, ?_⟩
  by_cases hlength : maxLength < (String.ofList (queryText (fragment? (e.bind b)))).utf8ByteSize
  · exact .inl ⟨hlength, by simp [parse, hlength]⟩
  · by_cases hdeep : maxDepth < e.nesting
    · exact .inr (.inl ⟨not_lt.1 hlength, hdeep,
        exists_parse_eq_error hread (not_lt.1 hlength) hdeep⟩)
    · exact .inr (.inr ⟨not_lt.1 hlength, not_lt.1 hdeep, node,
        parse_eq_ok hread (not_lt.1 hlength) (not_lt.1 hdeep), htruth⟩)

/-- A condition on two fields, one of which may not be missing. -/
def boundedCondition : Expression :=
  .and (.compare .lessEqual (.field "age" .int) (.variable "limit"))
    (.not (.isNull (.field "name" .string)))

theorem parse_resolve_boundedCondition :
    let e := boundedCondition
    let b : Bindings := .ofList [("limit", .int 30)]
    (∀ name ∈ e.fields, IsPlainName name) ∧ (∀ id ∈ e.slotIds, IsPlainName id) ∧
      (∀ id ∈ (compile e).placeholders, b.contains id = true) ∧
      (∀ v ∈ e.rangeValues b, v.CanEndRange) ∧
      (e.slotIds ≠ [] → ∀ v ∈ e.constants, '[' ∉ v.plain.toList) ∧
      ∃ text, (compile e).resolve b = .ok text ∧
        (maxLength < text.utf8ByteSize ∧ parse text = .error (.compile (.query .tooLong)) ∨
          text.utf8ByteSize ≤ maxLength ∧ maxDepth < e.nesting ∧
            (∃ position, parse text =
              .error (.compile (.query (.syntaxFault position .nestedTooDeeply)))) ∨
          text.utf8ByteSize ≤ maxLength ∧ e.nesting ≤ maxDepth ∧
            ∃ node, parse text = .ok node ∧ ∀ d, node.holds d = (e.reading b d).getD true) := by
  have hnames : ∀ name ∈ boundedCondition.fields, IsPlainName name := by decide
  have hids : ∀ id ∈ boundedCondition.slotIds, IsPlainName id := by decide
  have hbound : ∀ id ∈ (compile boundedCondition).placeholders,
      (Dictionary.ofList [("limit", Value.int 30)] : Bindings).contains id = true := by decide
  have hranges : ∀ v ∈ boundedCondition.rangeValues (.ofList [("limit", .int 30)]),
      v.CanEndRange := by
    simp only [boundedCondition, Expression.rangeValues]
    decide
  have hopen : boundedCondition.slotIds ≠ [] →
      ∀ v ∈ boundedCondition.constants, '[' ∉ v.plain.toList := by decide
  exact ⟨hnames, hids, hbound, hranges, hopen,
    parse_resolve_compile _ _ hnames hids hbound hranges hopen⟩

end Condition

end SearchTable
