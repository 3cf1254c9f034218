import SearchTable.Proofs.Condition.Unreadable
/-!
# Malformed comparisons

A comparison is malformed when its operands are not one field and one comparand.  It has no truth
value of its own, and the compiler puts a clause in its place that holds of no document.  What is
asked of such a query is that it selects a document only if the condition holds of it however the
malformed comparisons come out.

A clause that holds of no document is the safe choice in most places, but not under an odd number of
negations, where it stands for the opposite.  `Expression.satisfies` gives a condition a truth value
for every assignment of truth values to the malformed comparisons, each known by its `Place`.  A
condition changes with an assignment in the direction that the number of negations tells
(`satisfies_mono`), so a query selects a document exactly when the condition holds under all
assignments that make the malformed comparisons under an odd number of negations false
(`holds_iff_forall_satisfies`).
-/

namespace SearchTable

open Query Text

/-! ## Places -/

/-- A step from a condition to a part of it. -/
inductive Turn where
  | left
  | right
  | under
  deriving DecidableEq, Repr

/-- Where a part of a condition stands, from the outside in. -/
abbrev Place := List Turn

/-- Whether an odd number of negations stands around a place. -/
def Place.isNegated : Place → Bool
  | [] => false
  | .under :: p => !Place.isNegated p
  | .left :: p => Place.isNegated p
  | .right :: p => Place.isNegated p

namespace Expression

/-- The condition is put together from comparisons and tests of fields for missing values. -/
def isComparisonTree : Expression → Bool
  | and l r => l.isComparisonTree && r.isComparisonTree
  | or l r => l.isComparisonTree && r.isComparisonTree
  | not x => x.isComparisonTree
  | compare .. => true
  | isNull (field ..) => true
  | _ => false

/-- The places of the malformed comparisons. -/
def malformed : Expression → List Place
  | and l r => l.malformed.map (.left :: ·) ++ r.malformed.map (.right :: ·)
  | or l r => l.malformed.map (.left :: ·) ++ r.malformed.map (.right :: ·)
  | not x => x.malformed.map (.under :: ·)
  | compare _ l r => if (comparison? l r).isNone then [[]] else []
  | _ => []

/-- Whether a document satisfies a condition when the malformed comparison at each place has the
assigned truth value. -/
def satisfies (b : Bindings) (d : Document) : Expression → (Place → Bool) → Bool
  | and l r, σ =>
    l.satisfies b d (fun p => σ (.left :: p)) && r.satisfies b d (fun p => σ (.right :: p))
  | or l r, σ =>
    l.satisfies b d (fun p => σ (.left :: p)) || r.satisfies b d (fun p => σ (.right :: p))
  | not x, σ => !x.satisfies b d fun p => σ (.under :: p)
  | compare op l r, σ =>
    match comparison? l r with
    | some (name, side, x) => (x.value? b).any fun v => op.holdsOf side d name v.plain
    | none => σ []
  | isNull (field name _), _ => (fieldValues d name).isEmpty
  | _, _ => false

/-! ## Assignments -/

/-- From one assignment to another, malformed comparisons become true at most where no negation
counts, and false at most where one does. -/
def Favours (e : Expression) (σ τ : Place → Bool) : Prop :=
  ∀ p ∈ e.malformed, if Place.isNegated p then τ p ≤ σ p else σ p ≤ τ p

section Favours

variable {l r : Expression} {σ τ : Place → Bool}

theorem Favours.left_of_and (h : (and l r).Favours σ τ) :
    l.Favours (fun p => σ (.left :: p)) (fun p => τ (.left :: p)) := fun p hp =>
  h (.left :: p) (List.mem_append_left _ (List.mem_map_of_mem hp))

theorem Favours.right_of_and (h : (and l r).Favours σ τ) :
    r.Favours (fun p => σ (.right :: p)) (fun p => τ (.right :: p)) := fun p hp =>
  h (.right :: p) (List.mem_append_right _ (List.mem_map_of_mem hp))

/-- Under a negation the two assignments change their parts. -/
theorem Favours.of_not {x : Expression} (h : (not x).Favours σ τ) :
    x.Favours (fun p => τ (.under :: p)) (fun p => σ (.under :: p)) := fun p hp => by
  have hunder := h (.under :: p) (List.mem_map_of_mem hp)
  simp only [Place.isNegated] at hunder
  cases hneg : Place.isNegated p <;> simpa [hneg] using hunder

end Favours

/-- A condition that is satisfied stays so under an assignment that favours it. -/
theorem satisfies_mono {b : Bindings} {d : Document} (e : Expression) {σ τ : Place → Bool}
    (h : e.Favours σ τ) : e.satisfies b d σ ≤ e.satisfies b d τ := by
  match e with
  | and l r =>
    exact inf_le_inf (satisfies_mono l h.left_of_and) (satisfies_mono r h.right_of_and)
  | or l r =>
    -- A disjunction has its malformed comparisons where a conjunction has them.
    have h : (and l r).Favours σ τ := h
    exact sup_le_sup (satisfies_mono l h.left_of_and) (satisfies_mono r h.right_of_and)
  | not x => exact compl_le_compl (satisfies_mono x h.of_not)
  | compare op l r =>
    simp only [satisfies]
    cases hparts : comparison? l r with
    | none => exact h [] (by simp [malformed, hparts])
    | some parts => exact le_rfl
  | isNull (field ..) => exact le_rfl
  | isNull (.and ..) | isNull (.or ..) | isNull (.not ..) | isNull (.compare ..)
  | isNull (.isNull ..) | isNull (.isIn ..) | isNull (.constant ..) | isNull (.math ..)
  | isNull (.call ..) | isNull (.variable _) | isIn .. | constant .. | .variable _ | field ..
  | math .. | call .. => exact le_rfl

/-- A condition holds with all malformed comparisons false exactly when it holds however those come
out around which no negation counts. -/
theorem satisfies_false_iff (b : Bindings) (d : Document) (e : Expression) :
    e.satisfies b d (fun _ => false) = true ↔
      ∀ σ : Place → Bool, (∀ p ∈ e.malformed, Place.isNegated p = true → σ p = false) →
        e.satisfies b d σ = true := by
  constructor
  · intro hfalse σ hσ
    have hfavours : e.Favours (fun _ => false) σ := fun p hp => by
      cases hneg : Place.isNegated p with
      | false => simp
      | true => simp [hσ p hp hneg]
    exact satisfies_mono e hfavours hfalse
  · exact fun h => h _ fun _ _ _ => rfl

/-- The direct reading takes the malformed comparisons for false. -/
theorem reading_eq (b : Bindings) (d : Document) (e : Expression) (h : e.isComparisonTree = true) :
    e.reading b d = some (e.satisfies b d fun _ => false) := by
  match e with
  | and l r =>
    simp only [isComparisonTree, Bool.and_eq_true] at h
    simp [reading, satisfies, reading_eq b d l h.1, reading_eq b d r h.2]
  | or l r =>
    simp only [isComparisonTree, Bool.and_eq_true] at h
    simp [reading, satisfies, reading_eq b d l h.1, reading_eq b d r h.2]
  | not x => simp [reading, satisfies, reading_eq b d x h]
  | compare op l r =>
    simp only [reading, satisfies]
    cases comparison? l r <;> rfl
  | isNull (field ..) => rfl
  | isNull (.and ..) | isNull (.or ..) | isNull (.not ..) | isNull (.compare ..)
  | isNull (.isNull ..) | isNull (.isIn ..) | isNull (.constant ..) | isNull (.math ..)
  | isNull (.call ..) | isNull (.variable _) | isIn .. | constant .. | .variable _ | field ..
  | math .. | call .. => simp [isComparisonTree] at h

end Expression

namespace Condition

open Expression

/-! ## What a query selects -/

/-- A query selects a document exactly when the condition holds of it under every assignment that
makes the malformed comparisons under an odd number of negations false.  Without such comparisons it
selects a document only if the condition holds however the malformed ones come out. -/
theorem holds_iff_forall_satisfies (e : Expression) (b : Bindings)
    (htree : e.isComparisonTree = true)
    (hnames : ∀ name ∈ e.fields, IsPlainName name) (hids : ∀ id ∈ e.slotIds, IsPlainName id)
    (hbound : ∀ id ∈ (compile e).placeholders, b.contains id = true)
    (hfree : e.captures (compile e).placeholders = false)
    (hstars : ∀ v ∈ e.rangeValues b, v.plain ≠ "*") :
    ∃ text, (compile e).resolve b = .ok text ∧
      ∀ node, parse text = .ok node → ∀ d,
        (node.holds d = true ↔
          ∀ σ : Place → Bool, (∀ p ∈ e.malformed, Place.isNegated p = true → σ p = false) →
            e.satisfies b d σ = true) ∧
        ((∀ p ∈ e.malformed, Place.isNegated p = false) → node.holds d = true →
          ∀ σ : Place → Bool, e.satisfies b d σ = true) := by
  obtain ⟨text, htext, hholds⟩ := holds_of_parse_resolve e b hnames hids hbound hfree hstars
  refine ⟨text, htext, fun node hnode d => ?_⟩
  have hiff : node.holds d = true ↔
      ∀ σ : Place → Bool, (∀ p ∈ e.malformed, Place.isNegated p = true → σ p = false) →
        e.satisfies b d σ = true := by
    rw [hholds node hnode d, reading_eq b d e htree, Option.getD_some]
    exact satisfies_false_iff b d e
  refine ⟨hiff, fun hnone hd σ => hiff.1 hd σ fun p hp hneg => ?_⟩
  exact absurd hneg (by simp [hnone p hp])

/-- A comparison of two fields under two negations, beside one with a stream variable. -/
def twiceNegated : Expression :=
  .or (.compare .lessEqual (.field "f" .string) (.variable "p0"))
    (.not (.not (.compare .equal (.field "g" .string) (.field "h" .string))))

/-- Two negations cancel, and the query selects a document that satisfies the other comparison. -/
theorem holds_iff_twiceNegated :
    let e := twiceNegated
    let b : Bindings := .ofList [("p0", .text "x")]
    let text := "((f:[* TO x]) OR NOT (NOT ((-*:* AND *:*))))"
    let node : Node :=
      .or [.range "f" none (some "x") true true, .not (.not (.and [.not .all, .all]))]
    e.isComparisonTree = true ∧ (∀ name ∈ e.fields, IsPlainName name) ∧
      (∀ id ∈ e.slotIds, IsPlainName id) ∧
      (∀ id ∈ (compile e).placeholders, b.contains id = true) ∧
      e.captures (compile e).placeholders = false ∧ (∀ v ∈ e.rangeValues b, v.plain ≠ "*") ∧
      (∀ p ∈ e.malformed, Place.isNegated p = false) ∧
      (compile e).resolve b = .ok text ∧ parse text = .ok node ∧
      node.holds (.ofList [("f", .text "a")]) = true ∧
      ∀ d, (node.holds d = true ↔
          ∀ σ : Place → Bool, (∀ p ∈ e.malformed, Place.isNegated p = true → σ p = false) →
            e.satisfies b d σ = true) ∧
        ((∀ p ∈ e.malformed, Place.isNegated p = false) → node.holds d = true →
          ∀ σ : Place → Bool, e.satisfies b d σ = true) := by
  have htree : twiceNegated.isComparisonTree = true := by decide
  have hnames : ∀ name ∈ twiceNegated.fields, IsPlainName name := by decide
  have hids : ∀ id ∈ twiceNegated.slotIds, IsPlainName id := by decide
  have hbound : ∀ id ∈ (compile twiceNegated).placeholders,
      (Dictionary.ofList [("p0", Value.text "x")] : Bindings).contains id = true := by decide
  have hfree : twiceNegated.captures (compile twiceNegated).placeholders = false := by decide
  have hstars : ∀ v ∈ twiceNegated.rangeValues (.ofList [("p0", .text "x")]), v.plain ≠ "*" := by
    decide
  have hparse : parse "((f:[* TO x]) OR NOT (NOT ((-*:* AND *:*))))" =
      .ok (.or [.range "f" none (some "x") true true, .not (.not (.and [.not .all, .all]))]) := by
    cbv
  obtain ⟨text, htext, h⟩ :=
    holds_iff_forall_satisfies _ _ htree hnames hids hbound hfree hstars
  have hresolve : (compile twiceNegated).resolve (.ofList [("p0", .text "x")]) =
      .ok "((f:[* TO x]) OR NOT (NOT ((-*:* AND *:*))))" := rfl
  obtain rfl : _ = text := Except.ok.inj (hresolve.symm.trans htext)
  exact ⟨htree, hnames, hids, hbound, hfree, hstars, by decide, hresolve, hparse, by decide,
    h _ hparse⟩

/-- A comparison of two fields under one negation. -/
def onceNegated : Expression :=
  .not (.compare .equal (.field "f" .string) (.field "g" .string))

/-- Under one negation the clause that holds of no document selects a document with equal fields, of
which the condition is false when the malformed comparison is true. -/
theorem holds_onceNegated :
    let e := onceNegated
    let text := "NOT ((-*:* AND *:*))"
    let node : Node := .not (.and [.not .all, .all])
    let d : Document := .ofList [("f", .text "x"), ("g", .text "x")]
    e.isComparisonTree = true ∧ (∀ name ∈ e.fields, IsPlainName name) ∧ e.slotIds = [] ∧
      (compile e).placeholders = [] ∧ (compile e).resolve .empty = .ok text ∧
      parse text = .ok node ∧ node.holds d = true ∧
      e.satisfies .empty d (fun _ => true) = false := by
  have hparse : parse "NOT ((-*:* AND *:*))" = .ok (.not (.and [.not .all, .all])) := by cbv
  exact ⟨by decide, by decide, rfl, rfl, rfl, hparse, by decide, by decide⟩

end Condition

end SearchTable
