import SearchTable.Proofs.Condition.LateBinding
/-!
# The list of placeholders

Compiling collects the ids of placeholders part by part: each side of a connective has a list of its
own, and joining two parts adds the ids that only the second one has.  A side that is dropped and a
comparison without a query form contribute none.

What comes out is `Expression.slots`, the ids of the stream variables that are compared with a field
where boolean operators lead, read from left to right with each id at its first occurrence
(`placeholders_compile_eq`).  A compiled condition resolves exactly when all ids of that list have
values, and otherwise it names the first one that has none (`placeholders_exact`).
-/

namespace SearchTable

/-! ## First occurrences -/

section FirstOccurrences

variable {α : Type} [BEq α] [LawfulBEq α]

theorem nodup_eraseDups (xs : List α) : xs.eraseDups.Nodup := by
  match xs with
  | [] => simp
  | x :: xs =>
    rw [List.eraseDups_cons, List.nodup_cons]
    exact ⟨by simp, nodup_eraseDups (xs.filter fun y => !y == x)⟩
termination_by xs.length
decreasing_by exact Nat.lt_succ_of_le (List.length_filter_le _ _)

/-- Which elements are kept by a filter does not depend on how often they occur. -/
theorem eraseDups_filter (p : α → Bool) (xs : List α) :
    (xs.filter p).eraseDups = xs.eraseDups.filter p := by
  match xs with
  | [] => rfl
  | x :: xs =>
    have ih := eraseDups_filter p (xs.filter fun y => !y == x)
    rw [List.filter_filter] at ih
    rw [List.eraseDups_cons]
    by_cases hx : p x = true
    · rw [List.filter_cons_of_pos hx, List.filter_cons_of_pos hx, List.eraseDups_cons, ← ih,
        List.filter_filter]
      simp only [Bool.and_comm]
    · have hother : ∀ y ∈ xs, (p y && !y == x) = p y := fun y _ => by
        by_cases hy : y = x
        · simp [hy, hx]
        · simp [hy]
      rw [List.filter_cons_of_neg hx, List.filter_cons_of_neg hx, ← ih, List.filter_congr hother]
termination_by xs.length
decreasing_by exact Nat.lt_succ_of_le (List.length_filter_le _ _)

end FirstOccurrences

namespace Condition

open Expression

/-- Joining the first occurrences in two lists gives those in both lists together. -/
theorem joinIds_eraseDups (xs ys : List String) :
    Fragment.joinIds xs.eraseDups ys.eraseDups = (xs ++ ys).eraseDups := by
  have hsame : ∀ id, (!xs.eraseDups.contains id) = !xs.contains id := fun id => by
    simp [List.mem_eraseDups]
  rw [List.eraseDups_append, List.removeAll, eraseDups_filter, Fragment.joinIds]
  simp only [hsame, List.elem_eq_contains]

/-! ## Compiling -/

/-- The ids of joined sides are those of both; a side without a fragment has none. -/
theorem fragmentIds_joinSides {word : String} {f g : Option Fragment} {xs ys : List String}
    (hf : fragmentIds f = xs.eraseDups) (hg : fragmentIds g = ys.eraseDups) :
    fragmentIds (joinSides word f g) = (xs ++ ys).eraseDups := by
  have hjoin := joinIds_eraseDups xs ys
  rw [← hf, ← hg] at hjoin
  rw [← hjoin]
  cases f with
  | none => cases g <;> simp [fragmentIds, joinSides, Fragment.joinIds]
  | some f => cases g <;> simp [fragmentIds, joinSides, Fragment.joinIds, Fragment.join]

/-- A fragment lists the slots of its expression, each one once. -/
theorem fragmentIds_fragment? (e : Expression) :
    fragmentIds (fragment? e) = e.slots.eraseDups := by
  fun_induction fragment? e with
  | case1 l r ihl ihr | case2 l r ihl ihr =>
    rw [slots]
    exact fragmentIds_joinSides ihl ihr
  | case3 x ih =>
    rw [slots, ← ih]
    cases fragment? x <;> rfl
  | case4 op l r =>
    simp only [fragmentIds, Option.map_some, Option.getD_some, compileComparison_eq, slots]
    cases comparison? l r with
    | none => rfl
    | some parts =>
      obtain ⟨name, side, x⟩ := parts
      cases x <;> rfl
  | case5 name type => rfl
  | case6 e hand hor hnot hcompare _ =>
    cases e with
    | and l r => exact (hand l r rfl).elim
    | or l r => exact (hor l r rfl).elim
    | not x => exact (hnot x rfl).elim
    | compare op l r => exact (hcompare op l r rfl).elim
    | isNull | «variable» | isIn | constant | field | math | call => rfl

/-- The placeholders of a condition are the slots of its expression in the order of their first
occurrence. -/
theorem placeholders_compile_eq (e : Expression) :
    (compile e).placeholders = e.slots.eraseDups := by
  rw [placeholders_compile, fragmentIds_fragment?]

/-! ## Resolving -/

/-- Resolving fails exactly on the first placeholder without a value. -/
theorem resolve_compile_eq_error_iff {e : Expression} {b : Bindings} {err : StoreError} :
    (compile e).resolve b = .error err ↔
      ∃ id, (compile e).placeholders.find? (fun id => !b.contains id) = some id ∧
        err = .unboundPlaceholder id := by
  cases hf : fragment? e with
  | none =>
    rw [resolve_of_fragment?_none hf, placeholders_compile, hf]
    simp [fragmentIds]
  | some f =>
    obtain ⟨c, cs, htext, hc⟩ := exists_cons_of_fragment? e hf
    have hnotempty : (compile e).isEmpty = false := by
      simp [compile, hf, isEmpty, Text.isBlankText, htext, hc]
    simp only [resolve, hnotempty, Bool.false_eq_true, if_false]
    cases hids : (compile e).placeholders with
    | nil => simp
    | cons id ids =>
      cases (id :: ids).find? fun id => !b.contains id with
      | none => simp
      | some missing => simp [eq_comm]

/-- The placeholders of a condition are distinct, and they are the slots of its expression in the
order of their first occurrence.  Resolving fails exactly when one of them has no value, and the
error names the first one of these. -/
theorem placeholders_exact (e : Expression) :
    (compile e).placeholders = e.slots.eraseDups ∧ (compile e).placeholders.Nodup ∧
      ∀ b : Bindings,
        ((∃ err, (compile e).resolve b = .error err) ↔
          ∃ id ∈ (compile e).placeholders, b.contains id = false) ∧
        ∀ err, (compile e).resolve b = .error err →
          ∃ before id after, (compile e).placeholders = before ++ id :: after ∧
            (∀ other ∈ before, b.contains other = true) ∧ b.contains id = false ∧
            err = .unboundPlaceholder id := by
  refine ⟨placeholders_compile_eq e, ?_, fun b => ⟨?_, fun err herr => ?_⟩⟩
  · rw [placeholders_compile_eq]
    exact nodup_eraseDups _
  · simp only [resolve_compile_eq_error_iff]
    constructor
    · rintro ⟨_, id, hfind, -⟩
      exact ⟨id, List.mem_of_find?_eq_some hfind, by simpa using List.find?_some hfind⟩
    · rintro ⟨id, hid, hmissing⟩
      have hsome : ((compile e).placeholders.find? fun id => !b.contains id).isSome = true :=
        List.find?_isSome.2 ⟨id, hid, by simp [hmissing]⟩
      obtain ⟨first, hfirst⟩ := Option.isSome_iff_exists.1 hsome
      exact ⟨_, first, hfirst, rfl⟩
  · obtain ⟨id, hfind, herr⟩ := resolve_compile_eq_error_iff.1 herr
    obtain ⟨hmissing, before, after, hlist, hbefore⟩ := List.find?_eq_some_iff_append.1 hfind
    exact ⟨before, id, after, hlist, fun other hother => by simpa using hbefore other hother,
      by simpa using hmissing, herr⟩

end Condition

end SearchTable
