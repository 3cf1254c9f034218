import SearchTable.Proofs.Query.Operands
/-!
# What reading makes of clauses and of whole texts

A clause with a plain field name is read as one operand: a quoted literal as a term
(`readsAs_term`), two ends between brackets as a range (`readsAs_range`), and `*:*` as the query
that asks for every document (`readsAs_all`).

An end of a range that is empty would move the keyword to its place, and a bare `*` leaves the end
open.  The latter also happens to an escaped `*`, because the reader drops the backslash before it
looks at the text (`rangeEnd_of_ne`).

`parse_eq_ok` and `exists_parse_eq_error` turn the property of an operand into the answer for a
whole text.
-/

namespace SearchTable.Text

theorem Spells.mono {bare bare' : Char → Prop} (hbare : ∀ c, bare c → bare' c) {l s : List Char}
    (h : Spells bare l s) : Spells bare' l s := by
  induction h with
  | nil => exact .nil
  | self hc _ ih => exact .self (hbare _ hc) ih
  | escaped hc _ ih => exact .escaped hc ih

end SearchTable.Text

namespace SearchTable.Query

open Text

/-! ## Texts between delimiters -/

/-- A character that no reader of a name or a value stops at. -/
def Passes (c : Char) : Prop :=
  c ≠ '\\' ∧ c ≠ '"' ∧ endsField c = false ∧ endsUpper c = false

theorem passes_of_bareInLiteral {c : Char} (h : BareInLiteral c) : Passes c := by
  have hblank : isBlank c = false := by
    obtain h | rfl := h
    · rw [needsEscape, Bool.or_eq_false_iff] at h
      exact h.2
    · decide
  have hne : ∀ d, needsEscape d = true → d ≠ '-' → c ≠ d := fun _ => h.ne
  refine ⟨hne _ (by decide) (by decide), hne _ (by decide) (by decide), ?_, ?_⟩
  · simp [endsField, hblank, hne ':' (by decide) (by decide), hne '(' (by decide) (by decide),
      hne ')' (by decide) (by decide)]
  · simp [endsUpper, hblank, hne ']' (by decide) (by decide), hne '}' (by decide) (by decide)]

theorem passes_of_isWordChar {c : Char} (h : isWordChar c = true) : Passes c :=
  passes_of_bareInLiteral (.inl (needsEscape_eq_false_of_isWordChar h))

theorem passes_star : Passes '*' := by
  refine ⟨?_, ?_, ?_, ?_⟩ <;> decide

theorem Passes.isBlank_eq {c : Char} (h : Passes c) : isBlank c = false := by
  have hends := h.2.2.1
  simp only [endsField, Bool.or_eq_false_iff] at hends
  exact hends.1.1.2

/-- A literal does not start with a blank. -/
theorem skipBlank_spells {l s : List Char} (h : Spells Passes l s) {rest : List Char}
    (hrest : skipBlank rest = rest) : skipBlank (l ++ rest) = l ++ rest := by
  cases h with
  | nil => exact hrest
  | self hc _ => exact skipBlank_cons hc.isBlank_eq _
  | escaped => exact skipBlank_cons (by decide) _

/-! ## Terms -/

theorem readQuoted_spells {l s : List Char} (h : Spells Passes l s) (field rest : List Char) :
    readQuoted field (l ++ '"' :: rest) =
      .ok (.term (String.ofList field) (String.ofList s), rest) := by
  have hrun : readUntil (· == '"') (l ++ '"' :: rest) = (s, '"' :: rest) :=
    readUntil_spells (fun c hc => ⟨hc.1, by simpa using hc.2.1⟩) h (by simp)
  have hclose : expect '"' ('"' :: rest) = .ok rest := by
    simp [expect, skipBlank_cons (show isBlank '"' = false by decide)]
  simp only [readQuoted, hrun, hclose, bind, Except.bind]

/-! ## Ranges -/

theorem rangeEnd_of_ne {s : List Char} (h : s ≠ ['*']) : rangeEnd s = some (String.ofList s) :=
  if_neg h

/-- The ends of a range, and the brackets that include or exclude them. -/
theorem readRange_spells {lower upper s t : List Char} (hlower : Spells Passes lower s)
    (hupper : Spells Passes upper t) (hne : lower ≠ []) (field : List Char)
    (inclusive inclusive' : Bool) (rest : List Char) :
    readRange field inclusive
        (lower ++ " TO ".toList ++ upper ++ (if inclusive' then ']' else '}') :: rest) =
      .ok (.range (String.ofList field) (rangeEnd s) (rangeEnd t) inclusive inclusive', rest) := by
  generalize hclose : (if inclusive' then ']' else '}') = close
  have hends : close ≠ '\\' ∧ endsUpper close = true ∧ isBlank close = false := by
    cases inclusive' <;> subst hclose <;> decide
  have hskip : skipBlank (lower ++ (" TO ".toList ++ (upper ++ close :: rest))) =
      lower ++ (" TO ".toList ++ (upper ++ close :: rest)) := by
    cases hlower with
    | nil => exact absurd rfl hne
    | self hc _ => exact skipBlank_cons hc.isBlank_eq _
    | escaped => exact skipBlank_cons (by decide) _
  have hfirst : readUntil isBlank (lower ++ (" TO ".toList ++ (upper ++ close :: rest))) =
      (s, " TO ".toList ++ (upper ++ close :: rest)) := by
    refine readUntil_spells (fun c hc => ⟨hc.1, hc.isBlank_eq⟩) hlower fun c hc => ?_
    obtain rfl : ' ' = c := Option.some.inj hc
    decide
  have hword : skipBlank (" TO ".toList ++ (upper ++ close :: rest)) =
      "TO ".toList ++ (upper ++ close :: rest) :=
    (skipBlank_blank _).trans (skipBlank_cons (by decide) _)
  have hbehind : skipBlank (' ' :: (upper ++ close :: rest)) = upper ++ close :: rest := by
    rw [skipBlank_blank, skipBlank_spells hupper (skipBlank_cons hends.2.2 rest)]
  have hsecond : readUntil endsUpper (upper ++ close :: rest) = (t, close :: rest) :=
    readUntil_spells (fun c hc => ⟨hc.1, hc.2.2.2⟩) hupper (by simpa using ⟨hends.1, hends.2.1⟩)
  have hkeyword := keyword_to (upper ++ close :: rest)
  simp only [readRange, List.append_assoc, hskip, hfirst, hword, hkeyword, hbehind, hsecond,
    skipBlank_cons hends.2.2]
  cases inclusive' <;> subst hclose <;> rfl

/-! ## Clauses -/

/-- A plain field name is read up to its colon. -/
theorem readUntil_name {name : List Char} (hname : ∀ c ∈ name, isWordChar c = true)
    (cs : List Char) : readUntil endsField (name ++ ':' :: cs) = (name, ':' :: cs) := by
  have hspells : Spells Passes name name := .of_forall fun c hc => passes_of_isWordChar (hname c hc)
  refine readUntil_spells (fun c hc => ⟨hc.1, hc.2.2.1⟩) hspells fun c hc => ?_
  obtain rfl : ':' = c := Option.some.inj hc
  decide

theorem expect_colon (cs : List Char) : expect ':' (':' :: cs) = .ok cs := by
  simp [expect, skipBlank_cons (show isBlank ':' = false by decide)]

/-- A quotation mark behind a plain field name starts a quoted value. -/
theorem readClause_quoted {name : List Char} (hne : name ≠ [])
    (hname : ∀ c ∈ name, isWordChar c = true) (cs : List Char) :
    readClause (name ++ ':' :: '"' :: cs) = readQuoted name cs := by
  have hempty : name.isEmpty = false := by simpa using hne
  simp only [readClause, readUntil_name hname, hempty, expect_colon, bind, Except.bind,
    Bool.false_eq_true, if_false]

/-- A bracket behind a plain field name starts a range. -/
theorem readClause_range {name : List Char} (hne : name ≠ [])
    (hname : ∀ c ∈ name, isWordChar c = true) (inclusive : Bool) (cs : List Char) :
    readClause (name ++ ':' :: (if inclusive then '[' else '{') :: cs) =
      readRange name inclusive cs := by
  have hempty : name.isEmpty = false := by simpa using hne
  cases inclusive with
  | false =>
    simp only [readClause, readUntil_name hname, hempty, expect_colon, bind, Except.bind,
      Bool.false_eq_true, if_false]
  | true =>
    simp only [readClause, readUntil_name hname, hempty, expect_colon, bind, Except.bind,
      Bool.false_eq_true, if_true, if_false]

/-- An operand that starts with a plain name is a clause. -/
theorem readOperand_name {name : List Char} (hne : name ≠ [])
    (hname : ∀ c ∈ name, isWordChar c = true) (k : Nat) (cs : List Char) :
    readOperand (k + 1) (name ++ ':' :: cs) = readClause (name ++ ':' :: cs) := by
  have hword : keyword "NOT".toList (name ++ ':' :: cs) = none := keyword_of_name hname (by decide) cs
  obtain ⟨c, name, rfl⟩ := List.exists_cons_of_ne_nil hne
  have hc : isWordChar c = true := hname c (by simp)
  have hsigns : ¬(c = '-' ∨ c = '!') ∧ c ≠ '(' := by
    refine ⟨?_, ?_⟩
    · rintro (rfl | rfl) <;> exact absurd hc (by decide)
    · rintro rfl
      exact absurd hc (by decide)
  have hskip : skipBlank (c :: (name ++ ':' :: cs)) = c :: (name ++ ':' :: cs) :=
    skipBlank_cons (isBlank_eq_false_of_isWordChar hc) _
  rw [List.cons_append] at hword ⊢
  simp only [readOperand, hskip, hword, if_neg hsigns.1, if_neg hsigns.2]

/-- A clause takes one level, whatever stands behind it. -/
theorem readsAs_of_readClause {name tail : List Char} {node : Node} (hne : name ≠ [])
    (hname : ∀ c ∈ name, isWordChar c = true)
    (hread : ∀ rest, readClause (name ++ ':' :: (tail ++ rest)) = .ok (node, rest)) :
    ReadsAs (name ++ ':' :: tail) 1 node := by
  refine .of_succ (by simp) ?_ fun _ hk => absurd hk (Nat.not_lt_zero _)
  intro k rest _ _
  rw [List.append_assoc, List.cons_append, readOperand_name hne hname, hread]

section Clauses

variable {name : String} (hname : IsPlainName name)

include hname

theorem readsAs_term {l s : List Char} (h : Spells Passes l s) :
    ReadsAs (name.toList ++ ':' :: '"' :: (l ++ ['"'])) 1 (.term name (String.ofList s)) := by
  have hne : name.toList ≠ [] := by simpa using hname.1
  refine readsAs_of_readClause hne hname.2 fun rest => ?_
  have hread := readQuoted_spells h name.toList rest
  rw [String.ofList_toList] at hread
  simpa [readClause_quoted hne hname.2] using hread

theorem readsAs_range {lower upper s t : List Char} (hlower : Spells Passes lower s)
    (hupper : Spells Passes upper t) (hlowerne : lower ≠ []) (inclusive inclusive' : Bool) :
    ReadsAs
      (name.toList ++ ':' :: (if inclusive then '[' else '{') ::
        (lower ++ " TO ".toList ++ upper ++ [if inclusive' then ']' else '}']))
      1 (.range name (rangeEnd s) (rangeEnd t) inclusive inclusive') := by
  have hne : name.toList ≠ [] := by simpa using hname.1
  refine readsAs_of_readClause hne hname.2 fun rest => ?_
  have hread := readRange_spells hlower hupper hlowerne name.toList inclusive inclusive' rest
  rw [String.ofList_toList] at hread
  simpa only [List.append_assoc, List.cons_append, List.nil_append, readClause_range hne hname.2]
    using hread

end Clauses

/-- The star of a range stands for an end that is left open. -/
theorem spells_star : Spells Passes ['*'] ['*'] := .self passes_star .nil

theorem readsAs_all : ReadsAs "*:*".toList 1 .all := by
  refine .of_succ (by decide) ?_ fun _ hk => absurd hk (Nat.not_lt_zero _)
  intro k rest hrest _
  have hvalue : readUntil endsValue ('*' :: rest) = (['*'], rest) := by
    have hstar : Spells (fun c => c = '*') ['*'] ['*'] := .self rfl .nil
    refine readUntil_spells ?_ hstar fun c hc => ?_
    · rintro c rfl
      decide
    · have hends := hrest c hc
      refine ⟨?_, hends⟩
      rintro rfl
      exact absurd hends (by decide)
  have hfield : readUntil endsField ('*' :: ':' :: '*' :: rest) = (['*'], ':' :: '*' :: rest) := rfl
  have hcolon : expect ':' (':' :: '*' :: rest) = .ok ('*' :: rest) := expect_colon _
  have hword : keyword "NOT".toList ('*' :: ':' :: '*' :: rest) = none := rfl
  have hskip : skipBlank ('*' :: ':' :: '*' :: rest) = '*' :: ':' :: '*' :: rest :=
    skipBlank_cons (by decide) _
  have hsigns : ¬('*' = '-' ∨ '*' = '!') ∧ '*' ≠ '(' := by decide
  show readOperand (k + 1) ('*' :: ':' :: '*' :: rest) = .ok (.all, rest)
  simp only [readOperand, hskip, hword, if_neg hsigns.1, if_neg hsigns.2, readClause, hfield, hcolon,
    bind, Except.bind]
  simp [readBare, hvalue]

/-! ## Whole texts -/

/-- A text that is not too long fails where its operand does. -/
theorem parse_eq_error {text : List Char} {fault : SyntaxFault} {remaining : Nat}
    (herror : readOperand maxDepth text = .error ⟨fault, remaining⟩)
    (hlength : (String.ofList text).utf8ByteSize ≤ maxLength) :
    parse (String.ofList text) =
      .error (.compile (.query (.syntaxFault (text.length - remaining) fault))) := by
  have hchars : parseChars text = .error ⟨fault, remaining⟩ := by
    simp only [parseChars, readDisjunction_error herror, bind, Except.bind]
  simp [parse, Nat.not_lt.2 hlength, hchars]

section Texts

variable {text : List Char} {levels : Nat} {node : Node} (h : ReadsAs text levels node)
  (hlength : (String.ofList text).utf8ByteSize ≤ maxLength)

include h hlength

/-- A text that is not too long and not nested too deeply is read as the node of its operand. -/
theorem parse_eq_ok (hlevels : levels ≤ maxDepth) : parse (String.ofList text) = .ok node := by
  have hread : readOperand maxDepth text = .ok (node, []) := by
    simpa using h.read (show Stops [] by simp [Stops]) hlevels
  have hwhole : readDisjunction (readOperand maxDepth) text = .ok (node, []) :=
    readDisjunction_one hread trivial
  have hskip : skipBlank [] = [] := rfl
  have hchars : parseChars text = .ok node := by
    simp only [parseChars, hwhole, hskip, bind, Except.bind]
  simp [parse, Nat.not_lt.2 hlength, hchars]

/-- A text that is not too long can only fail because it is nested too deeply. -/
theorem exists_parse_eq_error (hlevels : maxDepth < levels) :
    ∃ position, parse (String.ofList text) =
      .error (.compile (.query (.syntaxFault position .nestedTooDeeply))) := by
  obtain ⟨remaining, herror⟩ : ∃ remaining, readOperand maxDepth text =
      .error ⟨.nestedTooDeeply, remaining⟩ := by
    simpa using h.tooDeep (show Stops [] by simp [Stops]) hlevels
  exact ⟨_, parse_eq_error herror hlength⟩

end Texts

end SearchTable.Query
