import Mathlib
import SearchTable.Query.Reader
/-!
# Literals and the texts they spell

A literal of the query language is a text in which some characters stand behind a backslash.
`Spells bare l s` says that `l` is such a literal for the text `s`: the characters in `bare` stand
for themselves, and those that need an escape stand behind a backslash.  Escaped texts are literals
with no other bare characters than those that need no escape; the literals of numbers may also hold
a bare minus sign, which no reader of the query language stops at.

* `readUntil_spells`: the scanner takes exactly the literal and gives the text.
* `Value.spells_literal`: the literal of every value spells its plain text.
-/

namespace SearchTable.Text

/-! ## Word characters -/

/-- Letters and digits of ASCII, and the underscore. -/
def isWordChar (c : Char) : Bool := c.isAlphanum || c == '_'

/-- A name that is not empty and made of word characters. -/
def IsPlainName (name : String) : Prop := name ≠ "" ∧ ∀ c ∈ name.toList, isWordChar c = true

instance (name : String) : Decidable (IsPlainName name) :=
  decidable_of_iff (name ≠ "" ∧ name.toList.all isWordChar = true) (by simp [IsPlainName])

theorem isBlank_eq_false_of_isWordChar {c : Char} (h : isWordChar c = true) : isBlank c = false := by
  have hc : c.toNat = c.val.toNat := rfl
  simp only [isWordChar, Char.isAlphanum, Char.isAlpha, Char.isUpper, Char.isLower, Char.isDigit,
    Bool.or_eq_true, Bool.and_eq_true, decide_eq_true_eq, beq_iff_eq, UInt32.le_iff_toNat_le,
    ge_iff_le] at h
  have hunder : c = '_' → c.toNat = 95 := fun h => h ▸ rfl
  have : 48 ≤ c.toNat ∧ c.toNat ≤ 122 := by
    rcases h with ((h | h) | h) | h
    · exact ⟨le_trans (by decide) h.1, le_trans h.2 (by decide)⟩
    · exact ⟨le_trans (by decide) h.1, le_trans h.2 (by decide)⟩
    · exact ⟨le_trans (by decide) h.1, le_trans h.2 (by decide)⟩
    · rw [hunder h]; decide
  simp only [isBlank, Bool.or_eq_false_iff, Bool.and_eq_false_iff, decide_eq_false_iff_not,
    beq_eq_false_iff_ne]
  omega

theorem needsEscape_eq_false_of_isWordChar {c : Char} (h : isWordChar c = true) :
    needsEscape c = false := by
  rw [needsEscape, Bool.or_eq_false_iff]
  refine ⟨?_, isBlank_eq_false_of_isWordChar h⟩
  by_contra hop
  have hmem : c ∈ operatorChars := by simpa using hop
  simp only [operatorChars, List.mem_cons, List.not_mem_nil, or_false] at hmem
  revert h
  rcases hmem with rfl | rfl | rfl | rfl | rfl | rfl | rfl | rfl | rfl | rfl | rfl | rfl | rfl | rfl |
    rfl | rfl | rfl | rfl | rfl | rfl <;> decide

theorem isWordChar_of_isDigit {c : Char} (h : c.isDigit = true) : isWordChar c = true := by
  simp [isWordChar, Char.isAlphanum, h]

/-! ## Spelling -/

/-- A literal spells a text: the characters in `bare` stand for themselves, those that need an
escape stand behind a backslash. -/
inductive Spells (bare : Char → Prop) : List Char → List Char → Prop
  | nil : Spells bare [] []
  | self {c : Char} {l s : List Char} (hc : bare c) (h : Spells bare l s) :
      Spells bare (c :: l) (c :: s)
  | escaped {c : Char} {l s : List Char} (hc : needsEscape c = true) (h : Spells bare l s) :
      Spells bare ('\\' :: c :: l) (c :: s)

variable {bare : Char → Prop}

theorem Spells.of_forall {s : List Char} (h : ∀ c ∈ s, bare c) : Spells bare s s := by
  induction s with
  | nil => exact .nil
  | cons c s ih => exact .self (h c (by simp)) (ih fun d hd => h d (by simp [hd]))

/-- Escaping spells the text with all characters bare that need no escape. -/
theorem spells_escapeChars (h : ∀ c, needsEscape c = false → bare c) (s : List Char) :
    Spells bare (escapeChars s) s := by
  induction s with
  | nil => exact .nil
  | cons c s ih =>
    by_cases hc : needsEscape c = true
    · rw [escapeChars, if_pos hc]
      exact .escaped hc ih
    · rw [escapeChars, if_neg hc]
      exact .self (h c (by simpa using hc)) ih

theorem Spells.eq_nil_iff {l s : List Char} (h : Spells bare l s) : l = [] ↔ s = [] := by
  cases h <;> simp

end SearchTable.Text

namespace SearchTable.Query

open Text

theorem readUntil_cons {stop : Char → Bool} {c : Char} (hc : c ≠ '\\') (cs : List Char) :
    readUntil stop (c :: cs) =
      if stop c then ([], c :: cs)
      else (c :: (readUntil stop cs).1, (readUntil stop cs).2) := by
  rw [readUntil.eq_3 _ _ _ fun d ds h _ => hc h]

/-- In front of a character that stops it, and at the end, the scanner takes nothing. -/
theorem readUntil_stopped {stop : Char → Bool} {rest : List Char}
    (h : ∀ c ∈ rest.head?, c ≠ '\\' ∧ stop c = true) : readUntil stop rest = ([], rest) := by
  cases rest with
  | nil => rfl
  | cons c cs =>
    obtain ⟨hc, hstop⟩ := h c (by simp)
    rw [readUntil_cons hc, if_pos hstop]

/-- The scanner passes a literal, gives the text that the literal spells, and goes on with what
stands behind it. -/
theorem readUntil_append_of_spells {bare : Char → Prop} {stop : Char → Bool}
    (hbare : ∀ c, bare c → c ≠ '\\' ∧ stop c = false) {l s : List Char} (h : Spells bare l s)
    (rest : List Char) :
    readUntil stop (l ++ rest) = (s ++ (readUntil stop rest).1, (readUntil stop rest).2) := by
  induction h with
  | nil => rfl
  | self hc _ ih =>
    obtain ⟨hne, hstop⟩ := hbare _ hc
    rw [List.cons_append, readUntil_cons hne, if_neg (by simp [hstop]), ih]
    rfl
  | escaped _ _ ih =>
    rw [List.cons_append, List.cons_append, readUntil, ih]
    rfl

/-- The scanner takes a literal up to the first character behind it that stops it, and gives the
text that the literal spells. -/
theorem readUntil_spells {bare : Char → Prop} {stop : Char → Bool}
    (hbare : ∀ c, bare c → c ≠ '\\' ∧ stop c = false) {l s : List Char} (h : Spells bare l s)
    {rest : List Char} (hrest : ∀ c ∈ rest.head?, c ≠ '\\' ∧ stop c = true) :
    readUntil stop (l ++ rest) = (s, rest) := by
  rw [readUntil_append_of_spells hbare h, readUntil_stopped hrest, List.append_nil]

end SearchTable.Query

/-! ## Literals of values -/

namespace SearchTable

open Number Text

/-- The characters that stand for themselves in the literals of values. -/
def BareInLiteral (c : Char) : Prop := needsEscape c = false ∨ c = '-'

theorem BareInLiteral.ne {c d : Char} (h : BareInLiteral c) (hd : needsEscape d = true)
    (hminus : d ≠ '-') : c ≠ d := by
  rintro rfl
  obtain h | h := h
  · simp [hd] at h
  · exact hminus h

theorem BareInLiteral.ne_bracket {c : Char} (h : BareInLiteral c) : c ≠ '[' :=
  h.ne (by decide) (by decide)

theorem bareInLiteral_of_isDigit {c : Char} (h : c.isDigit = true) : BareInLiteral c :=
  .inl (needsEscape_eq_false_of_isWordChar (isWordChar_of_isDigit h))

theorem bareInLiteral_of_all {s : String} (h : s.toList.all isWordChar = true) :
    ∀ c ∈ s.toList, BareInLiteral c := fun c hc =>
  .inl (needsEscape_eq_false_of_isWordChar (List.all_eq_true.1 h c hc))

theorem bareInLiteral_digits (n : Nat) : ∀ c ∈ digits n, BareInLiteral c := fun _ hc =>
  bareInLiteral_of_isDigit (Nat.isDigit_of_mem_toDigits (by decide) (by decide) hc)

theorem bareInLiteral_integerText (n : Int) : ∀ c ∈ (integerText n).toList, BareInLiteral c := by
  intro c hc
  rw [integerText] at hc
  split at hc
  · simp only [String.toList_ofList, List.mem_cons] at hc
    rcases hc with rfl | hc
    · exact .inr rfl
    · exact bareInLiteral_digits _ c hc
  · exact bareInLiteral_digits _ c (by simpa using hc)

theorem bareInLiteral_positional (d : Decimal) : ∀ c ∈ d.positional, BareInLiteral c := by
  have hpoint : BareInLiteral '.' := .inl (by decide)
  have hzero : BareInLiteral '0' := .inl (by decide)
  intro c hc
  simp only [Decimal.positional] at hc
  split at hc
  · simp only [List.mem_append, List.mem_replicate] at hc
    rcases hc with hc | ⟨_, rfl⟩
    · exact bareInLiteral_digits _ c hc
    · exact hzero
  · split at hc
    · simp only [List.mem_append, List.mem_cons] at hc
      rcases hc with hc | rfl | hc
      · exact bareInLiteral_digits _ c (List.mem_of_mem_take hc)
      · exact hpoint
      · exact bareInLiteral_digits _ c (List.mem_of_mem_drop hc)
    · simp only [List.cons_append, List.mem_cons, List.mem_append, List.mem_replicate] at hc
      rcases hc with rfl | rfl | ⟨_, rfl⟩ | hc
      · exact hzero
      · exact hpoint
      · exact hzero
      · exact bareInLiteral_digits _ c hc

theorem bareInLiteral_text {w : Width} (x : Binary w) : ∀ c ∈ x.text.toList, BareInLiteral c := by
  cases x with
  | nan =>
    show ∀ c ∈ "NaN".toList, BareInLiteral c
    exact bareInLiteral_of_all (by decide)
  | number negative rank =>
    intro c hc
    simp only [Binary.text, String.toList_ofList] at hc
    have hbody : ∀ c ∈ (if rank.val = w.infinityRank then "inf".toList
        else (shortest w .up rank.val).positional), BareInLiteral c := by
      split
      · exact bareInLiteral_of_all (by decide)
      · exact bareInLiteral_positional _
    split at hc
    · rcases List.mem_cons.1 hc with rfl | hc
      · exact .inr rfl
      · exact hbody c hc
    · exact hbody c hc

/-- The literal of a value spells its plain text. -/
theorem Value.spells_literal (v : Value) :
    Spells BareInLiteral v.literal.toList v.plain.toList := by
  have hescape : ∀ s : String, Spells BareInLiteral (escape s).toList s.toList := by
    intro s
    rw [toList_escape]
    exact spells_escapeChars (fun _ => .inl) _
  cases v with
  | int n => exact .of_forall (bareInLiteral_integerText _)
  | long n => exact .of_forall (bareInLiteral_integerText _)
  | float x => exact .of_forall (bareInLiteral_text x)
  | double x => exact .of_forall (bareInLiteral_text x)
  | bool b => cases b <;> exact .of_forall (bareInLiteral_of_all (by decide))
  | text s => exact hescape s
  | object v => exact hescape v.plain
  | null => exact .of_forall (bareInLiteral_of_all (by decide))

end SearchTable
