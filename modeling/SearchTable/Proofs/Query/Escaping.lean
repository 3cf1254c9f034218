import SearchTable.Proofs.Query.Literals
/-!
# Escaped texts are read back whole

A text that has been escaped is handed to the scanner with more characters behind it.  The scanner
does not notice where the text ends: it gives the text, whatever it holds, and goes on with the
characters behind it (`readUntil_escape_append`).  So the text comes out whole, and the scanner
stands right behind it, exactly when one of the characters that stop it comes next, or nothing
(`readUntil_escape_iff`).

All of this rests on one condition, `StopsAtEscaped`: whatever stops the scanner stands behind a
backslash in every escaped text.  No weaker one would do (`stopsAtEscaped_iff`), and every reader of
the query language meets it (`stopsAtEscaped_of_reader`).
-/

namespace SearchTable.Query

open Text

variable {stop : Char → Bool}

/-- The scanner is stopped by characters that escaping puts behind a backslash, and not by the
backslash, which it takes for a mark. -/
def StopsAtEscaped (stop : Char → Bool) : Prop :=
  ∀ c, stop c = true → needsEscape c = true ∧ c ≠ '\\'

/-- A character that is not escaped is passed. -/
theorem StopsAtEscaped.passes (h : StopsAtEscaped stop) {c : Char} (hc : needsEscape c = false) :
    c ≠ '\\' ∧ stop c = false := by
  constructor
  · rintro rfl
    exact absurd hc (by decide)
  · rw [← Bool.not_eq_true]
    intro hstop
    exact absurd (h c hstop).1 (by simp [hc])

/-! ## The scanner -/

/-- The scanner gives an escaped text and goes on with what stands behind it. -/
theorem readUntil_escape_append (h : StopsAtEscaped stop) (s : String) (rest : List Char) :
    readUntil stop ((escape s).toList ++ rest) =
      (s.toList ++ (readUntil stop rest).1, (readUntil stop rest).2) := by
  rw [toList_escape]
  exact readUntil_append_of_spells (fun _ => h.passes) (spells_escapeChars (fun _ hc => hc) _) rest

/-- Where a character does not stop it, the scanner takes at least one. -/
theorem fst_readUntil_ne_nil {c : Char} (hc : stop c = false) (cs : List Char) :
    (readUntil stop (c :: cs)).1 ≠ [] := by
  by_cases hmark : c = '\\'
  · subst hmark
    cases cs with
    | nil =>
      -- the last backslash of all stands for itself
      rw [readUntil.eq_3 _ _ _ (by simp), hc]
      simp
    | cons d cs =>
      rw [readUntil]
      simp
  · rw [readUntil_cons hmark, hc]
    simp

theorem readUntil_eq_nil_iff (h : StopsAtEscaped stop) (rest : List Char) :
    readUntil stop rest = ([], rest) ↔ ∀ c ∈ rest.head?, stop c = true := by
  constructor
  · intro hread c hc
    obtain ⟨cs, rfl⟩ := List.head?_eq_some_iff.1 hc
    by_contra hstop
    rw [Bool.not_eq_true] at hstop
    exact fst_readUntil_ne_nil hstop cs (congrArg Prod.fst hread)
  · intro hrest
    exact readUntil_stopped fun c hc => ⟨(h c (hrest c hc)).2, hrest c hc⟩

/-- An escaped text comes out of the scanner whole and without what stands behind it, exactly when a
character that stops the scanner stands there, or nothing. -/
theorem readUntil_escape_iff (h : StopsAtEscaped stop) (s : String) (rest : List Char) :
    readUntil stop ((escape s).toList ++ rest) = (s.toList, rest) ↔
      ∀ c ∈ rest.head?, stop c = true := by
  rw [readUntil_escape_append h, ← readUntil_eq_nil_iff h]
  constructor
  · intro hread
    obtain ⟨hrun, hrest⟩ := Prod.mk.inj hread
    exact Prod.ext (by simpa using hrun) hrest
  · intro hread
    rw [hread, List.append_nil]

/-- No other characters may stop the scanner if it is to read back every escaped text in front of
every character that stops it. -/
theorem stopsAtEscaped_iff :
    StopsAtEscaped stop ↔ ∀ (s : String) (rest : List Char), (∀ c ∈ rest.head?, stop c = true) →
      readUntil stop ((escape s).toList ++ rest) = (s.toList, rest) := by
  constructor
  · intro h s rest
    exact (readUntil_escape_iff h s rest).2
  · intro h c hc
    have hmark : c ≠ '\\' := by
      rintro rfl
      -- of a backslash and another character the scanner takes the other one
      have hread := h "" ['\\', '\\'] (by simpa using hc)
      simp [readUntil, escapeChars] at hread
    refine ⟨?_, hmark⟩
    by_contra hescape
    -- a text of this character alone is left where it stands
    have hread := h (String.ofList [c]) [] (by simp)
    simp [escapeChars, hescape, readUntil_cons hmark, hc] at hread

/-! ## The readers -/

/-- Whatever is read, be it the name of a field, a value between quotation marks, an end of a range
or a bare value, an escaped text is read back whole. -/
theorem stopsAtEscaped_of_reader :
    ∀ stop ∈ [endsField, (· == '"'), isBlank, endsUpper, endsValue], StopsAtEscaped stop := by
  have hblank : ∀ c, isBlank c = true → needsEscape c = true ∧ c ≠ '\\' := by
    intro c hc
    refine ⟨by simp [needsEscape, hc], ?_⟩
    rintro rfl
    exact absurd hc (by decide)
  simp only [List.forall_mem_cons, List.not_mem_nil, false_imp_iff, implies_true, and_true]
  refine ⟨?field, ?quoted, hblank, ?upper, ?value⟩ <;> intro c hc
  case field =>
    simp only [endsField, Bool.or_eq_true, beq_iff_eq] at hc
    obtain ((rfl | hc) | rfl) | rfl := hc
    · decide
    · exact hblank c hc
    · decide
    · decide
  case quoted =>
    obtain rfl := beq_iff_eq.1 hc
    decide
  case upper =>
    simp only [endsUpper, Bool.or_eq_true, beq_iff_eq] at hc
    obtain (rfl | rfl) | hc := hc
    · decide
    · decide
    · exact hblank c hc
  case value =>
    simp only [endsValue, Bool.or_eq_true, beq_iff_eq] at hc
    obtain hc | rfl := hc
    · exact hblank c hc
    · decide

/-- A text that holds every kind of end, blanks of other scripts and a backslash as its last
character, in front of the end of a range. -/
theorem readUntil_escape_iff_syntax :
    let s := "a\\] TO \u2003[\u0085\x7d\"x\") OR *:* \\"
    let rest := "] AND b".toList
    StopsAtEscaped endsUpper ∧ (∀ c ∈ rest.head?, endsUpper c = true) ∧
      readUntil endsUpper ((escape s).toList ++ rest) = (s.toList, rest) := by
  intro s rest
  have hstop : StopsAtEscaped endsUpper := stopsAtEscaped_of_reader endsUpper (by simp)
  have hrest : ∀ c ∈ rest.head?, endsUpper c = true := by
    intro c hc
    obtain rfl : ']' = c := Option.some.inj hc
    decide
  exact ⟨hstop, hrest, (readUntil_escape_iff hstop s rest).2 hrest⟩

end SearchTable.Query
