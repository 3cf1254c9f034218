import SearchTable.Proofs.Condition.Unreadable
/-!
# Ends of ranges that are read back

A text that is escaped into a range clause comes back as the end of the range, with the brackets of
the clause and the other end open, whatever it holds.  Two texts do not (`parse_render_range`).  The
reader looks for the star of an open end after it has dropped the backslashes, so an escaped star
opens the range at both ends, and it holds of every document that has the field.  The empty text
leaves nothing in front of the keyword at a lower end; the keyword is then taken for the end, and
the clause is no query.
-/

namespace SearchTable.Condition

open Query Text

variable {field : String} (hfield : IsPlainName field) (inclusive : Bool) {v : Value}

include hfield

/-- Reading gives the end that was written, unless it is the star. -/
theorem parse_render_upper
    (hlength : (render (.upper inclusive) field v.literal).utf8ByteSize ≤ maxLength) :
    parse (render (.upper inclusive) field v.literal) =
      .ok (.range field none (rangeEnd v.plain.toList) inclusive inclusive) :=
  parse_eq_ok (readsAs_openRange hfield (spells_plain v) false inclusive nofun) hlength (by decide)

/-- At the lower end it does so for every text but the star and the empty one. -/
theorem parse_render_lower (hempty : v.plain ≠ "")
    (hlength : (render (.lower inclusive) field v.literal).utf8ByteSize ≤ maxLength) :
    parse (render (.lower inclusive) field v.literal) =
      .ok (.range field (rangeEnd v.plain.toList) none inclusive inclusive) :=
  parse_eq_ok (readsAs_openRange hfield (spells_plain v) true inclusive fun _ =>
    literal_ne_nil hempty) hlength (by decide)

/-- With nothing at its lower end a clause is no query; reading stops at the star of the other
end. -/
theorem parse_render_emptyLower
    (hlength : (render (.lower inclusive) field "").utf8ByteSize ≤ maxLength) :
    parse (render (.lower inclusive) field "") =
      .error (.compile (.query (.syntaxFault (field.length + 6) .rangeKeyword))) := by
  have htext : renderChars (.lower inclusive) field.toList "".toList =
      field.toList ++ ':' :: (if inclusive then '[' else '{') ::
        (" TO *".toList ++ [closeBracket inclusive]) := by
    simp [renderChars, openBracket]
  have hread := readOperand_emptyLower hfield inclusive (maxDepth - 1) [closeBracket inclusive]
  rw [← htext] at hread
  rw [render, parse_eq_error hread hlength, htext]
  simp [String.length_toList]

/-- A text that is escaped into a range clause is read back as the end of the range, unless it is
the star, or the empty text at a lower end.  The star leaves the range open at both ends, and the
empty text at a lower end is a fault. -/
theorem parse_render_range {shape : Shape}
    (hshape : shape = .upper inclusive ∨ shape = .lower inclusive) (s : String)
    (hlength : (render shape field (Value.text s).literal).utf8ByteSize ≤ maxLength) :
    let answer := parse (render shape field (Value.text s).literal)
    (answer = .ok (clauseNode shape field s) ↔ s ≠ "*" ∧ (s = "" → shape = .upper inclusive)) ∧
      (s = "*" → answer = .ok (.range field none none inclusive inclusive)) ∧
      (s = "" → shape = .lower inclusive →
        answer = .error (.compile (.query (.syntaxFault (field.length + 6) .rangeKeyword)))) := by
  intro answer
  have hstar : rangeEnd "*".toList = none := rfl
  have hplain : (Value.text s).plain = s := rfl
  rcases hshape with rfl | rfl
  · have hread := parse_render_upper hfield inclusive hlength
    rw [hplain] at hread
    by_cases hs : s = "*"
    · subst hs
      rw [hstar] at hread
      simp [answer, hread, clauseNode]
    · rw [rangeEnd_toList hs] at hread
      simp [answer, hread, clauseNode, hs]
  · by_cases hempty : s = ""
    · subst hempty
      have hread := parse_render_emptyLower hfield inclusive hlength
      have hliteral : (Value.text "").literal = "" := rfl
      simp [answer, hliteral, hread]
    · have hread := parse_render_lower hfield inclusive (v := .text s) hempty hlength
      rw [hplain] at hread
      by_cases hs : s = "*"
      · subst hs
        rw [hstar] at hread
        simp [answer, hread, clauseNode]
      · rw [rangeEnd_toList hs] at hread
        simp [answer, hread, clauseNode, hs, hempty]

omit hfield

/-- A text full of query syntax comes back as it was. -/
theorem parse_render_range_syntax :
    let s := "\\] TO * OR \"x"
    IsPlainName "f_1" ∧ (Shape.lower false = .upper false ∨ Shape.lower false = .lower false) ∧
      (render (.lower false) "f_1" (Value.text s).literal).utf8ByteSize ≤ maxLength ∧
      parse (render (.lower false) "f_1" (Value.text s).literal) =
        .ok (clauseNode (.lower false) "f_1" s) := by
  intro s
  have hfield : IsPlainName "f_1" := by decide
  have hlength :
      (render (.lower false) "f_1" (Value.text s).literal).utf8ByteSize ≤ maxLength := by
    decide +kernel
  exact ⟨hfield, .inr rfl, hlength,
    (parse_render_range hfield false (.inr rfl) s hlength).1.2 (by decide)⟩

/-- An escaped star opens a range that it should end, and it holds of a document above the star; the
empty text at the lower end is no query. -/
theorem not_parse_render_range_star :
    let star := render (.upper true) "f" (Value.text "*").literal
    let empty := render (.lower true) "f" (Value.text "").literal
    let d : Document := .ofList [("f", .text "x")]
    parse star = .ok (.range "f" none none true true) ∧
      parse star ≠ .ok (clauseNode (.upper true) "f" "*") ∧
      (Node.range "f" none none true true).holds d = true ∧
      (clauseNode (.upper true) "f" "*").holds d = false ∧
      parse empty = .error (.compile (.query (.syntaxFault 7 .rangeKeyword))) := by
  intro star empty d
  have hread : parse star = .ok (.range "f" none none true true) := by cbv
  refine ⟨hread, ?_, by decide, by decide, by cbv⟩
  rw [hread]
  simp [clauseNode]

end SearchTable.Condition
