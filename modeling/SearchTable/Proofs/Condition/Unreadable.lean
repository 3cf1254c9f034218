import SearchTable.Proofs.Condition.Meaning
/-!
# Conditions whose text cannot be read

Nothing at the lower end of a range moves the keyword behind it into its place, and the reader then
misses the keyword (`readRange_emptyLower`).  An operand that cannot be read makes everything around
it unreadable: negations, parentheses and the other side of a connective (`Fails.not`,
`Fails.group`, `Fails.groupLeft`, `Fails.groupRight`).  So the text of a condition with an empty
lower end is no query at all (`unreadable_fragment?`).

Empty ends hence never change the meaning of a query, they only keep it from being read.  Whenever
the text of a condition is read, the query holds as the condition does, as long as no constant
captures a placeholder and no range has a star at an end (`holds_of_parse_resolve`).
-/

namespace SearchTable.Query

open Text

/-! ## Operands that cannot be read -/

/-- Reading fails on the text as an operand, whatever stands behind it and however many operands may
still stand around one another. -/
def Fails (text : List Char) : Prop :=
  ∀ (k : Nat) {rest : List Char}, Stops rest → ∃ h, readOperand k (text ++ rest) = .error h

namespace Fails

variable {text other : List Char}

/-- Without a level left every operand fails, so only the other numbers of levels count. -/
theorem of_succ (herror : ∀ (k : Nat) {rest : List Char}, Stops rest →
    ∃ h, readOperand (k + 1) (text ++ rest) = .error h) : Fails text := by
  intro k rest hrest
  cases k with
  | zero => exact ⟨_, rfl⟩
  | succ k => exact herror k hrest

theorem blank (h : Fails text) : Fails (' ' :: text) :=
  of_succ fun k rest hrest => by
    rw [List.cons_append, readOperand_blank]
    exact h (k + 1) hrest

theorem not (h : Fails text) : Fails ("NOT ".toList ++ text) :=
  of_succ fun k rest hrest => by
    obtain ⟨halt, herror⟩ := h.blank k hrest
    refine ⟨halt, ?_⟩
    rw [List.append_assoc, readOperand_not]
    exact congrArg _ herror

/-- Parentheses around a text whose first operand cannot be read. -/
theorem group_append (h : Fails text) {tail : List Char} (htail : ∀ rest, Stops (tail ++ rest)) :
    Fails ('(' :: text ++ tail) :=
  of_succ fun k rest _ => by
    obtain ⟨halt, herror⟩ := h k (htail rest)
    refine ⟨halt, ?_⟩
    simp only [List.cons_append, List.append_assoc]
    exact readOperand_paren_error (readDisjunction_error herror)

theorem group (h : Fails text) : Fails ('(' :: text ++ [')']) :=
  h.group_append fun rest => stops_cons (by decide) rest

section Joined

variable {between : List Char} {make : List Node → Node} (hjoins : Joins between make)

include hjoins

theorem groupLeft (h : Fails text) (other : List Char) :
    Fails ('(' :: text ++ between ++ other ++ [')']) := by
  have hstops : ∀ rest, Stops (between ++ other ++ [')'] ++ rest) := fun rest => by
    simpa using hjoins.stops (other ++ ')' :: rest)
  simpa using h.group_append hstops

/-- The operand in front is read, or it is nested too deeply; both ways the text fails. -/
theorem groupRight {levels : Nat} {node : Node} (h : ReadsAs text levels node)
    (h' : Fails other) : Fails ('(' :: text ++ between ++ other ++ [')']) :=
  of_succ fun k rest _ => by
    have hassoc : '(' :: text ++ between ++ other ++ [')'] ++ rest =
        '(' :: (text ++ (between ++ (other ++ ')' :: rest))) := by simp
    have hne : text ++ (between ++ (other ++ ')' :: rest)) ≠ [] := by simp [h.ne_nil]
    rw [hassoc]
    by_cases hdeep : k < levels
    · obtain ⟨remaining, herror⟩ := h.tooDeep (hjoins.stops (other ++ ')' :: rest)) hdeep
      exact ⟨_, readOperand_paren_error (readDisjunction_error herror)⟩
    · have hstops : Stops (')' :: rest) := stops_cons (by decide) rest
      obtain ⟨halt, herror⟩ := h'.blank k hstops
      exact ⟨halt, readOperand_paren_error
        (hjoins.error hne (h.read (hjoins.stops _) (not_lt.1 hdeep)) herror)⟩

end Joined

/-- A text that is an unreadable operand is no query. -/
theorem parse_ne_ok (h : Fails text) (node : Node) : parse (String.ofList text) ≠ .ok node := by
  obtain ⟨halt, herror⟩ : ∃ halt, readOperand maxDepth text = .error halt := by
    simpa using h maxDepth (show Stops [] by simp [Stops])
  have hchars : parseChars text = .error halt := by
    simp only [parseChars, readDisjunction_error herror, bind, Except.bind]
  rw [parse]
  split
  · simp
  · simp [hchars]

end Fails

/-- A text that is read as an operand is no other query. -/
theorem ReadsAs.eq_of_parse {text : List Char} {levels : Nat} {node node' : Node}
    (h : ReadsAs text levels node) (hparse : parse (String.ofList text) = .ok node') :
    node' = node := by
  by_cases hlength : maxLength < (String.ofList text).utf8ByteSize
  · simp [parse, hlength] at hparse
  · by_cases hdeep : maxDepth < levels
    · obtain ⟨position, herror⟩ := exists_parse_eq_error h (not_lt.1 hlength) hdeep
      simp [herror] at hparse
    · rw [parse_eq_ok h (not_lt.1 hlength) (not_lt.1 hdeep)] at hparse
      exact (Except.ok.inj hparse).symm

/-! ## Ranges with nothing at the lower end -/

/-- The keyword is read as the end, and what stands behind it is not the keyword. -/
theorem readRange_emptyLower (field : List Char) (inclusive : Bool) (cs : List Char) :
    readRange field inclusive (" TO *".toList ++ cs) = halt .rangeKeyword ('*' :: cs) := by
  have hskip : skipBlank (" TO *".toList ++ cs) = "TO *".toList ++ cs :=
    (skipBlank_blank _).trans (skipBlank_cons (by decide) _)
  have hrun : readUntil isBlank ("TO *".toList ++ cs) = ("TO".toList, ' ' :: '*' :: cs) := rfl
  have hstar : skipBlank (' ' :: '*' :: cs) = '*' :: cs :=
    (skipBlank_blank _).trans (skipBlank_cons (by decide) _)
  have hword : keyword "TO".toList ('*' :: cs) = none := keyword_of_head_ne (by decide) _ cs
  simp only [readRange, hskip, hrun, hstar, hword]

/-- A clause with nothing at the lower end stops in front of the star. -/
theorem readOperand_emptyLower {name : String} (hname : IsPlainName name) (inclusive : Bool)
    (k : Nat) (cs : List Char) :
    readOperand (k + 1)
        (name.toList ++ ':' :: (if inclusive then '[' else '{') :: (" TO *".toList ++ cs)) =
      .error ⟨.rangeKeyword, cs.length + 1⟩ := by
  have hne : name.toList ≠ [] := by simpa using hname.1
  rw [readOperand_name hne hname.2, readClause_range hne hname.2, readRange_emptyLower]
  rfl

theorem fails_emptyLower {name : String} (hname : IsPlainName name) (inclusive : Bool)
    (tail : List Char) :
    Fails (name.toList ++ ':' :: (if inclusive then '[' else '{') :: (" TO *".toList ++ tail)) := by
  refine .of_succ fun k rest _ => ⟨⟨.rangeKeyword, (tail ++ rest).length + 1⟩, ?_⟩
  simpa using readOperand_emptyLower hname inclusive k (tail ++ rest)

end SearchTable.Query

namespace SearchTable.Condition

open Expression Query Text

/-! ## Fragments that cannot be read -/

/-- There is a fragment, and its text cannot be read. -/
def Unreadable (f : Option Fragment) : Prop := ∃ g, f = some g ∧ Fails g.text

section Joined

variable {f g : Option Fragment} {word : String} {make : List Node → Node}
  (hjoins : Joins word.toList make)

include hjoins

theorem Unreadable.join_left (h : Unreadable f) (g : Option Fragment) :
    Unreadable (joinSides word f g) := by
  obtain ⟨f, rfl, hfails⟩ := h
  cases g with
  | none => exact ⟨f, rfl, hfails⟩
  | some g => exact ⟨f.join word g, rfl, hfails.groupLeft hjoins g.text⟩

theorem Unreadable.join_right {levels : Option Nat} {truth : Document → Option Bool}
    (hmeans : Means f levels truth) (h : Unreadable g) : Unreadable (joinSides word f g) := by
  obtain ⟨g, rfl, hfails⟩ := h
  cases hmeans with
  | untranslated => exact ⟨g, rfl, hfails⟩
  | @translated f levels node truth hread htruth =>
    exact ⟨f.join word g, rfl, .groupRight hjoins hread hfails⟩

end Joined

/-- A clause with an empty text at the lower end of a range. -/
theorem fails_clause {name : String} (hname : IsPlainName name) {shape : Shape} {v : Value}
    (hlower : shape.isLower = true) (hempty : v.plain = "") :
    Fails (renderChars shape name.toList v.literal.toList) := by
  have hliteral : v.literal.toList = [] := by
    rw [v.spells_literal.eq_nil_iff]
    simpa using hempty
  cases shape with
  | lower inclusive =>
    have hfails := fails_emptyLower hname inclusive [closeBracket inclusive]
    simpa [renderChars, hliteral, openBracket] using hfails
  | upper | equal | notEqual => simp [Shape.isLower] at hlower

theorem unreadable_compare {b : Bindings} {op : Comparison} {l r : Expression}
    (hnames : ∀ name ∈ l.fields ++ r.fields, IsPlainName name)
    (hempty : ∃ v ∈ (Expression.compare op l r).lowerEnds b, v.plain = "") :
    Unreadable (some (compileComparison op (l.bind b) (r.bind b))) := by
  obtain ⟨v, hv, hplain⟩ := hempty
  simp only [lowerEnds] at hv
  rw [compileComparison_eq, comparison?_bind]
  cases hparts : comparison? l r with
  | none => simp [hparts] at hv
  | some parts =>
    obtain ⟨name, side, x⟩ := parts
    have hname : IsPlainName name := hnames name (mem_fields_of_comparison? hparts)
    simp only [hparts] at hv
    split at hv
    · rename_i hlower
      have hvalue : x.value? b = some v := by simpa using hv
      refine ⟨_, rfl, ?_⟩
      simp only [Option.map_some, Comparand.bind_of_value? hvalue, Comparand.text]
      exact (fails_clause hname hlower hplain).group
    · simp at hv

/-- The left side is read first, so a right side that cannot be read counts where the left one has a
meaning. -/
theorem unreadable_join {word : String} {make : List Node → Node} (hjoins : Joins word.toList make)
    {l r : Expression} {b : Bindings} {levels : Option Nat} {truth : Document → Option Bool}
    (hmeans : (∀ v ∈ l.lowerEnds b, v.plain ≠ "") → Means (fragment? (l.bind b)) levels truth)
    (hl : (∃ v ∈ l.lowerEnds b, v.plain = "") → Unreadable (fragment? (l.bind b)))
    (hr : (∃ v ∈ r.lowerEnds b, v.plain = "") → Unreadable (fragment? (r.bind b)))
    (hempty : ∃ v ∈ l.lowerEnds b ++ r.lowerEnds b, v.plain = "") :
    Unreadable (joinSides word (fragment? (l.bind b)) (fragment? (r.bind b))) := by
  by_cases hleft : ∃ v ∈ l.lowerEnds b, v.plain = ""
  · exact (hl hleft).join_left hjoins _
  · have hright : ∃ v ∈ r.lowerEnds b, v.plain = "" := by
      obtain ⟨v, hv, hplain⟩ := hempty
      obtain hv | hv := List.mem_append.1 hv
      · exact absurd ⟨v, hv, hplain⟩ hleft
      · exact ⟨v, hv, hplain⟩
    exact .join_right hjoins (hmeans fun v hv hplain => hleft ⟨v, hv, hplain⟩) (hr hright)

/-- With an empty text at the lower end of some range, the fragment cannot be read. -/
theorem unreadable_fragment? {b : Bindings} (e : Expression)
    (hnames : ∀ name ∈ e.fields, IsPlainName name)
    (hbound : ∀ id ∈ e.slots, ∃ v, b.get? id = some v)
    (hstars : ∀ v ∈ e.rangeValues b, v.plain ≠ "*")
    (hempty : ∃ v ∈ e.lowerEnds b, v.plain = "") : Unreadable (fragment? (e.bind b)) := by
  match e with
  | .and l r =>
    simp only [fields, slots, rangeValues, List.forall_mem_append] at hnames hbound hstars
    exact unreadable_join joins_and (means_fragment?_of_ends b l hnames.1 hbound.1 hstars.1)
      (unreadable_fragment? l hnames.1 hbound.1 hstars.1)
      (unreadable_fragment? r hnames.2 hbound.2 hstars.2) hempty
  | .or l r =>
    simp only [fields, slots, rangeValues, List.forall_mem_append] at hnames hbound hstars
    exact unreadable_join joins_or (means_fragment?_of_ends b l hnames.1 hbound.1 hstars.1)
      (unreadable_fragment? l hnames.1 hbound.1 hstars.1)
      (unreadable_fragment? r hnames.2 hbound.2 hstars.2) hempty
  | .not x =>
    obtain ⟨f, hf, hfails⟩ := unreadable_fragment? x hnames hbound hstars hempty
    refine ⟨f.wrap "NOT (" ")", by simp [Expression.bind, fragment?, hf], ?_⟩
    exact hfails.group.not
  | .compare op l r => exact unreadable_compare hnames hempty
  | .isNull .. | .isIn .. | .constant .. | .variable .. | .field .. | .math .. | .call .. =>
    simp [lowerEnds] at hempty

/-! ## Conditions that are read -/

/-- A compiled condition resolves when its placeholders have values.  If the text is a query, it
holds of a document exactly when the condition does by its direct reading. -/
theorem holds_of_parse_resolve (e : Expression) (b : Bindings)
    (hnames : ∀ name ∈ e.fields, IsPlainName name) (hids : ∀ id ∈ e.slotIds, IsPlainName id)
    (hbound : ∀ id ∈ (compile e).placeholders, b.contains id = true)
    (hfree : e.captures (compile e).placeholders = false)
    (hstars : ∀ v ∈ e.rangeValues b, v.plain ≠ "*") :
    ∃ text, (compile e).resolve b = .ok text ∧
      ∀ node, parse text = .ok node → ∀ d, node.holds d = (e.reading b d).getD true := by
  refine ⟨_, resolve_of_captures hnames hids hbound hfree, fun node hnode d => ?_⟩
  have hslots := exists_get?_of_slots hbound
  by_cases hempty : ∃ v ∈ e.lowerEnds b, v.plain = ""
  · obtain ⟨f, hf, hfails⟩ := unreadable_fragment? e hnames hslots hstars hempty
    rw [hf] at hnode
    exact absurd hnode (hfails.parse_ne_ok node)
  · have hmeans := means_fragment?_of_ends b e hnames hslots hstars
      fun v hv hplain => hempty ⟨v, hv, hplain⟩
    obtain ⟨meant, hread, htruth⟩ := hmeans.exists_node
    obtain rfl : node = meant := hread.eq_of_parse hnode
    exact htruth d

end SearchTable.Condition
