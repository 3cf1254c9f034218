import SearchTable.Proofs.Query.Literals
/-!
# What reading makes of operands

`ReadsAs text levels node` says that the reader of queries takes `text` as one operand, gives `node`
for it, and needs `levels` operands around one another to do so; with fewer levels left it fails
because the query is nested too deeply, and for no other reason.  Behind the text there may be
anything that ends a bare value: a blank, a closing parenthesis, or nothing.

There is one lemma for each form of an operand that is made of operands: signs (`ReadsAs.sign`),
negations (`ReadsAs.not`) and parentheses around one operand or two (`ReadsAs.group`,
`ReadsAs.groupTwo`).  `Joins` says what stands between two of them.
-/

namespace SearchTable.Text

theorem afterWord_eq_some {word cs rest : List Char} (h : afterWord word cs = some rest) :
    cs = word ++ rest := by
  induction word generalizing cs with
  | nil => simpa [afterWord] using h
  | cons w word ih =>
    cases cs with
    | nil => simp [afterWord] at h
    | cons c cs =>
      simp only [afterWord] at h
      split at h
      · rename_i hw
        rw [hw, ih h, List.cons_append]
      · simp at h

end SearchTable.Text

namespace SearchTable.Query

open Text

/-! ## Blanks and keywords -/

theorem skipBlank_cons {c : Char} (hc : isBlank c = false) (cs : List Char) :
    skipBlank (c :: cs) = c :: cs := by
  simp [skipBlank, hc]

theorem skipBlank_blank (cs : List Char) : skipBlank (' ' :: cs) = skipBlank cs := by
  have hblank : isBlank ' ' = true := by decide
  simp [skipBlank, hblank]

theorem keyword_and (cs : List Char) :
    keyword "AND".toList ("AND ".toList ++ cs) = some (' ' :: cs) := rfl

theorem keyword_or (cs : List Char) :
    keyword "OR".toList ("OR ".toList ++ cs) = some (' ' :: cs) := rfl

theorem keyword_not (cs : List Char) :
    keyword "NOT".toList ("NOT ".toList ++ cs) = some (' ' :: cs) := rfl

theorem keyword_to (cs : List Char) :
    keyword "TO".toList ("TO ".toList ++ cs) = some (' ' :: cs) := rfl

theorem keyword_of_head_ne {w c : Char} (h : w ≠ c) (word cs : List Char) :
    keyword (w :: word) (c :: cs) = none := by
  simp [keyword, afterWord, h]

/-- A keyword is not read off the front of a longer word or of a field name. -/
theorem keyword_of_name {word p : List Char} (hp : ∀ c ∈ p, isWordChar c = true)
    (hword : ':' ∉ word) (cs : List Char) : keyword word (p ++ ':' :: cs) = none := by
  rw [keyword]
  cases hafter : afterWord word (p ++ ':' :: cs) with
  | none => rfl
  | some rest =>
    have hends : endsKeyword rest = false := by
      obtain ⟨t, rfl, hrest⟩ | ⟨t, rfl, hrest⟩ := List.append_eq_append_iff.1 (afterWord_eq_some hafter)
      · cases t with
        | nil =>
          obtain rfl : ':' :: cs = rest := hrest
          rfl
        | cons c t =>
          obtain ⟨rfl, -⟩ := List.cons.inj hrest
          exact absurd (by simp) hword
      · cases t with
        | nil =>
          obtain rfl : rest = ':' :: cs := hrest
          rfl
        | cons c t =>
          obtain rfl : rest = c :: (t ++ ':' :: cs) := hrest
          have hc : isWordChar c = true := hp c (by simp)
          have hparen : c ≠ '(' := by
            rintro rfl
            exact absurd hc (by decide)
          simp [endsKeyword, isBlank_eq_false_of_isWordChar hc, hparen]
    simp [Option.filter, hends]

/-! ## Chains -/

variable {operand : Step Node} {word : List Char} {make : List Node → Node}

theorem chainFrom_error {cs : List Char} {h : Halt} (herror : operand cs = .error h) (fuel : Nat) :
    chainFrom word operand (fuel + 1) cs = .error h := by
  simp [chainFrom, herror, bind, Except.bind]

theorem chainFrom_last {cs rest tail : List Char} {n : Node} (hread : operand cs = .ok (n, rest))
    (hskip : skipBlank rest = tail) (hword : keyword word tail = none) (fuel : Nat) :
    chainFrom word operand (fuel + 1) cs = .ok ([n], tail) := by
  simp [chainFrom, hread, hskip, hword, bind, Except.bind]

theorem chainFrom_next {cs rest tail behind : List Char} {n : Node}
    (hread : operand cs = .ok (n, rest)) (hskip : skipBlank rest = tail)
    (hword : keyword word tail = some behind) (fuel : Nat) :
    chainFrom word operand (fuel + 1) cs =
      (chainFrom word operand fuel behind).map fun (ns, cs) => (n :: ns, cs) := by
  simp only [chainFrom, hread, hskip, hword, bind, Except.bind]
  cases chainFrom word operand fuel behind <;> rfl

theorem chain_error {cs : List Char} {h : Halt} (herror : operand cs = .error h) (word : String) :
    chain word make operand cs = .error h := by
  simp [chain, chainFrom_error herror, bind, Except.bind]

theorem chain_one {word : String} {cs rest tail : List Char} {n : Node}
    (hread : operand cs = .ok (n, rest)) (hskip : skipBlank rest = tail)
    (hword : keyword word.toList tail = none) : chain word make operand cs = .ok (n, tail) := by
  simp [chain, chainFrom_last hread hskip hword, combine, bind, Except.bind]

section Two

variable {word : String} {cs rest tail behind : List Char} {n : Node} (hcs : cs ≠ [])
  (hread : operand cs = .ok (n, rest)) (hskip : skipBlank rest = tail)
  (hword : keyword word.toList tail = some behind)

include hcs hread hskip hword

theorem chain_two {rest' tail' : List Char} {m : Node} (hread' : operand behind = .ok (m, rest'))
    (hskip' : skipBlank rest' = tail') (hword' : keyword word.toList tail' = none) :
    chain word make operand cs = .ok (make [n, m], tail') := by
  obtain ⟨c, cs, rfl⟩ := List.exists_cons_of_ne_nil hcs
  simp [chain, chainFrom_next hread hskip hword, chainFrom_last hread' hskip' hword', combine, bind,
    Except.bind, Except.map]

theorem chain_second_error {h : Halt} (herror : operand behind = .error h) :
    chain word make operand cs = .error h := by
  obtain ⟨c, cs, rfl⟩ := List.exists_cons_of_ne_nil hcs
  simp [chain, chainFrom_next hread hskip hword, chainFrom_error herror, bind, Except.bind,
    Except.map]

end Two

/-! ## Disjunctions -/

/-- What may follow a disjunction: a closing parenthesis, or nothing. -/
def Closes : List Char → Prop
  | [] => True
  | c :: _ => c = ')'

theorem Closes.skipBlank_eq {rest : List Char} (h : Closes rest) : skipBlank rest = rest := by
  cases rest with
  | nil => rfl
  | cons c rest =>
    obtain rfl : c = ')' := h
    exact skipBlank_cons (by decide) rest

theorem Closes.keyword_eq {rest : List Char} (h : Closes rest) {w : Char} (hw : w ≠ ')')
    (word : List Char) : keyword (w :: word) rest = none := by
  cases rest with
  | nil => rfl
  | cons c rest =>
    obtain rfl : c = ')' := h
    exact keyword_of_head_ne hw word rest

theorem skipBlank_and (cs : List Char) :
    skipBlank (" AND ".toList ++ cs) = "AND ".toList ++ cs :=
  (skipBlank_blank _).trans (skipBlank_cons (by decide) _)

theorem skipBlank_or (cs : List Char) : skipBlank (" OR ".toList ++ cs) = "OR ".toList ++ cs :=
  (skipBlank_blank _).trans (skipBlank_cons (by decide) _)

theorem readDisjunction_error {cs : List Char} {h : Halt} (herror : operand cs = .error h) :
    readDisjunction operand cs = .error h :=
  chain_error (chain_error herror "AND") "OR"

theorem readDisjunction_one {cs rest : List Char} {n : Node} (hread : operand cs = .ok (n, rest))
    (hrest : Closes rest) : readDisjunction operand cs = .ok (n, rest) := by
  have hconj : chain "AND" .and operand cs = .ok (n, rest) :=
    chain_one hread hrest.skipBlank_eq (hrest.keyword_eq (by decide) _)
  exact chain_one hconj hrest.skipBlank_eq (hrest.keyword_eq (by decide) _)

/-! ## Operands -/

/-- What may follow an operand: whatever ends a bare value. -/
def Stops (rest : List Char) : Prop := ∀ c ∈ rest.head?, endsValue c = true

theorem stops_cons {c : Char} (hc : endsValue c = true) (rest : List Char) : Stops (c :: rest) := by
  simpa [Stops] using hc

/-- Two operands with the text between them, in front of whatever closes them, are read as one
node. -/
structure Joins (between : List Char) (make : List Node → Node) : Prop where
  stops : ∀ rest, Stops (between ++ rest)
  read : ∀ {operand : Step Node} {cs behind rest : List Char} {n m : Node}, cs ≠ [] →
    operand cs = .ok (n, between ++ behind) → operand (' ' :: behind) = .ok (m, rest) →
      Closes rest → readDisjunction operand cs = .ok (make [n, m], rest)
  error : ∀ {operand : Step Node} {cs behind : List Char} {n : Node} {h : Halt}, cs ≠ [] →
    operand cs = .ok (n, between ++ behind) → operand (' ' :: behind) = .error h →
      readDisjunction operand cs = .error h

theorem joins_and : Joins " AND ".toList .and where
  stops := stops_cons (by decide)
  read {operand cs behind rest n m} hcs hread hread' hrest := by
    have hconj : chain "AND" .and operand cs = .ok (.and [n, m], rest) :=
      chain_two hcs hread (skipBlank_and behind) (keyword_and behind) hread' hrest.skipBlank_eq
        (hrest.keyword_eq (by decide) _)
    exact chain_one hconj hrest.skipBlank_eq (hrest.keyword_eq (by decide) _)
  error hcs hread herror :=
    chain_error (chain_second_error hcs hread (skipBlank_and _) (keyword_and _) herror) "OR"

theorem joins_or : Joins " OR ".toList .or where
  stops := stops_cons (by decide)
  read {operand cs behind rest n m} hcs hread hread' hrest := by
    have hleft : chain "AND" .and operand cs = .ok (n, "OR ".toList ++ behind) :=
      chain_one hread (skipBlank_or behind) (keyword_of_head_ne (by decide) _ _)
    have hright : chain "AND" .and operand (' ' :: behind) = .ok (m, rest) :=
      chain_one hread' hrest.skipBlank_eq (hrest.keyword_eq (by decide) _)
    exact chain_two hcs hleft (skipBlank_cons (by decide) _) (keyword_or behind) hright
      hrest.skipBlank_eq (hrest.keyword_eq (by decide) _)
  error {operand cs behind n h} hcs hread herror := by
    have hleft : chain "AND" .and operand cs = .ok (n, "OR ".toList ++ behind) :=
      chain_one hread (skipBlank_or behind) (keyword_of_head_ne (by decide) _ _)
    exact chain_second_error hcs hleft (skipBlank_cons (by decide) _) (keyword_or behind)
      (chain_error herror "AND")

/-- Reading takes the text as an operand and gives the node, if `levels` operands may still stand
around one another; otherwise the query is nested too deeply. -/
structure ReadsAs (text : List Char) (levels : Nat) (node : Node) : Prop where
  ne_nil : text ≠ []
  read : ∀ {k : Nat} {rest : List Char}, Stops rest → levels ≤ k →
    readOperand k (text ++ rest) = .ok (node, rest)
  tooDeep : ∀ {k : Nat} {rest : List Char}, Stops rest → k < levels →
    ∃ remaining, readOperand k (text ++ rest) = .error ⟨.nestedTooDeeply, remaining⟩

theorem readOperand_blank (k : Nat) (cs : List Char) :
    readOperand (k + 1) (' ' :: cs) = readOperand (k + 1) cs := by
  rw [readOperand, readOperand, skipBlank_blank]

/-- A sign negates the operand behind it. -/
theorem readOperand_sign {c : Char} (hc : c = '-' ∨ c = '!') (k : Nat) (cs : List Char) :
    readOperand (k + 1) (c :: cs) = (readOperand k cs).map fun (node, cs) => (.not node, cs) := by
  have hblank : isBlank c = false := by rcases hc with rfl | rfl <;> decide
  have hne : 'N' ≠ c := by rcases hc with rfl | rfl <;> decide
  have hword : keyword "NOT".toList (c :: cs) = none := keyword_of_head_ne hne _ cs
  simp only [readOperand, skipBlank_cons hblank, hword, if_pos hc, bind, Except.bind]
  cases readOperand k cs <;> rfl

/-- `NOT` negates the operand behind it. -/
theorem readOperand_not (k : Nat) (cs : List Char) :
    readOperand (k + 1) ("NOT ".toList ++ cs) =
      (readOperand k (' ' :: cs)).map fun (node, cs) => (.not node, cs) := by
  have hskip : skipBlank ("NOT ".toList ++ cs) = "NOT ".toList ++ cs :=
    skipBlank_cons (by decide) _
  have hword := keyword_not cs
  simp only [readOperand, hskip, hword, bind, Except.bind]
  cases readOperand k (' ' :: cs) <;> rfl

/-- Parentheses stand around a disjunction. -/
theorem readOperand_paren {k : Nat} {cs rest : List Char} {n : Node}
    (hread : readDisjunction (readOperand k) cs = .ok (n, ')' :: rest)) :
    readOperand (k + 1) ('(' :: cs) = .ok (n, rest) := by
  have hword : keyword "NOT".toList ('(' :: cs) = none := keyword_of_head_ne (by decide) _ cs
  have hskip : skipBlank ('(' :: cs) = '(' :: cs := skipBlank_cons (by decide) cs
  have hclose : expect ')' (')' :: rest) = .ok rest := by
    simp [expect, skipBlank_cons (show isBlank ')' = false by decide)]
  have hsign : ¬('(' = '-' ∨ '(' = '!') := by decide
  simp only [readOperand, hskip, hword, if_neg hsign, if_pos, hread, hclose, bind, Except.bind]

theorem readOperand_paren_error {k : Nat} {cs : List Char} {h : Halt}
    (herror : readDisjunction (readOperand k) cs = .error h) :
    readOperand (k + 1) ('(' :: cs) = .error h := by
  have hword : keyword "NOT".toList ('(' :: cs) = none := keyword_of_head_ne (by decide) _ cs
  have hskip : skipBlank ('(' :: cs) = '(' :: cs := skipBlank_cons (by decide) cs
  have hsign : ¬('(' = '-' ∨ '(' = '!') := by decide
  simp only [readOperand, hskip, hword, if_neg hsign, if_pos, herror, bind, Except.bind]

namespace ReadsAs

variable {text left right : List Char} {levels levels' : Nat} {node node' : Node}

theorem levels_pos (h : ReadsAs text levels node) : 0 < levels := by
  by_contra hzero
  have hread : readOperand 0 (text ++ []) = .ok (node, []) := h.read (by simp [Stops]) (by omega)
  simp [readOperand, halt] at hread

/-- Without a level left every operand is too deep, so only the other numbers of levels count. -/
theorem of_succ (hne : text ≠ [])
    (hread : ∀ {k : Nat} {rest : List Char}, Stops rest → levels ≤ k →
      readOperand (k + 1) (text ++ rest) = .ok (node, rest))
    (hdeep : ∀ {k : Nat} {rest : List Char}, Stops rest → k < levels →
      ∃ remaining, readOperand (k + 1) (text ++ rest) = .error ⟨.nestedTooDeeply, remaining⟩) :
    ReadsAs text (levels + 1) node where
  ne_nil := hne
  read := by
    intro k rest hrest hk
    obtain ⟨k, rfl⟩ : ∃ j, k = j + 1 := ⟨k - 1, by omega⟩
    exact hread hrest (by omega)
  tooDeep := by
    intro k rest hrest hk
    cases k with
    | zero => exact ⟨(text ++ rest).length, rfl⟩
    | succ k => exact hdeep hrest (by omega)

/-- A blank in front of an operand is passed. -/
theorem blank (h : ReadsAs text levels node) : ReadsAs (' ' :: text) levels node := by
  obtain ⟨levels, rfl⟩ : ∃ j, levels = j + 1 := ⟨levels - 1, by have := h.levels_pos; omega⟩
  refine of_succ (by simp) ?_ ?_
  · intro k rest hrest hk
    rw [List.cons_append, readOperand_blank]
    exact h.read hrest (by omega)
  · intro k rest hrest hk
    rw [List.cons_append, readOperand_blank]
    exact h.tooDeep hrest (by omega)

theorem sign (h : ReadsAs text levels node) {c : Char} (hc : c = '-' ∨ c = '!') :
    ReadsAs (c :: text) (levels + 1) (.not node) := by
  refine of_succ (by simp) ?_ ?_
  · intro k rest hrest hk
    rw [List.cons_append, readOperand_sign hc, h.read hrest hk]
    rfl
  · intro k rest hrest hk
    obtain ⟨remaining, herror⟩ := h.tooDeep hrest hk
    exact ⟨remaining, by rw [List.cons_append, readOperand_sign hc, herror]; rfl⟩

theorem not (h : ReadsAs text levels node) :
    ReadsAs ("NOT ".toList ++ text) (levels + 1) (.not node) := by
  refine of_succ (by simp) ?_ ?_
  · intro k rest hrest hk
    rw [List.append_assoc, readOperand_not]
    exact congrArg _ (h.blank.read hrest hk)
  · intro k rest hrest hk
    obtain ⟨remaining, herror⟩ := h.blank.tooDeep hrest hk
    refine ⟨remaining, ?_⟩
    rw [List.append_assoc, readOperand_not]
    exact congrArg _ herror

/-- Parentheses around one operand. -/
theorem group (h : ReadsAs text levels node) :
    ReadsAs ('(' :: text ++ [')']) (levels + 1) node := by
  have hstops : ∀ rest, Stops (')' :: rest) := stops_cons (by decide)
  refine of_succ (by simp) ?_ ?_
  · intro k rest _ hk
    simp only [List.cons_append, List.append_assoc, List.nil_append]
    exact readOperand_paren (readDisjunction_one (h.read (hstops rest) hk) rfl)
  · intro k rest _ hk
    obtain ⟨remaining, herror⟩ := h.tooDeep (hstops rest) hk
    refine ⟨remaining, ?_⟩
    simp only [List.cons_append, List.append_assoc, List.nil_append]
    exact readOperand_paren_error (readDisjunction_error herror)

/-- Parentheses around two operands that are joined. -/
theorem groupTwo {between : List Char} {make : List Node → Node} (hjoins : Joins between make)
    (h : ReadsAs left levels node) (h' : ReadsAs right levels' node') :
    ReadsAs ('(' :: left ++ between ++ right ++ [')']) (max levels levels' + 1)
      (make [node, node']) := by
  have hstops : ∀ rest, Stops (')' :: rest) := stops_cons (by decide)
  have hassoc : ∀ rest, '(' :: left ++ between ++ right ++ [')'] ++ rest =
      '(' :: (left ++ (between ++ (right ++ ')' :: rest))) := fun rest => by simp
  have hne : ∀ rest, left ++ rest ≠ [] := fun rest => by simp [h.ne_nil]
  refine of_succ (by simp) ?_ ?_
  · intro k rest _ hk
    rw [hassoc]
    exact readOperand_paren (hjoins.read (hne _) (h.read (hjoins.stops _) (by omega))
      (h'.blank.read (hstops rest) (by omega)) rfl)
  · intro k rest _ hk
    rw [hassoc]
    by_cases hleft : k < levels
    · obtain ⟨remaining, herror⟩ := h.tooDeep (hjoins.stops (right ++ ')' :: rest)) hleft
      exact ⟨remaining, readOperand_paren_error (readDisjunction_error herror)⟩
    · obtain ⟨remaining, herror⟩ := h'.blank.tooDeep (hstops rest) (show k < levels' by omega)
      exact ⟨remaining, readOperand_paren_error
        (hjoins.error (hne _) (h.read (hjoins.stops _) (by omega)) herror)⟩

end ReadsAs

end SearchTable.Query
