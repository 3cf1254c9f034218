import SearchTable.Proofs.Query.Operands
/-!
# The trees that reading gives

Reading takes characters from the front and never goes back, so what it leaves is an end of what it
was given, and a fault lies in front of such an end (`Outcome`).  A step that succeeds has taken a
character at least; this is why the loop over the operands of a connective ends.

The queries that come out are proper: no connective has fewer than two items, and no clause is
without a field.  They are not high either.  An operand adds one node at most for a negation and two
for a disjunction of conjunctions in parentheses, so the operands that may stand around one another
bound the height (`outcome_readOperand`), however many of them stand side by side.
-/

namespace SearchTable.Query

open Text

/-! ## Height and form -/

mutual

/-- How many nodes stand around one another in a query, a clause counting as one. -/
def Node.height : Node → Nat
  | .all => 1
  | .term .. => 1
  | .range .. => 1
  | .and items => heightOfItems items + 1
  | .or items => heightOfItems items + 1
  | .not item => item.height + 1

/-- The height of the highest of a list of queries. -/
def heightOfItems : List Node → Nat
  | [] => 0
  | n :: ns => max n.height (heightOfItems ns)

end

/-- Connectives have two items at least, and clauses name a field. -/
inductive Node.IsProper : Node → Prop
  | all : IsProper .all
  | term {field value : String} (hfield : field ≠ "") : IsProper (.term field value)
  | range {field : String} {lower upper : Option String} {lowerInclusive upperInclusive : Bool}
      (hfield : field ≠ "") : IsProper (.range field lower upper lowerInclusive upperInclusive)
  | and {items : List Node} (htwo : 2 ≤ items.length) (hitems : ∀ n ∈ items, n.IsProper) :
      IsProper (.and items)
  | or {items : List Node} (htwo : 2 ≤ items.length) (hitems : ∀ n ∈ items, n.IsProper) :
      IsProper (.or items)
  | not {item : Node} (hitem : item.IsProper) : IsProper (.not item)

theorem heightOfItems_lt {ns : List Node} {bound : Nat} (hbound : 0 < bound)
    (h : ∀ n ∈ ns, n.height < bound) : heightOfItems ns < bound := by
  induction ns with
  | nil => exact hbound
  | cons n ns ih =>
    rw [List.forall_mem_cons] at h
    exact max_lt h.1 (ih h.2)

/-- A proper query below a height. -/
structure Node.FitsUnder (bound : Nat) (n : Node) : Prop where
  isProper : n.IsProper
  height_lt : n.height < bound

namespace Node.FitsUnder

variable {bound bound' : Nat} {n : Node}

theorem mono (h : n.FitsUnder bound) (hle : bound ≤ bound') : n.FitsUnder bound' :=
  ⟨h.isProper, lt_of_lt_of_le h.height_lt hle⟩

theorem not (h : n.FitsUnder bound) : (Node.not n).FitsUnder (bound + 1) :=
  ⟨.not h.isProper, Nat.succ_lt_succ h.height_lt⟩

section Items

variable {ns : List Node} (htwo : 2 ≤ ns.length) (h : ∀ n ∈ ns, n.FitsUnder bound)

include htwo h

theorem heightOfItems_lt_of_two : heightOfItems ns < bound := by
  obtain ⟨first, hfirst⟩ := List.exists_mem_of_length_pos (l := ns) (by omega)
  have hbound := Nat.zero_lt_of_lt (h first hfirst).height_lt
  exact heightOfItems_lt hbound fun n hn => (h n hn).height_lt

theorem and : (Node.and ns).FitsUnder (bound + 1) :=
  ⟨.and htwo fun n hn => (h n hn).isProper, Nat.succ_lt_succ (heightOfItems_lt_of_two htwo h)⟩

theorem or : (Node.or ns).FitsUnder (bound + 1) :=
  ⟨.or htwo fun n hn => (h n hn).isProper, Nat.succ_lt_succ (heightOfItems_lt_of_two htwo h)⟩

end Items

end Node.FitsUnder

/-! ## Outcomes -/

/-- An end of some characters that is not the whole of them. -/
structure IsBehind (rest cs : List Char) : Prop where
  suffix : rest <:+ cs
  length_lt : rest.length < cs.length

namespace IsBehind

variable {rest rest' cs cs' : List Char} {c : Char}

theorem of_suffix (h : IsBehind rest cs) (hrest : rest' <:+ rest) : IsBehind rest' cs :=
  ⟨hrest.trans h.suffix, lt_of_le_of_lt hrest.length_le h.length_lt⟩

theorem in_suffix (h : IsBehind rest cs) (hcs : cs <:+ cs') : IsBehind rest cs' :=
  ⟨h.suffix.trans hcs, lt_of_lt_of_le h.length_lt hcs.length_le⟩

theorem of_cons (h : c :: rest <:+ cs) : IsBehind rest cs :=
  ⟨(List.suffix_cons c rest).trans h, h.length_le⟩

end IsBehind

/-- What reading comes to: a value with a property in front of fewer characters, or a fault.  Both
stand in front of an end of the characters. -/
inductive Outcome {α : Type} (P : α → Prop) (cs : List Char) :
    Except Halt (α × List Char) → Prop
  | read {a : α} {rest : List Char} (hrest : IsBehind rest cs) (ha : P a) :
      Outcome P cs (.ok (a, rest))
  | halted {fault : SyntaxFault} {rest : List Char} (hrest : rest <:+ cs) :
      Outcome P cs (halt fault rest)

namespace Outcome

variable {α β : Type} {P : α → Prop} {Q : β → Prop} {cs rest : List Char}
  {x : Except Halt (α × List Char)}

/-- What is left of an end of the characters is an end of the characters. -/
theorem of_suffix (h : Outcome P rest x) (hrest : rest <:+ cs) : Outcome P cs x := by
  cases h with
  | read hrest' ha => exact .read (hrest'.in_suffix hrest) ha
  | halted hrest' => exact .halted (hrest'.trans hrest)

theorem mono {Q : α → Prop} (h : Outcome P cs x) (hPQ : ∀ a, P a → Q a) : Outcome Q cs x := by
  cases h with
  | read hrest ha => exact .read hrest (hPQ _ ha)
  | halted hrest => exact .halted hrest

theorem bind {f : α × List Char → Except Halt (β × List Char)} (h : Outcome P cs x)
    (hf : ∀ a rest, IsBehind rest cs → P a → Outcome Q cs (f (a, rest))) :
    Outcome Q cs (x >>= f) := by
  cases h with
  | read hrest ha => exact hf _ _ hrest ha
  | halted hrest => exact .halted hrest

end Outcome

/-! ## Steps -/

theorem skipBlank_suffix (cs : List Char) : skipBlank cs <:+ cs := List.dropWhile_suffix _

/-- Behind a keyword fewer characters are left. -/
theorem keyword_isBehind {w : Char} {word cs rest : List Char}
    (h : keyword (w :: word) cs = some rest) : IsBehind rest cs := by
  obtain ⟨hword, -⟩ := Option.filter_eq_some_iff.1 h
  have hcs := afterWord_eq_some hword
  refine ⟨⟨w :: word, hcs.symm⟩, ?_⟩
  rw [hcs, List.length_append, List.length_cons]
  omega

theorem expect_eq (c : Char) (cs : List Char) :
    (∃ rest, expect c cs = .ok rest ∧ IsBehind rest cs) ∨
      ∃ rest, expect c cs = halt (.expected c) rest ∧ rest <:+ cs := by
  have hskip := skipBlank_suffix cs
  rw [expect]
  cases hcs : skipBlank cs with
  | nil => exact .inr ⟨[], rfl, List.nil_suffix⟩
  | cons d rest =>
    rw [hcs] at hskip
    by_cases hd : d = c
    · exact .inl ⟨rest, if_pos hd, .of_cons hskip⟩
    · exact .inr ⟨d :: rest, if_neg hd, hskip⟩

theorem Outcome.expected {α : Type} {P : α → Prop} {c : Char} {cs whole : List Char}
    {g : List Char → Except Halt (α × List Char)} (hcs : cs <:+ whole)
    (hg : ∀ rest, IsBehind rest whole → Outcome P whole (g rest)) :
    Outcome P whole (expect c cs >>= g) := by
  obtain ⟨rest, hread, hrest⟩ | ⟨rest, hread, hrest⟩ := expect_eq c cs
  · rw [hread]
    exact hg rest (hrest.in_suffix hcs)
  · rw [hread]
    exact .halted (hrest.trans hcs)

theorem readUntil_suffix (stop : Char → Bool) (cs : List Char) :
    (readUntil stop cs).2 <:+ cs := by
  fun_induction readUntil stop cs with
  | case1 => exact List.suffix_refl _
  | case2 c cs run rest hread ih =>
    rw [hread] at ih
    exact ih.trans ((List.suffix_cons c cs).trans (List.suffix_cons '\\' _))
  | case3 => exact List.suffix_refl _
  | case4 c cs _ _ run rest hread ih =>
    rw [hread] at ih
    exact ih.trans (List.suffix_cons c cs)

theorem readUntil_length_le (stop : Char → Bool) (cs : List Char) :
    (readUntil stop cs).1.length + (readUntil stop cs).2.length ≤ cs.length := by
  fun_induction readUntil stop cs with
  | case1 => rfl
  | case2 c cs run rest hread ih | case4 c cs _ _ run rest hread ih =>
    rw [hread] at ih
    simp only [List.length_cons] at ih ⊢
    omega
  | case3 c cs => exact (Nat.zero_add _).le

/-- A run that is not empty has taken characters. -/
theorem readUntil_isBehind {stop : Char → Bool} {cs : List Char}
    (h : (readUntil stop cs).1 ≠ []) : IsBehind (readUntil stop cs).2 cs := by
  have hlength := readUntil_length_le stop cs
  have hrun := List.length_pos_of_ne_nil h
  exact ⟨readUntil_suffix stop cs, by omega⟩

/-! ## Clauses -/

section Clauses

variable {field cs whole : List Char} (hfield : field ≠ [])

include hfield

theorem ofList_ne_empty : String.ofList field ≠ "" := fun h =>
  hfield (by simpa using congrArg String.toList h)

theorem fitsUnder_term (value : String) : (Node.term (String.ofList field) value).FitsUnder 2 :=
  ⟨.term (ofList_ne_empty hfield), Nat.one_lt_two⟩

theorem fitsUnder_range (lower upper : Option String) (lowerInclusive upperInclusive : Bool) :
    (Node.range (String.ofList field) lower upper lowerInclusive upperInclusive).FitsUnder 2 :=
  ⟨.range (ofList_ne_empty hfield), Nat.one_lt_two⟩

variable (hcs : IsBehind cs whole)

include hcs

theorem outcome_readQuoted : Outcome (Node.FitsUnder 2) whole (readQuoted field cs) := by
  have hvalue := hcs.of_suffix (readUntil_suffix (· == '"') cs)
  rw [readQuoted]
  exact .expected hvalue.suffix fun rest hrest => .read hrest (fitsUnder_term hfield _)

theorem outcome_readRange (lowerInclusive : Bool) :
    Outcome (Node.FitsUnder 2) whole (readRange field lowerInclusive cs) := by
  have hlower := (hcs.of_suffix (skipBlank_suffix cs)).of_suffix (readUntil_suffix isBlank _)
  have hword := hlower.of_suffix (skipBlank_suffix _)
  simp only [readRange]
  cases hto : keyword "TO".toList (skipBlank (readUntil isBlank (skipBlank cs)).2) with
  | none => exact .halted hword.suffix
  | some behind =>
    have hupper := ((hword.of_suffix (keyword_isBehind hto).suffix).of_suffix
      (skipBlank_suffix behind)).of_suffix (readUntil_suffix endsUpper _)
    have hclose := hupper.of_suffix (skipBlank_suffix _)
    dsimp only
    generalize skipBlank (readUntil endsUpper (skipBlank behind)).2 = tail at hclose ⊢
    split
    · exact .read (hclose.of_suffix (List.suffix_cons _ _)) (fitsUnder_range hfield _ _ _ _)
    · exact .read (hclose.of_suffix (List.suffix_cons _ _)) (fitsUnder_range hfield _ _ _ _)
    · exact .halted hclose.suffix

theorem outcome_readBare : Outcome (Node.FitsUnder 2) whole (readBare field cs) := by
  have hvalue := hcs.of_suffix (readUntil_suffix endsValue cs)
  simp only [readBare]
  split
  · exact .read hvalue ⟨.all, Nat.one_lt_two⟩
  · split
    · exact .halted hvalue.suffix
    · exact .read hvalue (fitsUnder_term hfield _)

end Clauses

/-- A clause names a field, and it takes characters. -/
theorem outcome_readClause (cs : List Char) :
    Outcome (Node.FitsUnder 2) cs (readClause cs) := by
  simp only [readClause]
  split
  · exact .halted (readUntil_suffix endsField cs)
  · rename_i hempty
    have hfield : (readUntil endsField cs).1 ≠ [] := by simpa using hempty
    have hname := readUntil_isBehind hfield
    refine .expected hname.suffix fun rest hrest => ?_
    split
    · exact outcome_readQuoted hfield (hrest.of_suffix (List.suffix_cons _ _))
    · exact outcome_readRange hfield (hrest.of_suffix (List.suffix_cons _ _)) true
    · exact outcome_readRange hfield (hrest.of_suffix (List.suffix_cons _ _)) false
    · exact outcome_readBare hfield hrest

/-! ## Operators -/

section Chains

variable {operand : Step Node} {P : Node → Prop} (hoperand : ∀ cs, Outcome P cs (operand cs))

include hoperand

theorem outcome_chainFrom (w : Char) (word : List Char) (fuel : Nat) (cs : List Char) :
    Outcome (fun ns => ns ≠ [] ∧ ∀ n ∈ ns, P n) cs (chainFrom (w :: word) operand fuel cs) := by
  induction fuel generalizing cs with
  | zero => exact .halted (List.suffix_refl cs)
  | succ fuel ih =>
    refine (hoperand cs).bind fun first rest hrest hfirst => ?_
    have htail := hrest.of_suffix (skipBlank_suffix rest)
    dsimp only
    split
    · exact .read htail ⟨by simp, by simpa using hfirst⟩
    · rename_i behind hword
      have hbehind := htail.of_suffix (keyword_isBehind hword).suffix
      refine ((ih behind).of_suffix hbehind.suffix).bind fun others rest' hrest' hothers => ?_
      exact .read hrest' ⟨by simp, List.forall_mem_cons.2 ⟨hfirst, hothers.2⟩⟩

end Chains

section Operators

variable {operand : Step Node} {bound : Nat}

/-- Combining adds one node at most, and only around two items or more. -/
theorem fitsUnder_combine {make : List Node → Node} {ns : List Node}
    (hmake : ∀ ns : List Node, 2 ≤ ns.length → (∀ n ∈ ns, n.FitsUnder bound) →
      (make ns).FitsUnder (bound + 1))
    (hne : ns ≠ []) (h : ∀ n ∈ ns, n.FitsUnder bound) :
    (combine make ns).FitsUnder (bound + 1) := by
  match ns with
  | [] => exact absurd rfl hne
  | [n] => exact (h n List.mem_cons_self).mono bound.le_succ
  | n :: m :: ns => exact hmake _ (by simp) h

variable (hoperand : ∀ cs, Outcome (Node.FitsUnder bound) cs (operand cs))

include hoperand

theorem outcome_chain {make : List Node → Node}
    (hmake : ∀ ns : List Node, 2 ≤ ns.length → (∀ n ∈ ns, n.FitsUnder bound) →
      (make ns).FitsUnder (bound + 1))
    {word : String} (hword : word.toList ≠ []) (cs : List Char) :
    Outcome (Node.FitsUnder (bound + 1)) cs (chain word make operand cs) := by
  obtain ⟨w, tail, hw⟩ := List.exists_cons_of_ne_nil hword
  rw [chain, hw]
  refine (outcome_chainFrom hoperand w tail _ cs).bind fun ns rest hrest hns => ?_
  exact .read hrest (fitsUnder_combine hmake hns.1 hns.2)

theorem outcome_readDisjunction (cs : List Char) :
    Outcome (Node.FitsUnder (bound + 2)) cs (readDisjunction operand cs) := by
  have hconj : ∀ cs, Outcome (Node.FitsUnder (bound + 1)) cs (chain "AND" .and operand cs) :=
    outcome_chain hoperand (fun _ => Node.FitsUnder.and) (by decide)
  exact outcome_chain hconj (fun _ => Node.FitsUnder.or) (by decide) cs

end Operators

/-! ## Operands and texts -/

/-- Each operand that may stand around adds two nodes at most: a negation adds one, parentheses a
disjunction and a conjunction. -/
theorem outcome_readOperand (levels : Nat) (cs : List Char) :
    Outcome (Node.FitsUnder (2 * levels)) cs (readOperand levels cs) := by
  induction levels generalizing cs with
  | zero => exact .halted (List.suffix_refl cs)
  | succ levels ih =>
    have hnegated : ∀ {behind tail : List Char}, IsBehind behind tail →
        Outcome (Node.FitsUnder (2 * (levels + 1))) tail
          (readOperand levels behind >>= fun p => .ok (.not p.1, p.2)) :=
      fun hbehind => ((ih _).of_suffix hbehind.suffix).bind fun node rest hrest hnode =>
        .read hrest (hnode.not.mono (by omega))
    refine Outcome.of_suffix ?_ (skipBlank_suffix cs)
    simp only [readOperand]
    generalize skipBlank cs = tail
    cases hnot : keyword "NOT".toList tail with
    | some behind => exact hnegated (keyword_isBehind hnot)
    | none =>
      cases tail with
      | nil => exact .halted (List.suffix_refl [])
      | cons c rest =>
        have hrest : IsBehind rest (c :: rest) := .of_cons (List.suffix_refl _)
        dsimp only
        split
        · exact hnegated hrest
        · split
          · refine ((outcome_readDisjunction ih rest).of_suffix hrest.suffix).bind
              fun node inner hinner hnode => ?_
            exact .expected hinner.suffix fun behind hbehind => .read hbehind hnode
          · exact (outcome_readClause (c :: rest)).mono fun n hn => hn.mono (by omega)

/-- A whole text is a query below a height that the limit on nesting gives, or it has a fault in
front of an end of it. -/
theorem parseChars_cases (cs : List Char) :
    (∃ node, parseChars cs = .ok node ∧ node.FitsUnder (2 * maxDepth + 2)) ∨
      ∃ fault rest, parseChars cs = halt fault rest ∧ rest <:+ cs := by
  have houtcome := outcome_readDisjunction (outcome_readOperand maxDepth) cs
  rw [parseChars]
  generalize readDisjunction (readOperand maxDepth) cs = x at houtcome
  cases houtcome with
  | halted hrest => exact .inr ⟨_, _, rfl, hrest⟩
  | @read node rest hrest hnode =>
    have hskip := (hrest.of_suffix (skipBlank_suffix rest)).suffix
    simp only [bind, Except.bind]
    generalize skipBlank rest = tail at hskip ⊢
    cases tail with
    | nil => exact .inl ⟨node, rfl, hnode⟩
    | cons c tail => exact .inr ⟨_, _, rfl, hskip⟩

/-- The position of a fault is the number of characters in front of it, so it lies in the text. -/
theorem parse_cases (text : String) :
    (∃ node, parse text = .ok node ∧ node.FitsUnder (2 * maxDepth + 2)) ∨
      parse text = .error (.compile (.query .tooLong)) ∨
      ∃ before rest fault, text.toList = before ++ rest ∧
        parse text = .error (.compile (.query (.syntaxFault before.length fault))) := by
  rw [parse]
  split
  · exact .inr (.inl rfl)
  · obtain ⟨node, hparse, hnode⟩ | ⟨fault, rest, hparse, before, htext⟩ :=
      parseChars_cases text.toList
    · exact .inl ⟨node, by rw [hparse], hnode⟩
    · have hlength : text.length - rest.length = before.length := by
        rw [← String.length_toList, ← htext, List.length_append, Nat.add_sub_cancel]
      exact .inr (.inr ⟨before, rest, fault, htext.symm, by rw [← hlength, hparse]; rfl⟩)

end SearchTable.Query
