import SearchTable.Proofs.Query.Trees
/-!
# Reading with a counter

Nesting is limited in two ways that come to the same.  `readOperand` is given the number of operands
that may still stand around one another, and it recurses on that number.  The reader here has one
counter instead, beside the characters ahead: an operand adds one to it, fails above `maxDepth`, and
takes one away when it has been read (`enclosed`).  The limit is the only thing that stops it from
recursing, so it carries fuel, and a run that has used up its fuel has no result.

`Keeps` says what a step does to the counter, and `Tracks` that a step reads what one of the steps
of `Query` reads.  Both hold of every run, by induction on the fuel (`keeps_operand`,
`tracks_operand`).  More fuel than there are characters is enough: an operand takes a character
before it reads another one, and so does a keyword.
-/

namespace SearchTable.Query

/-- Where a reader that counts stands: the characters ahead, and the operands it is in. -/
structure Stand where
  ahead : List Char
  depth : Nat

/-- A reader that counts.  There is no result when the fuel is used up. -/
def Counting (α : Type) := Stand → Option (Except Halt (α × Stand))

namespace Counting

instance : Monad Counting where
  pure a := fun s => some (.ok (a, s))
  bind x f := fun s =>
    match x s with
    | none => none
    | some (.error h) => some (.error h)
    | some (.ok (a, s')) => f a s'

/-! ## Readers -/

/-- The fuel is used up. -/
def outOfFuel {α : Type} : Counting α := fun _ => none

/-- Stops in front of the characters ahead. -/
def stop {α : Type} (fault : SyntaxFault) : Counting α := fun s => some (halt fault s.ahead)

/-- Takes a step on the characters ahead. -/
def run {α : Type} (step : Step α) : Counting α := fun s =>
  some ((step s.ahead).map fun (a, rest) => (a, { s with ahead := rest }))

/-- The next character. -/
def peek : Counting (Option Char) := run fun cs => .ok (cs.head?, cs)

/-- Passes one character. -/
def pass : Counting Unit := run fun cs => .ok ((), cs.tail)

/-- Passes blanks. -/
def passBlanks : Counting Unit := run fun cs => .ok ((), skipBlank cs)

/-- Passes blanks and then one given character. -/
def passExpected (c : Char) : Counting Unit := run fun cs =>
  (expect c cs).map fun rest => ((), rest)

/-- Passes blanks and then a keyword, if there is one. -/
def takeKeyword (word : List Char) : Counting Bool := run fun cs =>
  let cs := skipBlank cs
  match keyword word cs with
  | some rest => .ok (true, rest)
  | none => .ok (false, cs)

/-- Counts an operand in, and fails when there are too many around one another. -/
def enter : Counting Unit := fun s =>
  if maxDepth < s.depth + 1 then some (halt .nestedTooDeeply s.ahead)
  else some (.ok ((), { s with depth := s.depth + 1 }))

/-- Counts an operand out. -/
def leave : Counting Unit := fun s => some (.ok ((), { s with depth := s.depth - 1 }))

/-- Counts an operand while it is read. -/
def enclosed {α : Type} (x : Counting α) : Counting α := do
  enter
  let a ← x
  leave
  return a

/-- Operands with a keyword between them. -/
def chainFrom (word : List Char) (x : Counting Node) : Nat → Counting (List Node)
  | 0 => outOfFuel
  | fuel + 1 => do
    let first ← x
    let more ← takeKeyword word
    if more then
      let others ← chainFrom word x fuel
      return first :: others
    else return [first]

/-- Operands with a keyword between them, combined into one node. -/
def chain (word : String) (make : List Node → Node) (x : Counting Node) (fuel : Nat) :
    Counting Node := do
  let nodes ← chainFrom word.toList x fuel
  return combine make nodes

/-- A disjunction of conjunctions of operands. -/
def disjunction (x : Counting Node) (fuel : Nat) : Counting Node :=
  chain "OR" .or (chain "AND" .and x fuel) fuel

/-- What stands in an operand: a negated operand, a disjunction in parentheses, or a clause. -/
def operandBody (x inner : Counting Node) : Counting Node := do
  let negated ← takeKeyword "NOT".toList
  if negated then
    let node ← x
    return .not node
  else
    let next ← peek
    match next with
    | none => stop .unexpectedEnd
    | some c =>
      if c = '-' ∨ c = '!' then do
        pass
        let node ← x
        return .not node
      else if c = '(' then do
        pass
        let node ← inner
        passExpected ')'
        return node
      else run readClause

/-- An operand. -/
def operand : Nat → Counting Node
  | 0 => outOfFuel
  | fuel + 1 => enclosed (operandBody (operand fuel) (disjunction (operand fuel) fuel))

/-- A whole text. -/
def whole (fuel : Nat) : Counting Node := do
  let node ← disjunction (operand fuel) fuel
  passBlanks
  let next ← peek
  if next.isSome then stop .trailingInput else return node

/-- The query a text denotes, read with a counter. -/
def parse (fuel : Nat) (text : String) : Option (Except StoreError Node) :=
  if maxLength < text.utf8ByteSize then some (.error (.compile (.query .tooLong)))
  else
    match whole fuel ⟨text.toList, 0⟩ with
    | none => none
    | some (.ok (node, _)) => some (.ok node)
    | some (.error h) =>
      some (.error (.compile (.query (.syntaxFault (text.length - h.remaining) h.fault))))

/-! ## What steps keep -/

variable {α β : Type} {x : Counting α} {f : α → Counting β} {s : Stand}

theorem bind_eq_ok_iff {b : β} {s'' : Stand} :
    (x >>= f) s = some (.ok (b, s'')) ↔
      ∃ a s', x s = some (.ok (a, s')) ∧ f a s' = some (.ok (b, s'')) := by
  simp only [bind]
  rcases x s with _ | _ | ⟨a, s'⟩ <;> simp

/-- Success leaves the counter as it was, and an end of the characters ahead. -/
def Keeps (x : Counting α) : Prop :=
  ∀ s a s', x s = some (.ok (a, s')) → s'.depth = s.depth ∧ s'.ahead <:+ s.ahead

theorem Keeps.bind (hx : Keeps x) (hf : ∀ a, Keeps (f a)) : Keeps (x >>= f) := by
  intro s b s'' h
  obtain ⟨a, s', ha, hb⟩ := bind_eq_ok_iff.1 h
  obtain ⟨hdepth, hahead⟩ := hx _ _ _ ha
  obtain ⟨hdepth', hahead'⟩ := hf _ _ _ _ hb
  exact ⟨hdepth'.trans hdepth, hahead'.trans hahead⟩

theorem keeps_pure (a : α) : Keeps (pure a) := by
  intro s b s' h
  cases h
  exact ⟨rfl, List.suffix_refl _⟩

theorem keeps_outOfFuel : Keeps (outOfFuel : Counting α) := fun _ _ _ h => by cases h

theorem keeps_stop (fault : SyntaxFault) : Keeps (stop fault : Counting α) :=
  fun _ _ _ h => by cases h

theorem keeps_run {step : Step α} (h : ∀ cs a rest, step cs = .ok (a, rest) → rest <:+ cs) :
    Keeps (run step) := by
  intro s a s' hrun
  rw [run, Option.some.injEq] at hrun
  cases hstep : step s.ahead with
  | error e =>
    rw [hstep] at hrun
    cases hrun
  | ok p =>
    rw [hstep] at hrun
    cases hrun
    exact ⟨rfl, h _ _ _ hstep⟩

/-- The counter is back where it was when an operand has been read. -/
theorem Keeps.enclosed (hx : Keeps x) : Keeps (enclosed x) := by
  intro s a s' h
  obtain ⟨_, s₁, henter, h⟩ := bind_eq_ok_iff.1 h
  obtain ⟨_, s₂, hread, h⟩ := bind_eq_ok_iff.1 h
  obtain ⟨hdepth, hahead⟩ := hx _ _ _ hread
  cases h
  rw [enter] at henter
  split at henter
  · cases henter
  · cases henter
    exact ⟨by rw [hdepth, Nat.add_sub_cancel], hahead⟩

theorem keeps_takeKeyword (w : Char) (word : List Char) : Keeps (takeKeyword (w :: word)) :=
  keeps_run fun cs more rest h => by
    have hskip := skipBlank_suffix cs
    dsimp only at h
    split at h
    · rename_i behind hword
      cases h
      exact (keyword_isBehind hword).suffix.trans hskip
    · cases h
      exact hskip

theorem keeps_passExpected (c : Char) : Keeps (passExpected c) :=
  keeps_run fun cs _ rest h => by
    obtain ⟨behind, hread, hbehind⟩ | ⟨behind, hread, -⟩ := expect_eq c cs
    · rw [hread] at h
      cases h
      exact hbehind.suffix
    · rw [hread] at h
      cases h

theorem keeps_chain {x : Counting Node} (hx : Keeps x) {word : String} (hword : word.toList ≠ [])
    (make : List Node → Node) (fuel : Nat) : Keeps (chain word make x fuel) := by
  obtain ⟨w, tail, hw⟩ := List.exists_cons_of_ne_nil hword
  have hfrom : ∀ fuel, Keeps (chainFrom (w :: tail) x fuel) := by
    intro fuel
    induction fuel with
    | zero => exact keeps_outOfFuel
    | succ fuel ih =>
      refine hx.bind fun first => (keeps_takeKeyword w tail).bind fun more => ?_
      cases more with
      | true => exact ih.bind fun others => keeps_pure _
      | false => exact keeps_pure _
  rw [chain, hw]
  exact (hfrom fuel).bind fun nodes => keeps_pure _

theorem keeps_disjunction {x : Counting Node} (hx : Keeps x) (fuel : Nat) :
    Keeps (disjunction x fuel) :=
  keeps_chain (keeps_chain hx (by decide) _ _) (by decide) _ _

theorem keeps_operandBody {x inner : Counting Node} (hx : Keeps x) (hinner : Keeps inner) :
    Keeps (operandBody x inner) := by
  have hpass : Keeps pass := keeps_run fun cs _ rest h => by
    cases h
    exact List.tail_suffix cs
  refine (keeps_takeKeyword _ _).bind fun negated => ?_
  cases negated with
  | true => exact hx.bind fun node => keeps_pure _
  | false =>
    have hpeek : Keeps peek := keeps_run fun cs _ rest h => by
      cases h
      exact List.suffix_refl cs
    refine hpeek.bind fun next => ?_
    cases next with
    | none => exact keeps_stop _
    | some c =>
      dsimp only
      split_ifs
      · exact hpass.bind fun _ => hx.bind fun node => keeps_pure _
      · exact hpass.bind fun _ => hinner.bind fun node =>
          (keeps_passExpected ')').bind fun _ => keeps_pure _
      · refine keeps_run fun cs node rest h => ?_
        have houtcome := outcome_readClause cs
        rw [h] at houtcome
        cases houtcome with
        | read hrest _ => exact hrest.suffix

/-- Whatever the fuel, an operand that is read leaves the counter as it was. -/
theorem keeps_operand (fuel : Nat) : Keeps (operand fuel) := by
  induction fuel with
  | zero => exact keeps_outOfFuel
  | succ fuel ih => exact (keeps_operandBody ih (keeps_disjunction ih fuel)).enclosed

/-! ## What steps read -/

section Tracks

variable {y : Except Halt (α × List Char)} {g : α × List Char → Except Halt (β × List Char)}

/-- From a stand, a reader that counts gives what a step gives, and the counter is as before. -/
def Tracks (x : Counting α) (s : Stand) (y : Except Halt (α × List Char)) : Prop :=
  x s = some (y.map fun (a, rest) => (a, { s with ahead := rest }))

theorem tracks_run (step : Step α) (s : Stand) : Tracks (run step) s (step s.ahead) := rfl

theorem tracks_peek (s : Stand) : Tracks peek s (.ok (s.ahead.head?, s.ahead)) := rfl

theorem tracks_pass (c : Char) (cs : List Char) (depth : Nat) :
    Tracks pass ⟨c :: cs, depth⟩ (.ok ((), cs)) := rfl

theorem tracks_passBlanks (s : Stand) : Tracks passBlanks s (.ok ((), skipBlank s.ahead)) := rfl

theorem tracks_takeKeyword {word rest : List Char}
    (hword : keyword word (skipBlank s.ahead) = some rest) :
    Tracks (takeKeyword word) s (.ok (true, rest)) := by
  simp only [Tracks, takeKeyword, run, hword]

theorem tracks_takeKeyword_none {word : List Char}
    (hword : keyword word (skipBlank s.ahead) = none) :
    Tracks (takeKeyword word) s (.ok (false, skipBlank s.ahead)) := by
  simp only [Tracks, takeKeyword, run, hword]

theorem tracks_pure (a : α) (s : Stand) : Tracks (pure a) s (.ok (a, s.ahead)) := rfl

theorem tracks_stop (fault : SyntaxFault) (s : Stand) :
    Tracks (stop fault : Counting α) s (halt fault s.ahead) := rfl

/-- A reader whose result is known is followed by the rest. -/
theorem Tracks.next {z : Except Halt (β × List Char)} {a : α} {rest : List Char}
    (hx : Tracks x s (.ok (a, rest))) (hf : Tracks (f a) { s with ahead := rest } z) :
    Tracks (x >>= f) s z := by
  rw [Tracks] at hx hf
  simp only [Tracks, Bind.bind, hx, Except.map]
  exact hf

/-- A reader that fails is not followed by anything. -/
theorem Tracks.failed {h : Halt} (hx : Tracks x s (.error h)) :
    Tracks (x >>= f) s (.error h) := by
  rw [Tracks] at hx
  simp only [Tracks, Bind.bind, hx, Except.map]

theorem Tracks.bind (hx : Tracks x s y)
    (hf : ∀ a rest, y = .ok (a, rest) → Tracks (f a) { s with ahead := rest } (g (a, rest))) :
    Tracks (x >>= f) s (y >>= g) := by
  cases y with
  | error h => exact hx.failed
  | ok p => exact hx.next (hf p.1 p.2 rfl)

theorem Tracks.expected {c : Char} {f : Unit → Counting β}
    {g : List Char → Except Halt (β × List Char)}
    (hf : ∀ rest, Tracks (f ()) { s with ahead := rest } (g rest)) :
    Tracks (passExpected c >>= f) s (expect c s.ahead >>= g) := by
  have hread := tracks_run (fun cs => (expect c cs).map fun rest => ((), rest)) s
  cases hclose : expect c s.ahead with
  | error h =>
    rw [hclose] at hread
    exact hread.failed
  | ok rest =>
    rw [hclose] at hread
    exact hread.next (hf rest)

/-- An operand counts one more while it is read, if there is room. -/
theorem Tracks.enclosed (hroom : s.depth < maxDepth)
    (hx : Tracks x { s with depth := s.depth + 1 } y) : Tracks (enclosed x) s y := by
  have henter : enter s = some (.ok ((), { s with depth := s.depth + 1 })) :=
    if_neg (by omega)
  rw [Tracks] at hx
  simp only [Tracks, Counting.enclosed, Bind.bind, henter, hx]
  cases y <;> rfl

theorem tracks_enclosed_full (x : Counting α) (hfull : maxDepth ≤ s.depth) :
    Tracks (enclosed x) s (halt .nestedTooDeeply s.ahead) := by
  have henter : enter s = some (halt .nestedTooDeeply s.ahead) := if_pos (by omega)
  simp only [Tracks, Counting.enclosed, Bind.bind, henter, halt, Except.map]

end Tracks

/-! ## Operands and texts -/

section Operands

variable {x : Counting Node} {step : Step Node} {P : Node → Prop} {depth bound : Nat}
  (hx : ∀ cs, cs.length < bound → Tracks x ⟨cs, depth⟩ (step cs))
  (hstep : ∀ cs, Outcome P cs (step cs))

include hx hstep

/-- Operands are fewer than characters, so more fuel than that is as good as any. -/
theorem tracks_chainFrom (w : Char) (word : List Char) {fuel fuel' : Nat} {cs : List Char}
    (hfuel : cs.length < fuel) (hfuel' : cs.length < fuel') (hbound : cs.length < bound) :
    Tracks (chainFrom (w :: word) x fuel) ⟨cs, depth⟩
      (Query.chainFrom (w :: word) step fuel' cs) := by
  induction fuel generalizing fuel' cs with
  | zero => cases hfuel
  | succ fuel ih =>
    obtain ⟨fuel', rfl⟩ : ∃ n, fuel' = n + 1 := ⟨fuel' - 1, by omega⟩
    refine (hx cs hbound).bind fun first rest hread => ?_
    have houtcome := hstep cs
    rw [hread] at houtcome
    cases houtcome with
    | read hrest _ =>
      cases hword : keyword (w :: word) (skipBlank rest) with
      | none =>
        simp only [hword]
        exact (tracks_takeKeyword_none hword).next (tracks_pure _ _)
      | some behind =>
        have hbehind := ((hrest.of_suffix (skipBlank_suffix rest)).of_suffix
          (keyword_isBehind hword).suffix).length_lt
        simp only [hword]
        refine (tracks_takeKeyword hword).next ?_
        exact (ih (by omega) (by omega) (by omega)).bind fun others rest' _ => tracks_pure _ _

theorem tracks_chain {word : String} (hword : word.toList ≠ []) (make : List Node → Node)
    {fuel : Nat} {cs : List Char} (hfuel : cs.length < fuel) (hbound : cs.length < bound) :
    Tracks (chain word make x fuel) ⟨cs, depth⟩ (Query.chain word make step cs) := by
  obtain ⟨w, tail, hw⟩ := List.exists_cons_of_ne_nil hword
  rw [chain, Query.chain, hw]
  exact (tracks_chainFrom hx hstep w tail hfuel (Nat.lt_succ_self _) hbound).bind
    fun nodes rest _ => tracks_pure _ _

end Operands

theorem tracks_disjunction {x : Counting Node} {step : Step Node} {depth bound height : Nat}
    (hx : ∀ cs, cs.length < bound → Tracks x ⟨cs, depth⟩ (step cs))
    (hstep : ∀ cs, Outcome (Node.FitsUnder height) cs (step cs)) {fuel : Nat} {cs : List Char}
    (hfuel : bound ≤ fuel) (hbound : cs.length < bound) :
    Tracks (disjunction x fuel) ⟨cs, depth⟩ (readDisjunction step cs) :=
  tracks_chain (fun _ hcs => tracks_chain hx hstep (by decide) _ (by omega) hcs)
    (outcome_chain hstep (fun _ => Node.FitsUnder.and) (by decide)) (by decide) _ (by omega) hbound

/-- What stands in an operand is read behind one character at least, except for a clause. -/
theorem tracks_operandBody {x inner : Counting Node} {levels depth : Nat} {cs : List Char}
    (hx : ∀ rest, rest.length < cs.length → Tracks x ⟨rest, depth⟩ (readOperand levels rest))
    (hinner : ∀ rest, rest.length < cs.length →
      Tracks inner ⟨rest, depth⟩ (readDisjunction (readOperand levels) rest)) :
    Tracks (operandBody x inner) ⟨cs, depth⟩ (readOperand (levels + 1) cs) := by
  have hskip := skipBlank_suffix cs
  simp only [readOperand]
  cases hnot : keyword "NOT".toList (skipBlank cs) with
  | some behind =>
    have hbehind := ((keyword_isBehind hnot).in_suffix hskip).length_lt
    refine (tracks_takeKeyword hnot).next ?_
    exact (hx behind hbehind).bind fun node rest _ => tracks_pure _ _
  | none =>
    refine (tracks_takeKeyword_none hnot).next ?_
    dsimp only
    generalize skipBlank cs = tail at hskip ⊢
    refine (tracks_peek _).next ?_
    cases tail with
    | nil => exact tracks_stop _ _
    | cons c rest =>
      have hrest := (IsBehind.of_cons hskip).length_lt
      dsimp only [List.head?_cons]
      split_ifs
      · refine (tracks_pass c rest depth).next ?_
        exact (hx rest hrest).bind fun node rest' _ => tracks_pure _ _
      · refine (tracks_pass c rest depth).next ?_
        refine (hinner rest hrest).bind fun node rest' _ => ?_
        exact Tracks.expected fun rest'' => tracks_pure _ _
      · exact tracks_run _ _

/-- The operands that may still stand around one another are those that the counter leaves. -/
theorem tracks_operand {fuel : Nat} {s : Stand} (hfuel : s.ahead.length < fuel) :
    Tracks (operand fuel) s (readOperand (maxDepth - s.depth) s.ahead) := by
  induction fuel generalizing s with
  | zero => cases hfuel
  | succ fuel ih =>
    by_cases hroom : s.depth < maxDepth
    · obtain ⟨levels, hlevels⟩ : ∃ levels, maxDepth - s.depth = levels + 1 :=
        ⟨maxDepth - s.depth - 1, by omega⟩
      have hx : ∀ cs : List Char, cs.length < fuel →
          Tracks (operand fuel) ⟨cs, s.depth + 1⟩ (readOperand levels cs) := by
        intro cs hcs
        have htracks := ih (s := ⟨cs, s.depth + 1⟩) hcs
        rwa [show maxDepth - (s.depth + 1) = levels by omega] at htracks
      rw [hlevels]
      refine Tracks.enclosed hroom (tracks_operandBody (fun rest hrest => hx rest (by omega)) ?_)
      intro rest hrest
      exact tracks_disjunction hx (outcome_readOperand levels) le_rfl (by omega)
    · rw [show maxDepth - s.depth = 0 by omega]
      exact tracks_enclosed_full _ (by omega)

theorem tracks_whole {fuel : Nat} {cs : List Char} (hfuel : cs.length < fuel) :
    Tracks (whole fuel) ⟨cs, 0⟩ ((parseChars cs).map fun node => (node, [])) := by
  have hread : Tracks (disjunction (operand fuel) fuel) ⟨cs, 0⟩
      (readDisjunction (readOperand maxDepth) cs) :=
    tracks_disjunction (fun cs hcs => tracks_operand hcs)
      (outcome_readOperand maxDepth) le_rfl hfuel
  rw [parseChars]
  generalize readDisjunction (readOperand maxDepth) cs = y at hread ⊢
  cases y with
  | error h => exact hread.failed
  | ok p =>
    refine hread.next ((tracks_passBlanks _).next ((tracks_peek _).next ?_))
    simp only [Bind.bind, Except.bind]
    cases skipBlank p.2 with
    | nil => exact tracks_pure _ _
    | cons c tail => exact tracks_stop _ _

/-- More fuel than there are characters is enough, and the limits come to the same. -/
theorem parse_eq {text : String} {fuel : Nat} (hfuel : text.length < fuel) :
    parse fuel text = some (Query.parse text) := by
  have hwhole := tracks_whole ((String.length_toList (s := text)).trans_lt hfuel)
  rw [Tracks] at hwhole
  rw [parse, Query.parse]
  split
  · rfl
  · rw [hwhole]
    cases parseChars text.toList <;> rfl

end Counting

/-! ## Reading any text -/

/-- Reading a text ends, and it does not leave the text: it gives a fault at a position in the text,
or a proper query with at most 257 nodes around one another.  The counter stands for nesting and not
for width, because an operand that has been read leaves it as it was. -/
theorem parse_total (text : String) {fuel : Nat} (hfuel : text.length < fuel) :
    Counting.parse fuel text = some (parse text) ∧
      (∀ k s node s', Counting.operand k s = some (.ok (node, s')) →
        s'.depth = s.depth ∧ s'.ahead <:+ s.ahead) ∧
      ((∃ node, parse text = .ok node ∧ node.IsProper ∧ node.height ≤ 257) ∨
        parse text = .error (.compile (.query .tooLong)) ∨
        ∃ before rest fault, text.toList = before ++ rest ∧
          parse text = .error (.compile (.query (.syntaxFault before.length fault)))) := by
  refine ⟨Counting.parse_eq hfuel, Counting.keeps_operand, ?_⟩
  obtain ⟨node, hparse, hnode⟩ | hfault := parse_cases text
  · exact .inl ⟨node, hparse, hnode.isProper, Nat.le_of_lt_succ hnode.height_lt⟩
  · exact .inr hfault

/-- A negated disjunction, with three operands around it or at the start of a text. -/
theorem parse_total_negated :
    "-(a:1 OR b:2)".length < 14 ∧
      Counting.parse 14 "-(a:1 OR b:2)" = some (.ok (.not (.or [.term "a" "1", .term "b" "2"]))) ∧
      ∃ s', Counting.operand 14 ⟨"-(a:1 OR b:2)".toList, 3⟩ =
          some (.ok (.not (.or [.term "a" "1", .term "b" "2"]), s')) ∧
        s'.depth = 3 ∧ s'.ahead <:+ "-(a:1 OR b:2)".toList := by
  have hlength : "-(a:1 OR b:2)".length < 14 := by decide
  have hparse : parse "-(a:1 OR b:2)" = .ok (.not (.or [.term "a" "1", .term "b" "2"])) := by cbv
  have hoperand : Counting.operand 14 ⟨"-(a:1 OR b:2)".toList, 3⟩ =
      some (.ok (.not (.or [.term "a" "1", .term "b" "2"]), ⟨[], 3⟩)) := by cbv
  obtain ⟨hcounted, hkept, -⟩ := parse_total "-(a:1 OR b:2)" hlength
  exact ⟨hlength, hparse ▸ hcounted, _, hoperand, hkept _ _ _ _ hoperand⟩

end SearchTable.Query
