import SearchTable.Proofs.Condition.Comparisons
import SearchTable.Proofs.Query.Literals
/-!
# Putting values in place of placeholders

`Condition.substitute` looks for placeholder tokens in the whole text of a compiled condition, with
no regard to escapes and to the brackets of ranges.  This module settles what it takes for a token.

A bracket opens a token only if word characters and a closing bracket follow (`eq_of_tokenId?`).
The brackets of ranges never do, and a bracket in a literal does so in one place only: at the end of
the literal, when the bracket that closes an inclusive range follows
(`substitute_literal`, `substitute_captured`).
-/

namespace SearchTable.Text

theorem cutChars_eq_some_iff {separator : Char} {cs before after : List Char} :
    cutChars separator cs = some (before, after) ↔
      cs = before ++ separator :: after ∧ separator ∉ before := by
  induction cs generalizing before with
  | nil => simp [cutChars]
  | cons c cs ih =>
    rw [cutChars]
    split
    · rename_i hc
      subst hc
      cases before with
      | nil => simp [eq_comm]
      | cons b bs =>
        simp only [Option.some.injEq, Prod.mk.injEq, List.nil_eq, List.cons_append, List.cons.injEq,
          List.mem_cons, not_or, reduceCtorEq, false_and, false_iff]
        rintro ⟨⟨rfl, -⟩, hne, -⟩
        exact hne rfl
    · rename_i hc
      cases before with
      | nil =>
        have hne : c ≠ separator := hc
        simp [Option.map_eq_some_iff, hne]
      | cons b bs =>
        simp only [Option.map_eq_some_iff, Prod.mk.injEq, List.cons.injEq, Prod.exists,
          List.cons_append, List.mem_cons, not_or]
        constructor
        · rintro ⟨a, t, h, ⟨rfl, rfl⟩, rfl⟩
          obtain ⟨rfl, hmem⟩ := ih.1 h
          exact ⟨⟨rfl, rfl⟩, Ne.symm hc, hmem⟩
        · rintro ⟨⟨rfl, h⟩, -, hmem⟩
          exact ⟨bs, after, ih.2 ⟨h, hmem⟩, ⟨rfl, rfl⟩, rfl⟩

/-- A text starts in only one way with word characters and a character that is none. -/
theorem word_append_inj {p q r s : List Char} {x y : Char} (h : p ++ x :: r = q ++ y :: s)
    (hp : ∀ c ∈ p, isWordChar c = true) (hx : isWordChar x = false)
    (hq : ∀ c ∈ q, isWordChar c = true) (hy : isWordChar y = false) : p = q ∧ x = y ∧ r = s := by
  induction p generalizing q with
  | nil =>
    cases q with
    | nil => simpa using h
    | cons d q =>
      obtain ⟨rfl, -⟩ := List.cons.inj h
      exact absurd (hq x (by simp)) (by simp [hx])
  | cons c p ih =>
    cases q with
    | nil =>
      obtain ⟨rfl, -⟩ := List.cons.inj h
      exact absurd (hp c (by simp)) (by simp [hy])
    | cons d q =>
      obtain ⟨rfl, htail⟩ := List.cons.inj h
      obtain ⟨rfl, hrest⟩ :=
        ih htail (fun a ha => hp a (by simp [ha])) fun a ha => hq a (by simp [ha])
      exact ⟨rfl, hrest⟩

theorem Spells.eq_of_word {bare : Char → Prop} {l s : List Char} (h : Spells bare l s)
    (hs : ∀ c ∈ s, isWordChar c = true) : l = s := by
  induction h with
  | nil => rfl
  | self _ _ ih => rw [ih fun d hd => hs d (by simp [hd])]
  | @escaped c _ _ hc _ _ =>
    have := needsEscape_eq_false_of_isWordChar (hs c (by simp))
    simp [hc] at this

/-- A literal of a value is made of word characters, or the first other character in it is not a
closing bracket. -/
theorem Spells.word_or_other {l s : List Char} (h : Spells BareInLiteral l s) :
    (l = s ∧ ∀ c ∈ s, isWordChar c = true) ∨
      ∃ p x r, l = p ++ x :: r ∧ (∀ c ∈ p, isWordChar c = true) ∧ isWordChar x = false ∧
        x ≠ ']' := by
  induction h with
  | nil => exact .inl ⟨rfl, by simp⟩
  | @self c l s hc _ ih =>
    by_cases hw : isWordChar c = true
    · obtain ⟨rfl, hs⟩ | ⟨p, x, r, rfl, hp, hx⟩ := ih
      · exact .inl ⟨rfl, by simpa [hw] using hs⟩
      · exact .inr ⟨c :: p, x, r, rfl, by simpa [hw] using hp, hx⟩
    · refine .inr ⟨[], c, l, rfl, by simp, by simpa using hw, ?_⟩
      exact hc.ne (by decide) (by decide)
  | @escaped c l s _ _ _ => exact .inr ⟨[], '\\', c :: l, rfl, by simp, by decide, by decide⟩

/-- A literal of a value does not start with an opening bracket. -/
theorem Spells.head_ne {l s : List Char} (h : Spells BareInLiteral l s) : '[' ∉ l.head? := by
  cases h with
  | nil => simp
  | @self c _ _ hc _ =>
    rintro h
    obtain rfl := Option.some.inj h
    exact hc.ne_bracket rfl
  | escaped => simp

end SearchTable.Text

namespace SearchTable.Condition

open Text

variable {ids : List String} {b : Bindings}

/-! ## Tokens -/

theorem tokenId?_append {id : List Char} (hid : ']' ∉ id) (cs : List Char) :
    tokenId? (id ++ ']' :: cs) = some (String.ofList id) := by
  have hcut : cutChars ']' (id ++ ']' :: cs) = some (id, cs) := cutChars_eq_some_iff.2 ⟨rfl, hid⟩
  rw [tokenId?, hcut]
  rfl

/-- Only a closing bracket behind word characters ends a token with a plain name. -/
theorem eq_of_tokenId? {p r : List Char} {x : Char} {id : String}
    (h : tokenId? (p ++ x :: r) = some id) (hid : IsPlainName id)
    (hp : ∀ c ∈ p, isWordChar c = true) (hx : isWordChar x = false) : x = ']' ∧ p = id.toList := by
  simp only [tokenId?, Option.map_eq_some_iff, Prod.exists] at h
  obtain ⟨before, after, hcut, rfl⟩ := h
  obtain ⟨heq, -⟩ := cutChars_eq_some_iff.1 hcut
  have hbefore : ∀ c ∈ before, isWordChar c = true := by simpa using hid.2
  obtain ⟨rfl, rfl, -⟩ := word_append_inj heq hp hx hbefore (by decide)
  exact ⟨rfl, by simp⟩

theorem substitute_nil_ids (cs : List Char) : substitute [] b 0 cs = cs := by
  induction cs with
  | nil => rfl
  | cons c cs ih =>
    have hnone : (tokenId? cs).filter ([] : List String).contains = none := by
      cases tokenId? cs <;> rfl
    simp [substitute, ih, hnone]

theorem substitute_skip (l cs : List Char) :
    substitute ids b l.length (l ++ cs) = substitute ids b 0 cs := by
  induction l with
  | nil => rfl
  | cons c l ih => rw [List.cons_append, List.length_cons, substitute, ih]

theorem substitute_cons {c : Char} (hc : c ≠ '[') (cs : List Char) :
    substitute ids b 0 (c :: cs) = c :: substitute ids b 0 cs := by
  rw [substitute, if_neg hc]

theorem substitute_append {l : List Char} (hl : '[' ∉ l) (cs : List Char) :
    substitute ids b 0 (l ++ cs) = l ++ substitute ids b 0 cs := by
  induction l with
  | nil => rfl
  | cons c l ih =>
    simp only [List.mem_cons, not_or] at hl
    rw [List.cons_append, substitute_cons (Ne.symm hl.1), ih hl.2, List.cons_append]

theorem substitute_bracket {cs : List Char} (h : ∀ id ∈ ids, tokenId? cs ≠ some id) :
    substitute ids b 0 ('[' :: cs) = '[' :: substitute ids b 0 cs := by
  have hnone : (tokenId? cs).filter ids.contains = none := by
    cases htoken : tokenId? cs with
    | none => rfl
    | some id =>
      have hid : id ∉ ids := fun hmem => h id hmem htoken
      simp [Option.filter, hid]
  rw [substitute, if_pos rfl, hnone]

/-- A bracket with word characters and then a character that is neither one nor a closing bracket
behind it stands for itself. -/
theorem substitute_bracket_of_other (hids : ∀ id ∈ ids, IsPlainName id) {p r : List Char} {x : Char}
    (hp : ∀ c ∈ p, isWordChar c = true) (hx : isWordChar x = false) (hclose : x ≠ ']') :
    substitute ids b 0 ('[' :: (p ++ x :: r)) = '[' :: substitute ids b 0 (p ++ x :: r) :=
  substitute_bracket fun id hid htoken => hclose (eq_of_tokenId? htoken (hids id hid) hp hx).1

/-- A token is replaced by the literal of its value. -/
theorem substitute_token {id : String} {v : Value} (hmem : id ∈ ids) (hid : IsPlainName id)
    (hv : b.get? id = some v) (cs : List Char) :
    substitute ids b 0 ('[' :: (id.toList ++ ']' :: cs)) =
      v.literal.toList ++ substitute ids b 0 cs := by
  have hclose : ']' ∉ id.toList := fun hmem => absurd (hid.2 _ hmem) (by decide)
  have htoken : (tokenId? (id.toList ++ ']' :: cs)).filter ids.contains = some id := by
    rw [tokenId?_append hclose, String.ofList_toList]
    simp [Option.filter, hmem]
  have hskip := @substitute_skip ids b (id.toList ++ [']']) cs
  simp only [List.length_append, String.length_toList, List.length_singleton, List.append_assoc,
    List.singleton_append] at hskip
  rw [substitute, if_pos rfl, htoken]
  simp only [hv, hskip]

/-! ## Literals -/

/-- An escaped character in front of a literal is kept, unless it is an opening bracket and an id
with a closing bracket follows. -/
theorem substitute_escaped (hids : ∀ id ∈ ids, IsPlainName id) {l s : List Char}
    (h : Spells BareInLiteral l s) (c : Char) {x : Char} (hx : isWordChar x = false)
    (rest : List Char) (hfree : c = '[' → x = ']' → ∀ id ∈ ids, s ≠ id.toList) :
    substitute ids b 0 ('\\' :: c :: (l ++ x :: rest)) =
      '\\' :: c :: substitute ids b 0 (l ++ x :: rest) := by
  rw [substitute_cons (by decide)]
  by_cases hopen : c = '['
  · subst hopen
    obtain ⟨rfl, hword⟩ | ⟨p, y, r, rfl, hp, hy, hclose⟩ := h.word_or_other
    · rw [substitute_bracket fun id hid htoken => ?_]
      obtain ⟨hclose, hs⟩ := eq_of_tokenId? htoken (hids id hid) hword hx
      exact hfree rfl hclose id hid hs
    · rw [List.append_assoc, List.cons_append, substitute_bracket_of_other hids hp hy hclose]
  · rw [substitute_cons hopen]

/-- The text of a literal is kept, unless a closing bracket follows and the text ends in an opening
bracket and an id. -/
theorem substitute_literal (hids : ∀ id ∈ ids, IsPlainName id) {l s : List Char}
    (h : Spells BareInLiteral l s) {x : Char} (hx : isWordChar x = false) (rest : List Char)
    (hfree : x = ']' → ∀ id ∈ ids, ¬ '[' :: id.toList <:+ s) :
    substitute ids b 0 (l ++ x :: rest) = l ++ substitute ids b 0 (x :: rest) := by
  induction h with
  | nil => rfl
  | @self c l s hc _ ih =>
    rw [List.cons_append, substitute_cons hc.ne_bracket, List.cons_append,
      ih fun hclose id hid hsuffix => hfree hclose id hid (hsuffix.trans (List.suffix_cons c s))]
  | @escaped c l s _ hspells ih =>
    rw [List.cons_append, List.cons_append, substitute_escaped hids hspells c hx,
      ih fun hclose id hid hsuffix => hfree hclose id hid (hsuffix.trans (List.suffix_cons c s))]
    · rfl
    · rintro rfl hclose id hid rfl
      exact hfree hclose id hid (List.suffix_refl _)

/-- A literal in front of a closing bracket whose text ends in an opening bracket and an id loses
this end to the value of the id. -/
theorem substitute_captured (hids : ∀ id ∈ ids, IsPlainName id) {l s : List Char}
    (h : Spells BareInLiteral l s) (rest : List Char) {id : String} (hmem : id ∈ ids)
    {v : Value} (hv : b.get? id = some v) (hend : '[' :: id.toList <:+ s) :
    ∃ front, l = front ++ '[' :: id.toList ∧
      substitute ids b 0 (l ++ ']' :: rest) =
        front ++ (v.literal.toList ++ substitute ids b 0 rest) := by
  induction h with
  | nil => simp at hend
  | @self c l s hc _ ih =>
    obtain heq | hend := List.suffix_cons_iff.1 hend
    · exact absurd (List.cons.inj heq).1.symm hc.ne_bracket
    · obtain ⟨front, rfl, hfront⟩ := ih hend
      exact ⟨c :: front, rfl, by rw [List.cons_append, substitute_cons hc.ne_bracket, hfront]; rfl⟩
  | @escaped c l s _ hspells ih =>
    obtain heq | hend := List.suffix_cons_iff.1 hend
    · obtain ⟨rfl, rfl⟩ := List.cons.inj heq
      obtain rfl := hspells.eq_of_word (hids id hmem).2
      refine ⟨['\\'], rfl, ?_⟩
      rw [List.cons_append, List.cons_append, substitute_cons (by decide),
        substitute_token hmem (hids id hmem) hv]
      rfl
    · obtain ⟨front, rfl, hfront⟩ := ih hend
      -- The text behind this character holds another bracket, so it is not an id.
      have hbracket : '[' ∈ s := hend.subset (by simp)
      refine ⟨'\\' :: c :: front, rfl, ?_⟩
      rw [List.cons_append, List.cons_append, substitute_escaped hids hspells c (by decide), hfront]
      · rfl
      · rintro - - other hother rfl
        exact absurd ((hids other hother).2 _ hbracket) (by decide)

end SearchTable.Condition
