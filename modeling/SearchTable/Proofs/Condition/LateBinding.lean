import SearchTable.Proofs.Condition.Substitution
/-!
# Late and early binding

A condition can get the values of its stream variables in two ways: late, by resolving the compiled
text (`Condition.resolve`), or early, by compiling the expression with constants in their place
(`Expression.bind`).  The two give the same query exactly when no constant *captures* a placeholder.

A constant captures a placeholder when it is the upper end of an inclusive range, where its literal
stands in front of a closing bracket, and its text ends in an opening bracket and the id of a
placeholder of the condition.  Nothing else in a compiled text is ever taken for a token: not the
name of a field, not the bracket of a range, not the inside of a literal and not its end in any
other clause.
-/

namespace SearchTable

/-! ## Capture -/

/-- The text of a constant ends in an opening bracket and one of these ids. -/
def Comparand.endsInToken (ids : List String) : Comparand → Bool
  | constant v => ids.any fun id => ('[' :: id.toList).isSuffixOf v.plain.toList
  | slot _ => false

/-- The value of a clause stands in front of a closing square bracket. -/
def Condition.Shape.closesToken : Condition.Shape → Bool
  | upper true => true
  | _ => false

/-- Some constant is the upper end of an inclusive range and ends in an opening bracket and one of
these ids. -/
def Expression.captures (ids : List String) : Expression → Bool
  | and l r => l.captures ids || r.captures ids
  | or l r => l.captures ids || r.captures ids
  | not x => x.captures ids
  | compare op l r =>
    match comparison? l r with
    | some (_, side, x) => (Condition.shapeOf op side).closesToken && x.endsInToken ids
    | none => false
  | _ => false

namespace Condition

open Text Expression

/-! ## Texts that part ways -/

/-- After a common part the texts go on with different characters, so they differ whatever
follows. -/
def Differ (f g : List Char) : Prop :=
  ∃ p x y s t, x ≠ y ∧ f = p ++ x :: s ∧ g = p ++ y :: t

theorem Differ.ne {f g : List Char} (h : Differ f g) : f ≠ g := by
  obtain ⟨p, x, y, s, t, hne, rfl, rfl⟩ := h
  intro heq
  exact hne (List.cons.inj (List.append_cancel_left heq)).1

theorem Differ.append_left {f g : List Char} (h : Differ f g) (l : List Char) :
    Differ (l ++ f) (l ++ g) := by
  obtain ⟨p, x, y, s, t, hne, rfl, rfl⟩ := h
  exact ⟨l ++ p, x, y, s, t, hne, by simp, by simp⟩

/-! ## Substituting in parts of a text -/

variable {ids : List String} {b : Bindings}

/-- Substituting turns `f` into `g`, whatever follows.  If a constant in it has captured a
placeholder, the result parts ways with `g` instead. -/
def Rewrites (ids : List String) (b : Bindings) (captured : Bool) (f g : List Char) : Prop :=
  match captured with
  | false => ∀ rest, substitute ids b 0 (f ++ rest) = g ++ substitute ids b 0 rest
  | true => ∀ rest rest', Differ (substitute ids b 0 (f ++ rest)) (g ++ rest')

theorem Rewrites.append {c c' : Bool} {f f' g g' : List Char} (h : Rewrites ids b c f g)
    (h' : Rewrites ids b c' f' g') : Rewrites ids b (c || c') (f ++ f') (g ++ g') := by
  cases c with
  | true =>
    intro rest rest'
    simpa using h (f' ++ rest) (g' ++ rest')
  | false =>
    cases c' with
    | true =>
      intro rest rest'
      rw [List.append_assoc, h, List.append_assoc]
      exact (h' rest rest').append_left g
    | false =>
      intro rest
      rw [List.append_assoc, h, h', List.append_assoc]

theorem Rewrites.of_not_mem {l : List Char} (h : '[' ∉ l) : Rewrites ids b false l l :=
  fun rest => substitute_append h rest

/-- A part without brackets between two parts. -/
theorem Rewrites.surround {c : Bool} {f g : List Char} (h : Rewrites ids b c f g)
    (before : List Char) (hbefore : '[' ∉ before) (after : List Char) (hafter : '[' ∉ after) :
    Rewrites ids b c (before ++ f ++ after) (before ++ g ++ after) := by
  simpa using ((Rewrites.of_not_mem hbefore).append h).append (Rewrites.of_not_mem hafter)

/-! ## Comparisons -/

/-- A comparand has a value, and a slot is one of the placeholders. -/
structure Fits (ids : List String) (b : Bindings) (x : Comparand) (v : Value) : Prop where
  value : x.value? b = some v
  listed : ∀ id ∈ x.slots, id ∈ ids

/-- In front of a character that closes no token a comparand gives way to the literal of its
value. -/
theorem Fits.rewrites (hids : ∀ id ∈ ids, IsPlainName id) {x : Comparand} {v : Value}
    (h : Fits ids b x v) {c : Char} (hc : isWordChar c = false) (hclose : c ≠ ']')
    (after : List Char) (hopen : '[' ∉ c :: after) :
    Rewrites ids b false (x.text ++ c :: after) (v.literal.toList ++ c :: after) := by
  intro rest
  rw [List.append_assoc, List.append_assoc, ← substitute_append hopen]
  cases x with
  | constant w =>
    obtain rfl := Option.some.inj h.value
    exact substitute_literal hids w.spells_literal hc _ fun heq => absurd heq hclose
  | slot id =>
    have hid := h.listed id (by simp [Comparand.slots])
    simp only [Comparand.text, List.cons_append, List.append_assoc, List.nil_append]
    exact substitute_token hid (hids id hid) h.value _

/-- In front of a closing bracket the same holds, unless the comparand is a constant that captures
a placeholder. -/
theorem Fits.rewrites_closing (hids : ∀ id ∈ ids, IsPlainName id)
    (hbound : ∀ id ∈ ids, ∃ v, b.get? id = some v) {x : Comparand} {v : Value}
    (h : Fits ids b x v) :
    Rewrites ids b (x.endsInToken ids) (x.text ++ [']', ')']) (v.literal.toList ++ [']', ')']) := by
  cases x with
  | slot id =>
    intro rest
    have hid := h.listed id (by simp [Comparand.slots])
    simp only [Comparand.text, List.cons_append, List.append_assoc, List.nil_append]
    rw [substitute_token hid (hids id hid) h.value, substitute_cons (by decide),
      substitute_cons (by decide)]
  | constant w =>
    obtain rfl := Option.some.inj h.value
    cases hend : (Comparand.constant w).endsInToken ids with
    | false =>
      have hfree : ∀ id ∈ ids, ¬ '[' :: id.toList <:+ w.plain.toList := by
        simpa [Comparand.endsInToken] using hend
      intro rest
      simp only [Comparand.text, List.cons_append, List.append_assoc, List.nil_append]
      rw [substitute_literal hids w.spells_literal (by decide) _ fun _ => hfree,
        substitute_cons (by decide), substitute_cons (by decide)]
    | true =>
      obtain ⟨id, hid, hsuffix⟩ : ∃ id ∈ ids, '[' :: id.toList <:+ w.plain.toList := by
        simpa [Comparand.endsInToken] using hend
      obtain ⟨u, hu⟩ := hbound id hid
      intro rest rest'
      obtain ⟨front, hl, hsub⟩ :=
        substitute_captured hids w.spells_literal (')' :: rest) hid hu hsuffix
      simp only [Comparand.text, List.cons_append, List.append_assoc, List.nil_append]
      rw [hsub, hl, substitute_cons (by decide), List.append_assoc]
      refine Differ.append_left ?_ front
      -- The literal of a value does not start with the bracket that the constant has here.
      cases hlit : u.literal.toList with
      | nil => exact ⟨[], ')', '[', _, _, by decide, rfl, rfl⟩
      | cons c cs =>
        have hne : c ≠ '[' := by
          rintro rfl
          exact u.spells_literal.head_ne (by simp [hlit])
        exact ⟨[], c, '[', _, _, hne, rfl, rfl⟩

/-- The bracket in front of a comparand opens no token. -/
theorem Fits.rewrites_opening (hids : ∀ id ∈ ids, IsPlainName id) {x : Comparand} {v : Value}
    (h : Fits ids b x v) {c : Char} (hc : isWordChar c = false) (hclose : c ≠ ']')
    (after : List Char) (hopen : '[' ∉ c :: after) :
    Rewrites ids b false ('[' :: x.text ++ c :: after) ('[' :: v.literal.toList ++ c :: after) := by
  intro rest
  have hrest := h.rewrites hids hc hclose after hopen rest
  have hbracket : substitute ids b 0 ('[' :: (x.text ++ c :: after ++ rest)) =
      '[' :: substitute ids b 0 (x.text ++ c :: after ++ rest) := by
    cases x with
    | slot id =>
      exact substitute_bracket_of_other hids (p := []) (by simp) (x := '[') (by decide) (by decide)
    | constant w =>
      simp only [Comparand.text, List.append_assoc, List.cons_append]
      obtain ⟨hl, hword⟩ | ⟨p, y, r, hl, hp, hy, hne⟩ := w.spells_literal.word_or_other
      · rw [hl]
        exact substitute_bracket_of_other hids hword hc hclose
      · rw [hl, List.append_assoc, List.cons_append]
        exact substitute_bracket_of_other hids hp hy hne
  simp only [List.cons_append, hbracket, hrest]

theorem not_mem_of_isPlainName {name : String} (h : IsPlainName name) : '[' ∉ name.toList :=
  fun hmem => absurd (h.2 _ hmem) (by decide)

/-- The bracket of a range that is open below opens no token. -/
theorem rewrites_openRange (hids : ∀ id ∈ ids, IsPlainName id) :
    Rewrites ids b false "[* TO ".toList "[* TO ".toList := by
  intro rest
  have hbracket := substitute_bracket_of_other (b := b) (r := " TO ".toList ++ rest) hids
    (p := []) (by simp) (x := '*') (by decide) (by decide)
  have hrest := @substitute_append ids b "* TO ".toList (by decide) rest
  calc substitute ids b 0 ("[* TO ".toList ++ rest)
    _ = '[' :: substitute ids b 0 ("* TO ".toList ++ rest) := hbracket
    _ = "[* TO ".toList ++ substitute ids b 0 rest := by rw [hrest]; rfl

/-- The clause of a comparison, in its parentheses. -/
theorem rewrites_clause (hids : ∀ id ∈ ids, IsPlainName id)
    (hbound : ∀ id ∈ ids, ∃ v, b.get? id = some v) {name : String} (hname : IsPlainName name)
    {x : Comparand} {v : Value} (h : Fits ids b x v) (shape : Shape) :
    Rewrites ids b (shape.closesToken && x.endsInToken ids)
      ('(' :: renderChars shape name.toList x.text ++ [')'])
      ('(' :: renderChars shape name.toList v.literal.toList ++ [')']) := by
  have hfield := not_mem_of_isPlainName hname
  have hbefore : Rewrites ids b false ('(' :: name.toList ++ [':']) ('(' :: name.toList ++ [':']) :=
    .of_not_mem (by simp [hfield])
  match shape with
  | .equal =>
    have hvalue := h.rewrites hids (c := '"') (by decide) (by decide) [')'] (by decide)
    have hquote : Rewrites ids b false ['"'] ['"'] := .of_not_mem (by decide)
    simpa [renderChars, Shape.closesToken] using (hbefore.append hquote).append hvalue
  | .notEqual =>
    have hvalue := h.rewrites hids (c := '"') (by decide) (by decide) [')'] (by decide)
    have hquote : Rewrites ids b false ('(' :: '!' :: name.toList ++ [':', '"'])
        ('(' :: '!' :: name.toList ++ [':', '"']) := .of_not_mem (by simp [hfield])
    simpa [renderChars, Shape.closesToken] using hquote.append hvalue
  | .lower true =>
    have hvalue := h.rewrites_opening hids (c := ' ') (by decide) (by decide) "TO *])".toList
      (by decide)
    simpa [renderChars, Shape.closesToken, openBracket, closeBracket] using hbefore.append hvalue
  | .lower false =>
    have hvalue := h.rewrites hids (c := ' ') (by decide) (by decide) "TO *\x7d)".toList
      (by decide)
    have hbrace : Rewrites ids b false ['{'] ['{'] := .of_not_mem (by decide)
    simpa [renderChars, Shape.closesToken, openBracket, closeBracket] using
      (hbefore.append hbrace).append hvalue
  | .upper true =>
    have hvalue := h.rewrites_closing hids hbound
    simpa [renderChars, Shape.closesToken, openBracket, closeBracket] using
      (hbefore.append (rewrites_openRange hids)).append hvalue
  | .upper false =>
    have hvalue := h.rewrites hids (c := '}') (by decide) (by decide) [')'] (by decide)
    have hbrace : Rewrites ids b false "\x7b* TO ".toList "\x7b* TO ".toList := .of_not_mem (by decide)
    simpa [renderChars, Shape.closesToken, openBracket, closeBracket] using
      (hbefore.append hbrace).append hvalue

/-! ## Conditions -/

/-- The fragment of an expression, and the one after early binding.  The second one has no
placeholders left. -/
inductive Bound (ids : List String) (b : Bindings) : Bool → Option Fragment → Option Fragment → Prop
  | untranslated : Bound ids b false none none
  | translated {c : Bool} {f g : Fragment} (h : Rewrites ids b c f.text g.text)
      (hclosed : g.placeholders = []) : Bound ids b c (some f) (some g)

theorem Bound.joinSides {c c' : Bool} {f f' g g' : Option Fragment} (h : Bound ids b c f g)
    (h' : Bound ids b c' f' g') {word : String} (hword : '[' ∉ word.toList) :
    Bound ids b (c || c') (joinSides word f f') (joinSides word g g') := by
  cases h with
  | untranslated =>
    cases h' with
    | untranslated => exact .untranslated
    | translated h' hclosed => exact .translated h' hclosed
  | @translated c f g h hclosed =>
    cases h' with
    | untranslated => exact .translated (by simpa using h) hclosed
    | @translated c' f' g' h' hclosed' =>
      refine .translated ?_ (by simp [Fragment.join, Fragment.joinIds, hclosed, hclosed'])
      have hopen : Rewrites ids b false ['('] ['('] := .of_not_mem (by decide)
      have hmiddle : Rewrites ids b false word.toList word.toList := .of_not_mem hword
      have hclose : Rewrites ids b false [')'] [')'] := .of_not_mem (by decide)
      simpa [Fragment.join] using (((hopen.append h).append hmiddle).append h').append hclose

theorem Bound.wrap {c : Bool} {f g : Option Fragment} (h : Bound ids b c f g) :
    Bound ids b c (f.map fun f => f.wrap "NOT (" ")") (g.map fun g => g.wrap "NOT (" ")") := by
  cases h with
  | untranslated => exact .untranslated
  | translated h hclosed => exact .translated (h.surround _ (by decide) _ (by decide)) hclosed

/-- A stream variable in the place of a condition has no fragment, whatever its value. -/
theorem fragment?_variable_bind (id : String) (b : Bindings) :
    fragment? ((Expression.variable id).bind b) = none := by
  cases h : b.get? id <;> simp [Expression.bind, fragment?, h]

/-- Binding does not make a field of what is none. -/
theorem fragment?_isNull_bind (b : Bindings) {x : Expression}
    (h : ∀ name type, x ≠ .field name type) : fragment? (.isNull (x.bind b)) = none := by
  match x with
  | .field name type => exact absurd rfl (h name type)
  | .variable id => cases h : b.get? id <;> simp [Expression.bind, fragment?, h]
  | .and .. | .or .. | .not .. | .compare .. | .isNull .. | .isIn .. | .constant .. | .math ..
  | .call .. => rfl

/-- Compiling, then substituting, against binding, then compiling. -/
theorem bound_fragment? (hids : ∀ id ∈ ids, IsPlainName id)
    (hbound : ∀ id ∈ ids, ∃ v, b.get? id = some v) (e : Expression) :
    (∀ name ∈ e.fields, IsPlainName name) → (∀ id ∈ e.slots, id ∈ ids) →
      Bound ids b (e.captures ids) (fragment? e) (fragment? (e.bind b)) := by
  fun_induction fragment? e with
  | case1 l r ihl ihr =>
    intro hnames hslots
    simp only [fields, slots, List.mem_append, or_imp, forall_and] at hnames hslots
    exact (ihl hnames.1 hslots.1).joinSides (ihr hnames.2 hslots.2) (by decide)
  | case2 l r ihl ihr =>
    intro hnames hslots
    simp only [fields, slots, List.mem_append, or_imp, forall_and] at hnames hslots
    exact (ihl hnames.1 hslots.1).joinSides (ihr hnames.2 hslots.2) (by decide)
  | case3 x ih =>
    intro hnames hslots
    exact (ih hnames hslots).wrap
  | case4 op l r =>
    intro hnames hslots
    simp only [Expression.bind, fragment?, captures, compileComparison_eq, comparison?_bind]
    cases hparts : comparison? l r with
    | none =>
      have hnone : '[' ∉ matchNone.toList := by decide
      exact .translated (.of_not_mem hnone) rfl
    | some parts =>
      obtain ⟨name, side, x⟩ := parts
      have hname : IsPlainName name := hnames name (mem_fields_of_comparison? hparts)
      have hlisted : ∀ id ∈ x.slots, id ∈ ids := by simpa [slots, hparts] using hslots
      obtain ⟨v, hv⟩ : ∃ v, x.value? b = some v := by
        cases x with
        | constant v => exact ⟨v, rfl⟩
        | slot id => exact hbound id (hlisted id (by simp [Comparand.slots]))
      have hfits : Fits ids b x v := ⟨hv, hlisted⟩
      refine .translated ?_ ?_
      · simpa [Comparand.bind_of_value? hv, Comparand.text] using
          rewrites_clause hids hbound hname hfits (shapeOf op side)
      · simp [Comparand.bind_of_value? hv, Comparand.slots]
  | case5 name type =>
    intro hnames _
    have hfield := not_mem_of_isPlainName (hnames name (by simp [fields]))
    refine .translated ?_ rfl
    simpa [captures] using (rewrites_openRange hids).surround ("(-".toList ++ name.toList ++ [':'])
      (by simp [hfield]) "*] AND *:*)".toList (by decide)
  | case6 e hand hor hnot hcompare hnull =>
    intro _ _
    cases e with
    | and l r => exact (hand l r rfl).elim
    | or l r => exact (hor l r rfl).elim
    | not x => exact (hnot x rfl).elim
    | compare op l r => exact (hcompare op l r rfl).elim
    | isNull x =>
      rw [Expression.bind, fragment?_isNull_bind b fun name type hx => hnull name type (by rw [hx])]
      exact .untranslated
    | «variable» id =>
      rw [fragment?_variable_bind]
      exact .untranslated
    | isIn | constant | field | math | call => exact .untranslated

/-! ## Placeholders -/

/-- The placeholders of a fragment; none without a fragment. -/
def fragmentIds (f : Option Fragment) : List String := (f.map Fragment.placeholders).getD []

theorem placeholders_compile (e : Expression) :
    (compile e).placeholders = fragmentIds (fragment? e) := by
  rw [compile]
  cases fragment? e <;> rfl

theorem mem_fragmentIds_joinSides {word : String} {f g : Option Fragment} {id : String} :
    id ∈ fragmentIds (joinSides word f g) ↔ id ∈ fragmentIds f ∨ id ∈ fragmentIds g := by
  cases f with
  | none => cases g <;> simp [fragmentIds, joinSides]
  | some f =>
    cases g with
    | none => simp [fragmentIds, joinSides]
    | some g =>
      simp only [fragmentIds, joinSides, Fragment.join, Fragment.joinIds, Option.map_some,
        Option.getD_some, List.mem_append, List.mem_filter, Bool.not_eq_true',
        List.contains_eq_mem, decide_eq_false_iff_not]
      tauto

/-- The placeholders of a condition are the slots of its expression. -/
theorem mem_fragmentIds (e : Expression) (id : String) :
    id ∈ fragmentIds (fragment? e) ↔ id ∈ e.slots := by
  fun_induction fragment? e with
  | case1 l r ihl ihr => rw [mem_fragmentIds_joinSides, ihl, ihr, slots, List.mem_append]
  | case2 l r ihl ihr => rw [mem_fragmentIds_joinSides, ihl, ihr, slots, List.mem_append]
  | case3 x ih =>
    rw [slots, ← ih]
    cases fragment? x <;> rfl
  | case4 op l r =>
    simp only [fragmentIds, Option.map_some, Option.getD_some, compileComparison_eq, slots]
    cases comparison? l r <;> rfl
  | case5 name type => simp [fragmentIds, slots]
  | case6 e hand hor hnot hcompare _ =>
    cases e with
    | and l r => exact (hand l r rfl).elim
    | or l r => exact (hor l r rfl).elim
    | not x => exact (hnot x rfl).elim
    | compare op l r => exact (hcompare op l r rfl).elim
    | isNull | «variable» | isIn | constant | field | math | call => simp [fragmentIds, slots]

/-! ## Resolving -/

/-- The text of a fragment starts with a character that is not blank. -/
theorem exists_cons_of_fragment? (e : Expression) {f : Fragment} (h : fragment? e = some f) :
    ∃ c cs, f.text = c :: cs ∧ isBlank c = false := by
  fun_induction fragment? e generalizing f with
  | case1 l r ihl ihr | case2 l r ihl ihr =>
    cases hl : fragment? l with
    | none =>
      cases hr : fragment? r with
      | none => simp [joinSides, hl, hr] at h
      | some g =>
        obtain rfl : g = f := by simpa [joinSides, hl, hr] using h
        exact ihr hr
    | some g =>
      cases hr : fragment? r with
      | none =>
        obtain rfl : g = f := by simpa [joinSides, hl, hr] using h
        exact ihl hl
      | some g' =>
        obtain rfl : g.join _ g' = f := by simpa [joinSides, hl, hr] using h
        exact ⟨'(', _, rfl, by decide⟩
  | case3 x _ =>
    obtain ⟨g, -, rfl⟩ := Option.map_eq_some_iff.1 h
    exact ⟨'N', _, rfl, by decide⟩
  | case4 op l r =>
    obtain rfl := Option.some.inj h
    rw [compileComparison_eq]
    cases comparison? l r with
    | none => exact ⟨'(', _, rfl, by decide⟩
    | some parts => exact ⟨'(', _, rfl, by decide⟩
  | case5 name type =>
    obtain rfl := Option.some.inj h
    exact ⟨'(', _, rfl, by decide⟩
  | case6 => simp at h

/-- Without a fragment a condition asks for everything. -/
theorem resolve_of_fragment?_none {e : Expression} (h : fragment? e = none) (b : Bindings) :
    (compile e).resolve b = .ok matchAll := by
  simp [compile, h, resolve, all, isEmpty, isBlankText]

/-- Resolving substitutes in the text of the fragment. -/
theorem resolve_of_fragment? {e : Expression} {f : Fragment} (h : fragment? e = some f)
    {b : Bindings} (hbound : ∀ id ∈ f.placeholders, b.contains id = true) :
    (compile e).resolve b = .ok (String.ofList (substitute f.placeholders b 0 f.text)) := by
  obtain ⟨c, cs, htext, hc⟩ := exists_cons_of_fragment? e h
  have hblank : isBlankText (String.ofList f.text) = false := by simp [isBlankText, htext, hc]
  have hfind : f.placeholders.find? (fun id => !b.contains id) = none := by
    simpa [List.find?_eq_none] using hbound
  cases hids : f.placeholders with
  | nil => simp [compile, h, resolve, isEmpty, hblank, hids, substitute_nil_ids]
  | cons id ids =>
    rw [hids] at hfind
    simp [compile, h, resolve, isEmpty, hblank, hids, hfind]

/-- A condition resolved late is the condition with early constants exactly when no constant
captures one of the placeholders. -/
theorem resolve_eq_resolve_bind_iff (e : Expression) (b : Bindings)
    (hnames : ∀ name ∈ e.fields, IsPlainName name) (hids : ∀ id ∈ e.slotIds, IsPlainName id)
    (hbound : ∀ id ∈ e.slotIds, b.contains id = true) :
    (compile e).resolve b = (compile (e.bind b)).resolve .empty ↔
      e.captures (compile e).placeholders = false := by
  have hslot : ∀ id ∈ fragmentIds (fragment? e), id ∈ e.slotIds := fun id hid =>
    e.slots_subset ((mem_fragmentIds e id).1 hid)
  have hget : ∀ id ∈ fragmentIds (fragment? e), ∃ v, b.get? id = some v := fun id hid =>
    Option.isSome_iff_exists.1 (hbound id (hslot id hid))
  have hparts := bound_fragment? (fun id hid => hids id (hslot id hid)) hget e hnames
    fun id hid => (mem_fragmentIds e id).2 hid
  rw [placeholders_compile]
  generalize hf : fragment? e = late at hparts hslot ⊢
  generalize hg : fragment? (e.bind b) = early at hparts
  generalize hc : e.captures (fragmentIds late) = captured at hparts ⊢
  cases hparts with
  | untranslated => simp [resolve_of_fragment?_none hf, resolve_of_fragment?_none hg]
  | @translated c f g h hclosed =>
    have hlate := resolve_of_fragment? hf fun id hid => hbound id (hslot id hid)
    have hearly : (compile (e.bind b)).resolve .empty = .ok (String.ofList g.text) := by
      have hempty : ∀ id ∈ g.placeholders, (Dictionary.empty : Bindings).contains id = true := by
        simp [hclosed]
      rw [resolve_of_fragment? hg hempty, hclosed, substitute_nil_ids]
    rw [hlate, hearly, Except.ok.injEq, String.ofList_inj]
    cases captured with
    | false =>
      have hrest := h []
      simp only [List.append_nil, substitute] at hrest
      simpa [fragmentIds] using hrest
    | true =>
      have hdiffer := (h [] []).ne
      simp only [List.append_nil] at hdiffer
      simpa [fragmentIds] using hdiffer

/-- A comparison of the field `f` with the text `[p0`, and one of the field `g` with the stream
variable `p0`. -/
def bracketCondition (op : Comparison) : Expression :=
  .and (.compare op (.field "f" .string) (.constant (.text "[p0")))
    (.compare .equal (.field "g" .string) (.variable "p0"))

/-- Between quotation marks the bracket of the text opens no token. -/
theorem resolve_bracketCondition_equal :
    let e := bracketCondition .equal
    let b : Bindings := .ofList [("p0", .text "1")]
    (∀ name ∈ e.fields, IsPlainName name) ∧ (∀ id ∈ e.slotIds, IsPlainName id) ∧
      (∀ id ∈ e.slotIds, b.contains id = true) ∧ e.captures (compile e).placeholders = false ∧
      (compile e).resolve b = (compile (e.bind b)).resolve .empty := by
  have hnames : ∀ name ∈ (bracketCondition .equal).fields, IsPlainName name := by decide
  have hids : ∀ id ∈ (bracketCondition .equal).slotIds, IsPlainName id := by decide
  have hbound : ∀ id ∈ (bracketCondition .equal).slotIds,
      (Dictionary.ofList [("p0", Value.text "1")] : Bindings).contains id = true := by decide
  have hfree : (bracketCondition .equal).captures (compile (bracketCondition .equal)).placeholders =
      false := by decide
  exact ⟨hnames, hids, hbound, hfree,
    (resolve_eq_resolve_bind_iff _ _ hnames hids hbound).2 hfree⟩

/-- As the upper end of an inclusive range the text captures the placeholder, and its own last
characters are lost. -/
theorem resolve_bracketCondition_lessEqual :
    let e := bracketCondition .lessEqual
    let b : Bindings := .ofList [("p0", .text "1")]
    (∀ name ∈ e.fields, IsPlainName name) ∧ (∀ id ∈ e.slotIds, IsPlainName id) ∧
      (∀ id ∈ e.slotIds, b.contains id = true) ∧
      (compile e).resolve b = .ok "((f:[* TO \\1) AND (g:\"1\"))" ∧
      (compile (e.bind b)).resolve .empty = .ok "((f:[* TO \\[p0]) AND (g:\"1\"))" := by
  exact ⟨by decide, by decide, by decide, rfl, rfl⟩

end Condition

end SearchTable
