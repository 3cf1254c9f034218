import SearchTable.Json.Source
import SearchTable.Proofs.Failure
/-!
# Reading what has been written

A value is written in one of two layouts, and the reader does not tell them apart: `ReadsAs` says of
characters that the reader takes a source from their front, whatever stands behind them.  It passes
through an object whose members have it, with any blanks between the members, and both layouts are
cases of that.

A source keeps the members of an object in the order in which they are written, with their
repetitions, and `Json.isReadAs_object` gives it for the value that has been written: what a reader
makes of a repeated name is decided on the source.
-/

namespace SearchTable.Json

open Number

variable {c : Char} {cs gap close rest : List Char} {source : Source}

/-! ## Texts -/

theorem hexValue?_hexDigit : ∀ n < 16, hexValue? (hexDigit n) = some n := by decide

/-- What is read as a piece in front of a text, and stands for a character in front of it. -/
structure IsPieceOf (cs : List Char) (piece : Piece) (c : Char) : Prop where
  read : ∀ rest, readPieces (cs ++ rest) =
    (readPieces rest).map fun (pieces, rest) => (piece :: pieces, rest)
  join : ∀ pieces, joinPieces (piece :: pieces) = (joinPieces pieces).map (c :: ·)

theorem isPieceOf_letter {letter : Char} (h : escapedChar? letter = some c) (hne : letter ≠ 'u') :
    IsPieceOf ['\\', letter] (.char c) c := by
  refine ⟨fun rest => ?_, fun _ => rfl⟩
  have hescape : ∀ (a b c d : Char) (cs : List Char),
      letter = 'u' → rest = a :: b :: c :: d :: cs → False := fun _ _ _ _ _ hu _ => hne hu
  rw [List.cons_append, List.cons_append, List.nil_append, readPieces.eq_4 _ _ hescape, h,
    Option.map_eq_bind]
  rfl

theorem isPieceOf_unit (h : c.toNat < 32) :
    IsPieceOf ['\\', 'u', '0', '0', hexDigit (c.toNat / 16), hexDigit (c.toNat % 16)]
      (.unit c.toNat) c := by
  have hhigh := hexValue?_hexDigit (c.toNat / 16) (by omega)
  have hlow := hexValue?_hexDigit (c.toNat % 16) (by omega)
  have hzero : hexValue? '0' = some 0 := by decide
  have hvalue : 16 * (c.toNat / 16) + c.toNat % 16 = c.toNat := by omega
  refine ⟨fun rest => ?_, fun pieces => ?_⟩
  · simp [readPieces, hzero, hhigh, hlow, hvalue, Option.map_eq_bind]
  · rw [joinPieces.eq_def]
    simp [show c.toNat < 0xD800 by omega]

theorem isPieceOf_self (hquote : c ≠ '"') (hslash : c ≠ '\\') (h : ¬ c.toNat < 32) :
    IsPieceOf [c] (.char c) c := by
  refine ⟨fun rest => ?_, fun _ => rfl⟩
  rw [List.cons_append, List.nil_append, readPieces.eq_def]
  split <;> simp_all [Option.map_eq_bind]

/-- A character is written as one piece, which stands for the character. -/
theorem exists_isPieceOf_escapeChar (c : Char) : ∃ piece, IsPieceOf (escapeChar c) piece c := by
  have hcode : ∀ {n letter}, c.toNat = n → escapedChar? letter = some (Char.ofNat n) →
      escapedChar? letter = some c := fun hn h => by rw [h, ← hn, Char.ofNat_toNat]
  rw [escapeChar]
  split_ifs with hquote hslash hn hr ht hb hf hlow
  · obtain rfl := hquote
    exact ⟨_, isPieceOf_letter rfl (by decide)⟩
  · obtain rfl := hslash
    exact ⟨_, isPieceOf_letter rfl (by decide)⟩
  · exact ⟨_, isPieceOf_letter (hn ▸ rfl) (by decide)⟩
  · exact ⟨_, isPieceOf_letter (hr ▸ rfl) (by decide)⟩
  · exact ⟨_, isPieceOf_letter (ht ▸ rfl) (by decide)⟩
  · exact ⟨_, isPieceOf_letter (hcode hb rfl) (by decide)⟩
  · exact ⟨_, isPieceOf_letter (hcode hf rfl) (by decide)⟩
  · exact ⟨_, isPieceOf_unit hlow⟩
  · exact ⟨_, isPieceOf_self hquote hslash hlow⟩

/-- The pieces of a text between quotation marks stand for the text. -/
theorem exists_readPieces_append (cs rest : List Char) : ∃ pieces,
    readPieces (cs.flatMap escapeChar ++ '"' :: rest) = some (pieces, rest) ∧
      joinPieces pieces = some cs := by
  induction cs with
  | nil => exact ⟨[], by simp [readPieces], rfl⟩
  | cons c cs ih =>
    obtain ⟨pieces, hread, hjoin⟩ := ih
    obtain ⟨piece, hpiece⟩ := exists_isPieceOf_escapeChar c
    refine ⟨piece :: pieces, ?_, ?_⟩
    · rw [List.flatMap_cons, List.append_assoc, hpiece.read, hread, Option.map_some]
    · rw [hpiece.join, hjoin, Option.map_some]

/-- A text is read as it was written, from behind its opening quotation mark. -/
theorem readText_append_quote (s : String) (rest : List Char) :
    readText (s.toList.flatMap escapeChar ++ '"' :: rest) = some (some s, rest) := by
  obtain ⟨pieces, hread, hjoin⟩ := exists_readPieces_append s.toList rest
  simp only [readText, hread, hjoin, Option.map_some, String.ofList_toList]

/-! ## Blanks -/

theorem skipSpace_append (hgap : ∀ c ∈ gap, isSpace c = true) (cs : List Char) :
    skipSpace (gap ++ cs) = skipSpace cs := by
  induction gap with
  | nil => rfl
  | cons c gap ih =>
    rw [List.forall_mem_cons] at hgap
    rw [List.cons_append, skipSpace, List.dropWhile_cons_of_pos hgap.1]
    exact ih hgap.2

theorem skipSpace_cons (hc : isSpace c = false) (cs : List Char) :
    skipSpace (c :: cs) = c :: cs :=
  List.dropWhile_cons_of_neg (by simp [hc])

theorem isSpace_of_mem_lineStart {depth : Nat} : ∀ c ∈ lineStart depth, isSpace c = true := by
  simp [lineStart, isSpace]

/-! ## Values -/

/-- The reader takes a source from the front of the characters, whatever stands behind them. -/
def ReadsAs (cs : List Char) (source : Source) : Prop :=
  ∀ fuel rest, cs.length ≤ fuel → readValue fuel (cs ++ rest) = some (source, rest)

theorem readsAs_bool (b : Bool) : ReadsAs (bool b).compactChars (.bool b) := by
  rintro (_ | fuel) rest hfuel
  · cases b <;> simp [compactChars] at hfuel
  · cases b <;> simp [compactChars, readValue, skipSpace, isSpace, Text.afterWord]

theorem readsAs_text (s : String) : ReadsAs (textChars s) (.text (some s)) := by
  rintro (_ | fuel) rest hfuel
  · simp [textChars] at hfuel
  · simp [textChars, readValue, skipSpace_cons, isSpace, readText_append_quote]

theorem readsAs_empty : ReadsAs ['\x7b', '\x7d'] (.object []) := by
  rintro (_ | fuel) rest hfuel
  · simp at hfuel
  · simp [readValue, skipSpace_cons, isSpace]

/-- Blanks in front of a value are passed over. -/
theorem ReadsAs.append (h : ReadsAs cs source) (hgap : ∀ c ∈ gap, isSpace c = true) :
    ReadsAs (gap ++ cs) source := by
  intro fuel rest hfuel
  rw [List.length_append] at hfuel
  have hread := h fuel rest (by omega)
  cases fuel with
  | zero => simp [readValue] at hread
  | succ fuel =>
    rw [readValue] at hread ⊢
    rwa [List.append_assoc, skipSpace_append hgap]

/-! ## Objects -/

/-- The source of an object with members of the given names. -/
def Source.ofMembers (members : List (String × Source)) : Source :=
  .object (members.map fun m => (some m.1, m.2))

theorem Source.toMembers?_ofMembers (members : List (String × Source)) :
    (ofMembers members).toMembers? = some members :=
  mapM_map_eq_some fun _ _ => rfl

section Members

variable {name : String} {fuel : Nat} {before behind : List Char} {write : Json → List Char}
  {members : List (String × Json)} {sources : List (String × Source)}

/-- The members of an object with commas between them, with the same blanks in front of each of them
and in front of the values. -/
def spacedMembers (before behind : List Char) (write : Json → List Char) :
    List (String × Json) → List Char
  | [] => []
  | [(name, value)] => before ++ textChars name ++ ':' :: (behind ++ write value)
  | (name, value) :: members =>
    before ++ textChars name ++ ':' :: (behind ++ write value) ++
      ',' :: spacedMembers before behind write members

theorem compactMembers_eq (members : List (String × Json)) :
    compactMembers members = spacedMembers [] [] compactChars members := by
  induction members with
  | nil => rfl
  | cons m members ih =>
    cases members with
    | nil => simp [compactMembers, spacedMembers]
    | cons m' members => simp [compactMembers, spacedMembers, ih]

theorem indentedMembers_eq (depth : Nat) (members : List (String × Json)) :
    indentedMembers depth members =
      spacedMembers (lineStart depth) [' '] (indentedChars depth) members := by
  induction members with
  | nil => rfl
  | cons m members ih =>
    cases members with
    | nil => simp [indentedMembers, spacedMembers]
    | cons m' members => simp [indentedMembers, spacedMembers, ih]

theorem memberChars_append (before cs rest : List Char) (name : String) :
    before ++ textChars name ++ ':' :: cs ++ rest =
      before ++ '"' :: (name.toList.flatMap escapeChar ++ '"' :: ':' :: (cs ++ rest)) := by
  simp [textChars]

theorem readMembers_comma (hbefore : ∀ c ∈ before, isSpace c = true) (h : ReadsAs cs source)
    (hfuel : cs.length ≤ fuel) (name : String) (rest : List Char) :
    readMembers (fuel + 1) (before ++ textChars name ++ ':' :: cs ++ ',' :: rest) =
      (readMembers fuel rest).map fun (members, rest) =>
        ((some name, source) :: members, rest) := by
  rw [memberChars_append, readMembers, skipSpace_append hbefore]
  simp [skipSpace_cons, isSpace, readText_append_quote, h fuel _ hfuel, Option.map_eq_bind]

theorem readMembers_brace (hbefore : ∀ c ∈ before, isSpace c = true)
    (hclose : ∀ c ∈ close, isSpace c = true) (h : ReadsAs cs source) (hfuel : cs.length ≤ fuel)
    (name : String) (rest : List Char) :
    readMembers (fuel + 1) (before ++ textChars name ++ ':' :: cs ++ (close ++ '\x7d' :: rest)) =
      some ([(some name, source)], rest) := by
  rw [memberChars_append, readMembers, skipSpace_append hbefore]
  simp [skipSpace_cons, skipSpace_append hclose, isSpace, readText_append_quote, h fuel _ hfuel]

/-- Members are read up to the closing brace, with blanks in front of it or not. -/
theorem readMembers_spacedMembers (hbefore : ∀ c ∈ before, isSpace c = true)
    (hbehind : ∀ c ∈ behind, isSpace c = true) (hclose : ∀ c ∈ close, isSpace c = true)
    (h : List.Forall₂ (fun m s => m.1 = s.1 ∧ ReadsAs (write m.2) s.2) members sources)
    (hne : members ≠ []) (hfuel : (spacedMembers before behind write members).length ≤ fuel)
    (rest : List Char) :
    readMembers fuel (spacedMembers before behind write members ++ (close ++ '\x7d' :: rest)) =
      some (sources.map fun m => (some m.1, m.2), rest) := by
  induction h generalizing fuel with
  | nil => exact absurd rfl hne
  | @cons m s members sources hm hrest ih =>
    obtain ⟨name, value⟩ := m
    obtain ⟨name', source⟩ := s
    obtain ⟨rfl, hvalue⟩ : name = name' ∧ ReadsAs (write value) source := hm
    have hread := hvalue.append hbehind
    cases hrest with
    | nil =>
      simp only [spacedMembers, List.length_append, List.length_cons] at hfuel
      obtain ⟨fuel, rfl⟩ := Nat.exists_eq_add_of_lt (show 0 < fuel by omega)
      rw [Nat.zero_add]
      exact readMembers_brace hbefore hclose hread (by rw [List.length_append]; omega) name rest
    | cons hm' hrest =>
      simp only [spacedMembers, List.length_append, List.length_cons] at hfuel
      obtain ⟨fuel, rfl⟩ := Nat.exists_eq_add_of_lt (show 0 < fuel by omega)
      rw [Nat.zero_add, spacedMembers, List.append_assoc, List.cons_append,
        readMembers_comma hbefore hread (by rw [List.length_append]; omega),
        ih (List.cons_ne_nil _ _) (by omega)]
      · rfl
      · simp

theorem exists_spacedMembers_eq (before behind : List Char) (write : Json → List Char)
    (hne : members ≠ []) :
    ∃ cs, spacedMembers before behind write members = before ++ '"' :: cs := by
  cases members with
  | nil => exact absurd rfl hne
  | cons m members => cases members <;> simp [spacedMembers, textChars]

/-- The reader of members passes over the blanks in front of them by itself. -/
theorem readMembers_skipSpace (fuel : Nat) (cs : List Char) :
    readMembers fuel (skipSpace cs) = readMembers fuel cs := by
  cases fuel with
  | zero => rfl
  | succ fuel => rw [readMembers, readMembers, skipSpace, skipSpace, List.dropWhile_idempotent]

/-- An object is read when its members are, whatever blanks its layout has. -/
theorem readsAs_spacedMembers (hbefore : ∀ c ∈ before, isSpace c = true)
    (hbehind : ∀ c ∈ behind, isSpace c = true) (hclose : ∀ c ∈ close, isSpace c = true)
    (h : List.Forall₂ (fun m s => m.1 = s.1 ∧ ReadsAs (write m.2) s.2) members sources)
    (hne : members ≠ []) :
    ReadsAs ('\x7b' :: spacedMembers before behind write members ++ close ++ ['\x7d'])
      (.ofMembers sources) := by
  rintro (_ | fuel) rest hfuel
  · simp at hfuel
  · simp only [List.length_append, List.length_cons] at hfuel
    have hread := readMembers_spacedMembers hbefore hbehind hclose h hne
      (show _ ≤ fuel by omega) rest
    obtain ⟨cs, hcs⟩ := exists_spacedMembers_eq before behind write hne
    have hskip : skipSpace (spacedMembers before behind write members ++
        (close ++ '\x7d' :: rest)) = '"' :: (cs ++ (close ++ '\x7d' :: rest)) := by
      rw [hcs, List.append_assoc, skipSpace_append hbefore, List.cons_append,
        skipSpace_cons (by decide)]
    rw [← readMembers_skipSpace, hskip] at hread
    simp [readValue, skipSpace_cons, isSpace, hskip, hread, Source.ofMembers]

end Members

/-! ## Both layouts -/

/-- A value is read as a source in either of its layouts. -/
structure IsReadAs (j : Json) (source : Source) : Prop where
  compact : ReadsAs j.compactChars source
  indented : ∀ depth, ReadsAs (j.indentedChars depth) source

theorem isReadAs_bool (b : Bool) : IsReadAs (.bool b) (.bool b) :=
  ⟨readsAs_bool b, fun _ => by rw [indentedChars]; exact readsAs_bool b⟩

theorem isReadAs_text (s : String) : IsReadAs (.text s) (.text (some s)) :=
  ⟨readsAs_text s, fun _ => by rw [indentedChars]; exact readsAs_text s⟩

/-- An object is read as the list of its members, repeated ones included. -/
theorem isReadAs_object {members : List (String × Json)} {sources : List (String × Source)}
    (h : List.Forall₂ (fun m s => m.1 = s.1 ∧ IsReadAs m.2 s.2) members sources) :
    IsReadAs (.object members) (.ofMembers sources) := by
  cases members with
  | nil =>
    cases h
    exact ⟨readsAs_empty, fun _ => by rw [indentedChars]; exact readsAs_empty⟩
  | cons m members =>
    refine ⟨?_, fun depth => ?_⟩
    · have hcompact : ReadsAs
          ('\x7b' :: spacedMembers [] [] compactChars (m :: members) ++ [] ++ ['\x7d'])
          (.ofMembers sources) :=
        readsAs_spacedMembers (by simp) (by simp) (by simp)
          (h.imp fun _ _ hm => hm.imp_right IsReadAs.compact) (List.cons_ne_nil m members)
      simpa [compactChars, compactMembers_eq] using hcompact
    · have hindented : ReadsAs
          ('\x7b' :: spacedMembers (lineStart (depth + 1)) [' '] (indentedChars (depth + 1))
            (m :: members) ++ lineStart depth ++ ['\x7d']) (.ofMembers sources) :=
        readsAs_spacedMembers isSpace_of_mem_lineStart (by simp [isSpace]) isSpace_of_mem_lineStart
          (h.imp fun _ _ hm => hm.imp_right fun hj => hj.indented (depth + 1))
          (List.cons_ne_nil m members)
      simpa [indentedChars, indentedMembers_eq] using hindented

/-- A text of characters that are read as a source is read as that source. -/
theorem ReadsAs.ofText? (h : ReadsAs cs source) :
    Source.ofText? (String.ofList cs) = some source := by
  have hread := h (2 * cs.length + 2) [] (by omega)
  rw [List.append_nil] at hread
  simp [Source.ofText?, hread, skipSpace]

/-- Both texts of a value are read as the same source. -/
theorem IsReadAs.ofText? {j : Json} (h : IsReadAs j source) {text : String}
    (htext : text = j.compact ∨ text = j.indented) : Source.ofText? text = some source := by
  rcases htext with rfl | rfl
  · exact h.compact.ofText?
  · exact (h.indented 0).ofText?

end SearchTable.Json
