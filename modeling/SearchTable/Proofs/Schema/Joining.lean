import SearchTable.Proofs.Schema.Merging
/-!
# Schemas written one behind the other

Two schema texts with a comma between them are one schema text.  Its entries are those of the first
text and then those of the second one (`Schema.entries_append`), whatever blank entries and stray
commas either of them has.  Reading files them in this order, and filing further fields is merging
them over what is there (`Schema.foldlM_merge`).  So the joined text stands for the second schema
merged over the first one, and it is at fault where the first one is, or else where the second one
is (`Schema.ofText_append`).
-/

namespace SearchTable.Text

/-! ## Pieces of a joined text -/

/-- A separator ends the piece before it and starts a new one. -/
theorem splitChars_append (separator : Char) (cs ds : List Char) :
    splitChars separator (cs ++ separator :: ds) =
      splitChars separator cs ++ splitChars separator ds := by
  induction cs with
  | nil => simp [splitChars]
  | cons c cs ih =>
    by_cases hc : c = separator
    · simp [splitChars, hc, ih]
    · obtain ⟨piece, pieces, hpieces⟩ :=
        List.exists_cons_of_ne_nil (splitChars_ne_nil separator cs)
      simp [splitChars, hc, ih, hpieces]

end SearchTable.Text

namespace SearchTable.Schema

open Text

variable {a b : String} {s old new : Schema} {uniqueKey : Option String}

theorem entries_append (a b : String) : entries (a ++ "," ++ b) = entries a ++ entries b := by
  have hchars : (a ++ "," ++ b).toList = a.toList ++ ',' :: b.toList := by simp
  simp [entries, split, hchars, splitChars_append]

/-! ## Filing over another schema -/

/-- A field that is added to the newer schema is added to the merged one. -/
theorem merge_add (old new : Schema) (f : FieldDef) :
    old.merge (new.add f) = (old.merge new).add f :=
  ext_fields rfl fun name => by
    rw [get?_merge, get?_add, get?_add, get?_merge]
    split <;> rfl

/-- Merging a schema without fields only changes the unique key. -/
theorem merge_ofKey (h : s.uniqueKey = (ofKey uniqueKey).uniqueKey) :
    s.merge (ofKey uniqueKey) = s :=
  ext_fields h.symm fun name => by
    rw [get?_merge]
    rfl

/-- Entries that are filed in a merged schema are filed in the newer one. -/
theorem foldlM_merge (old new : Schema) (es : List String) :
    es.foldlM (fun s entry => do .ok (s.add (← readEntry entry))) (old.merge new) =
      (do .ok (old.merge (← es.foldlM (fun s entry => do .ok (s.add (← readEntry entry))) new)) :
        Except StoreError Schema) := by
  induction es generalizing new with
  | nil => rfl
  | cons entry es ih =>
    rw [List.foldlM_cons, List.foldlM_cons]
    cases readEntry entry with
    | error e => rfl
    | ok f =>
      have hnext := ih (new.add f)
      rw [merge_add] at hnext
      exact hnext

/-! ## Joined texts -/

theorem uniqueKey_ofText (h : ofText a uniqueKey = .ok s) :
    s.uniqueKey = (ofKey uniqueKey).uniqueKey :=
  ofText_induction (P := fun s => s.uniqueKey = (ofKey uniqueKey).uniqueKey) rfl
    (fun _ _ _ hs _ => hs) h

/-- Two texts with a comma between them stand for the second schema merged over the first one.  The
fault of the first text is reported before that of the second one. -/
theorem ofText_append (a b : String) (uniqueKey : Option String) :
    ofText (a ++ "," ++ b) uniqueKey =
      match ofText a uniqueKey, ofText b uniqueKey with
      | .ok s, .ok t => .ok (s.merge t)
      | .ok _, .error e => .error e
      | .error e, _ => .error e := by
  have hjoined : ofText (a ++ "," ++ b) uniqueKey =
      (ofText a uniqueKey >>= fun s =>
        (entries b).foldlM (fun s entry => do .ok (s.add (← readEntry entry))) s) := by
    rw [ofText, entries_append, List.foldlM_append, ofText]
  rw [hjoined]
  cases ha : ofText a uniqueKey with
  | error e => rfl
  | ok s =>
    -- The second text is filed from the first schema on, and that is the merge with no field yet.
    have hmerge := foldlM_merge s (ofKey uniqueKey) (entries b)
    rw [merge_ofKey (uniqueKey_ofText ha), ← ofText] at hmerge
    refine Eq.trans hmerge ?_
    cases ofText b uniqueKey <;> rfl

/-- A field of both texts is the one of the second text, and stray commas count for nothing. -/
example : ofText "a pint stored:false, ,,,a plong b:1," none =
    .ok ⟨"id", .ofList [("a", ⟨"a", "plong", true, true, .ofList [("b", "1")]⟩)]⟩ := by cbv

end SearchTable.Schema
