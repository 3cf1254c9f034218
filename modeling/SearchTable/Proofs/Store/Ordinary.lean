import SearchTable.Proofs.Store.Writes
/-!
# Ordinary collections

A collection is *ordinary* when every document has a text as its identity, no two have the same one,
no field of a document stands twice, and no value looks like the marker of a patch.  Collections
that tables write are ordinary, as long as the values are scalars: an ordinary write, whether a
document or a patch, leaves an ordinary collection (`Ordinary.accept`), and so does a deletion
(`Ordinary.discard`).
-/

namespace SearchTable

open Document

/-- A value that is not an object of the store. -/
def Value.IsScalar : Value → Prop
  | object _ => False
  | _ => True

instance (v : Value) : Decidable v.IsScalar := by
  cases v <;> simp only [Value.IsScalar] <;> infer_instance

theorem Value.IsScalar.unmark?_toStored {v : Value} (h : v.IsScalar) :
    v.toStored.unmark? = none := by
  cases v with
  | object _ => exact h.elim
  | _ => rfl

namespace Memory

/-- The marker of a value sets that value, and takes the field away for an absent one. -/
theorem newValue?_mark {v : Value} (h : v.IsScalar) :
    newValue? v.toStored.mark = if v.isNull then none else some v.toStored := by
  rw [newValue?, Stored.unmark?_mark]
  cases v with
  | object _ => exact h.elim
  | _ => rfl

variable {c : Contents} {d x : Document} {v : Stored} {id : String}

/-! ## Documents without markers -/

theorem isPatch_eq_false_iff : isPatch d = false ↔ ∀ f ∈ d.fields, f.2.unmark? = none := by
  simp [isPatch, List.any_eq_false]

theorem isPatch_erase (h : isPatch d = false) (name : String) : isPatch (d.erase name) = false := by
  rw [isPatch_eq_false_iff] at h ⊢
  exact fun f hf => h f (List.mem_of_mem_filter hf)

theorem mem_setField {name : String} {fields : List (String × Stored)} {f : String × Stored}
    (h : f ∈ setField name v fields) : f = (name, v) ∨ f ∈ fields := by
  induction fields with
  | nil => exact .inl (by simpa [setField] using h)
  | cons g fields ih =>
    obtain ⟨n, u⟩ := g
    rw [setField] at h
    split at h
    · rename_i hn
      rcases List.mem_cons.1 h with rfl | h
      · exact .inl (by rw [hn])
      · exact .inr (List.mem_cons_of_mem _ h)
    · rcases List.mem_cons.1 h with rfl | h
      · exact .inr List.mem_cons_self
      · exact (ih h).imp id (List.mem_cons_of_mem _)

theorem isPatch_insert (h : isPatch d = false) (hv : v.unmark? = none) (name : String) :
    isPatch (d.insert name v) = false := by
  rw [isPatch_eq_false_iff] at h ⊢
  intro f hf
  rcases mem_setField hf with rfl | hf
  · exact hv
  · exact h f hf

/-! ## Incoming fields -/

/-- What incoming fields leave holds no markers of its own. -/
def LeavesPlain (fields : List (String × Stored)) : Prop :=
  ∀ f ∈ fields, ∀ v, newValue? f.2 = some v → v.unmark? = none

theorem hasDistinctNames_applyFields (h : d.HasDistinctNames) (fields : List (String × Stored)) :
    (applyFields d fields).HasDistinctNames := by
  induction fields generalizing d with
  | nil => exact h
  | cons f fields ih =>
    obtain ⟨name, v⟩ := f
    rw [applyFields_cons]
    refine ih ?_
    rw [setIncoming]
    split
    · exact h
    · split
      · exact h.erase name
      · exact h.insert name _

theorem isPatch_applyFields (h : isPatch d = false) {fields : List (String × Stored)}
    (hfields : LeavesPlain fields) : isPatch (applyFields d fields) = false := by
  induction fields generalizing d with
  | nil => exact h
  | cons f fields ih =>
    obtain ⟨name, v⟩ := f
    rw [applyFields_cons]
    refine ih ?_ fun f hf => hfields f (List.mem_cons_of_mem _ hf)
    rw [setIncoming]
    split
    · exact h
    · split
      · exact isPatch_erase h name
      · rename_i w hw
        exact isPatch_insert h (hfields (name, v) (by simp) w hw) name

/-- Without markers what is left is what comes in. -/
theorem leavesPlain_of_isPatch (h : isPatch d = false) : LeavesPlain d.fields := by
  intro f hf v hv
  have hplain := isPatch_eq_false_iff.1 h f hf
  rw [newValue?_of_unmarked hplain] at hv
  exact Option.some.inj hv ▸ hplain

/-! ## Ordinary collections -/

/-- Documents with identities of their own, without repeated fields and without markers. -/
structure Ordinary (ds : List Document) : Prop where
  keyed : Keyed ds
  names : ∀ d ∈ ds, d.HasDistinctNames
  plain : ∀ d ∈ ds, isPatch d = false

/-- A write that addresses an identity, repeats no field and leaves no markers. -/
structure IsOrdinaryWrite (x : Document) : Prop where
  addressed : ∃ id, Addresses x id
  names : x.HasDistinctNames
  leavesPlain : LeavesPlain x.fields

theorem IsOrdinaryWrite.isSome (h : IsOrdinaryWrite x) : (x.get? idField).isSome = true := by
  obtain ⟨id, hid⟩ := h.addressed
  rw [hid.get?_eq]
  rfl

theorem Ordinary.of_cons {ds : List Document} (h : Ordinary (d :: ds)) : Ordinary ds where
  keyed := ⟨fun e he => h.keyed.isSome e (List.mem_cons_of_mem _ he),
    (List.nodup_cons.1 h.keyed.nodup).2⟩
  names e he := h.names e (List.mem_cons_of_mem _ he)
  plain e he := h.plain e (List.mem_cons_of_mem _ he)

theorem Ordinary.filter {ds : List Document} (h : Ordinary ds) (p : Document → Bool) :
    Ordinary (ds.filter p) where
  keyed := h.keyed.filter p
  names d hd := h.names d (List.mem_of_mem_filter hd)
  plain d hd := h.plain d (List.mem_of_mem_filter hd)

theorem Ordinary.discard (h : Ordinary c.documents) (ids : List String) :
    Ordinary (c.discard ids).documents := h.filter _

/-- A document after a write was there before, or it is what has been written. -/
theorem mem_documents_accept (h : Addresses x id) {e : Document}
    (he : e ∈ (c.accept x).documents) :
    e ∈ c.documents ∨ ∃ o, (∀ d ∈ o, d ∈ c.documents) ∧
      e = withVersion (c.accepted + 1) (writtenOver x o) := by
  rw [accept_eq h.get?_eq] at he
  simp only at he
  cases hchange : changeFirst (idText (.text id)) (written (c.accepted + 1) x) c.documents with
  | none =>
    rw [hchange, Option.getD_none] at he
    rcases List.mem_append.1 he with he | he
    · exact .inl he
    · exact .inr ⟨none, by simp, List.mem_singleton.1 he⟩
  | some es =>
    obtain ⟨before, d, after, hds, rfl, -, -⟩ := changeFirst_eq_some hchange
    rw [hchange, Option.getD_some] at he
    rcases List.mem_append.1 he with he | he
    · exact .inl (hds ▸ List.mem_append_left _ he)
    · rcases List.mem_cons.1 he with rfl | he
      · exact .inr ⟨some d, by simp [hds], rfl⟩
      · exact .inl (by simp [hds, he])

/-- An ordinary write leaves an ordinary collection. -/
theorem Ordinary.accept (h : Ordinary c.documents) (hx : IsOrdinaryWrite x) :
    Ordinary (c.accept x).documents := by
  obtain ⟨id, hid⟩ := hx.addressed
  have hwritten : ∀ o : Option Document, (∀ d ∈ o, d ∈ c.documents) →
      (writtenOver x o).HasDistinctNames ∧ isPatch (writtenOver x o) = false := by
    intro o ho
    cases o with
    | none =>
      exact ⟨hasDistinctNames_applyFields hasDistinctNames_empty _,
        isPatch_applyFields rfl hx.leavesPlain⟩
    | some d =>
      have hd : d ∈ c.documents := ho d rfl
      rw [writtenOver]
      split
      · exact ⟨hasDistinctNames_applyFields (h.names d hd) _,
          isPatch_applyFields (h.plain d hd) hx.leavesPlain⟩
      · rename_i hplain
        exact ⟨hx.names, by simpa using hplain⟩
  refine ⟨h.keyed.accept hid, ?_, ?_⟩
  · intro e he
    obtain he | ⟨o, ho, rfl⟩ := mem_documents_accept hid he
    · exact h.names e he
    · exact (hwritten o ho).1.insert _ _
  · intro e he
    obtain he | ⟨o, ho, rfl⟩ := mem_documents_accept hid he
    · exact h.plain e he
    · exact isPatch_insert (hwritten o ho).2 rfl _

theorem Ordinary.foldl_accept {xs : List Document} (h : Ordinary c.documents)
    (hxs : ∀ x ∈ xs, IsOrdinaryWrite x) : Ordinary (xs.foldl Contents.accept c).documents := by
  induction xs generalizing c with
  | nil => exact h
  | cons x xs ih =>
    exact ih (h.accept (hxs x (by simp))) fun y hy => hxs y (List.mem_cons_of_mem _ hy)

end Memory

end SearchTable
