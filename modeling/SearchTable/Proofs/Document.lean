import Mathlib
import SearchTable.Document
/-!
# Fields of documents

Laws of setting and removing fields.  A document keeps the order of its fields, so these are
equations between documents: a field that is set and removed is removed, operations on different
fields exchange, and setting a field to the value it has changes nothing.

`Document.HasDistinctNames` says that no field stands twice.  Setting the fields of such a document
one after the other, from the empty document on, gives the document itself
(`Document.foldl_insert_empty`).
-/

namespace SearchTable.Document

variable {d : Document} {name other : String} {v w : Stored}

/-! ## Looking fields up -/

theorem get?_erase (d : Document) (name key : String) :
    (d.erase name).get? key = if key = name then none else d.get? key := by
  obtain ⟨fields⟩ := d
  simp only [erase, get?]
  induction fields with
  | nil => simp
  | cons f fields ih =>
    obtain ⟨n, v⟩ := f
    by_cases hn : n = name
    · subst hn
      rw [List.filter_cons_of_neg (by simp), ih]
      by_cases hkey : key = n
      · rw [if_pos hkey, if_pos hkey]
      · rw [if_neg hkey, if_neg hkey, List.lookup_cons, beq_eq_false_iff_ne.2 hkey]
    · rw [List.filter_cons_of_pos (by simpa using hn), List.lookup_cons, List.lookup_cons, ih]
      by_cases hkey : key = n
      · subst hkey
        simp [hn]
      · simp [beq_eq_false_iff_ne.2 hkey]

theorem getText?_eq_some_iff {text : String} :
    d.getText? name = some text ↔ d.get? name = some (.text text) := by
  rw [getText?]
  split
  · rename_i s hs
    simp [hs]
  · rename_i hs
    refine ⟨nofun, fun h => absurd h (hs text)⟩

theorem getText?_congr {e : Document} (h : d.get? name = e.get? name) :
    d.getText? name = e.getText? name := by
  rw [getText?, getText?, h]

theorem getText?_insert_text (d : Document) (name text : String) :
    (d.insert name (.text text)).getText? name = some text := by
  simp [getText?]

theorem getText?_insert_of_ne (d : Document) (v : Stored) (h : name ≠ other) :
    (d.insert other v).getText? name = d.getText? name :=
  getText?_congr (by simp [h])

theorem getText?_erase_of_ne (d : Document) (h : name ≠ other) :
    (d.erase other).getText? name = d.getText? name :=
  getText?_congr (by rw [get?_erase, if_neg h])

/-! ## Setting and removing fields -/

/-- Setting a field to the value it has changes nothing. -/
theorem insert_of_get? (h : d.get? name = some v) : d.insert name v = d := by
  obtain ⟨fields⟩ := d
  simp only [insert, get?, mk.injEq] at h ⊢
  induction fields with
  | nil => simp at h
  | cons f fields ih =>
    obtain ⟨n, u⟩ := f
    by_cases hn : n = name
    · subst hn
      obtain rfl : u = v := by simpa using h
      simp [setField]
    · have hne : (name == n) = false := beq_eq_false_iff_ne.2 (Ne.symm hn)
      rw [List.lookup_cons, hne] at h
      simp [setField, hn, ih h]

theorem erase_insert (d : Document) (name : String) (v : Stored) :
    (d.insert name v).erase name = d.erase name := by
  obtain ⟨fields⟩ := d
  simp only [insert, erase, mk.injEq]
  induction fields with
  | nil => simp [setField]
  | cons f fields ih =>
    obtain ⟨n, u⟩ := f
    by_cases hn : n = name
    · simp [setField, hn]
    · simp only [ne_eq, decide_not] at ih
      simp [setField, hn, ih]

theorem erase_insert_of_ne (d : Document) (v : Stored) (h : other ≠ name) :
    (d.insert other v).erase name = (d.erase name).insert other v := by
  obtain ⟨fields⟩ := d
  simp only [insert, erase, mk.injEq]
  induction fields with
  | nil => simp [setField, h]
  | cons f fields ih =>
    obtain ⟨n, u⟩ := f
    simp only [ne_eq, decide_not] at ih
    by_cases hn : n = other
    · subst hn
      simp [setField, h]
    · rw [setField, if_neg hn]
      by_cases hname : n = name <;> simp [setField, hn, hname, ih]

theorem erase_erase (d : Document) (name other : String) :
    (d.erase other).erase name = (d.erase name).erase other := by
  simp only [erase, List.filter_filter, Bool.and_comm]

theorem erase_of_get? (h : d.get? name = none) : d.erase name = d := by
  obtain ⟨fields⟩ := d
  simp only [erase, get?, mk.injEq] at h ⊢
  refine List.filter_eq_self.2 fun f hf => ?_
  have hne : name ≠ f.1 := by simpa using List.lookup_eq_none_iff.1 h f hf
  simpa using Ne.symm hne

theorem erase_erase_self (d : Document) (name : String) : (d.erase name).erase name = d.erase name :=
  erase_of_get? (by rw [get?_erase, if_pos rfl])

/-! ## Distinct names -/

/-- No field stands twice. -/
def HasDistinctNames (d : Document) : Prop := (d.fields.map Prod.fst).Nodup

instance (d : Document) : Decidable d.HasDistinctNames :=
  inferInstanceAs (Decidable (List.Nodup _))

theorem hasDistinctNames_empty : empty.HasDistinctNames := List.nodup_nil

theorem HasDistinctNames.erase (h : d.HasDistinctNames) (name : String) :
    (d.erase name).HasDistinctNames :=
  h.sublist (List.filter_sublist.map Prod.fst)

/-- The names after a field has been set: the same ones, or the new one behind them. -/
theorem map_fst_setField (name : String) (v : Stored) (fields : List (String × Stored)) :
    (setField name v fields).map Prod.fst =
      if name ∈ fields.map Prod.fst then fields.map Prod.fst
      else fields.map Prod.fst ++ [name] := by
  induction fields with
  | nil => simp [setField]
  | cons f fields ih =>
    obtain ⟨n, u⟩ := f
    by_cases hn : n = name
    · simp [setField, hn]
    · simp only [setField, if_neg hn, List.map_cons, ih, List.mem_cons, Ne.symm hn, false_or]
      split <;> simp

theorem HasDistinctNames.insert (h : d.HasDistinctNames) (name : String) (v : Stored) :
    (d.insert name v).HasDistinctNames := by
  rw [HasDistinctNames, Document.insert, map_fst_setField]
  split
  · exact h
  · rename_i hname
    exact List.nodup_append.2 ⟨h, by simp, by simpa using fun f v hf heq => hname (by
      rw [← heq]
      exact List.mem_map_of_mem hf)⟩

/-- A field that is not among the names is set behind the others. -/
theorem setField_of_notMem {fields : List (String × Stored)}
    (h : name ∉ fields.map Prod.fst) (v : Stored) :
    setField name v fields = fields ++ [(name, v)] := by
  induction fields with
  | nil => rfl
  | cons f fields ih =>
    obtain ⟨n, u⟩ := f
    simp only [List.map_cons, List.mem_cons, not_or] at h
    rw [setField, if_neg (Ne.symm h.1), ih h.2, List.cons_append]

/-- Setting new fields one after the other puts them behind the others. -/
theorem foldl_insert_of_nodup {fields : List (String × Stored)} (d : Document)
    (h : (d.fields.map Prod.fst ++ fields.map Prod.fst).Nodup) :
    fields.foldl (fun d f => d.insert f.1 f.2) d = ⟨d.fields ++ fields⟩ := by
  induction fields generalizing d with
  | nil => simp
  | cons f fields ih =>
    obtain ⟨n, v⟩ := f
    have hn : n ∉ d.fields.map Prod.fst := by
      intro hmem
      exact (List.nodup_append.1 h).2.2 n hmem n (by simp) rfl
    have hset : (d.insert n v).fields = d.fields ++ [(n, v)] := setField_of_notMem hn v
    rw [List.foldl_cons, ih]
    · rw [hset]
      simp
    · rw [hset]
      simpa using h

/-- Setting the fields of a document one after the other gives the document. -/
theorem foldl_insert_empty (h : d.HasDistinctNames) :
    d.fields.foldl (fun d f => d.insert f.1 f.2) empty = d :=
  foldl_insert_of_nodup empty h

end SearchTable.Document
