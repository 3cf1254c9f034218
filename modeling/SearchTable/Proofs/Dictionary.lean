import Mathlib
import SearchTable.Dictionary
/-!
# Look-ups decide

Because the order of the entries is part of the type, two dictionaries with the same look-ups are
equal (`Dictionary.ext_get?`).  The other laws follow: a second insertion under a name takes the
place of the first one, inserting the value that a name has changes nothing, and a dictionary that
overrides another one is asked first.
-/

namespace SearchTable.Dictionary

variable {α : Type}

/-- A name below all others has no entry. -/
theorem lookup_eq_none_of_lt {name : String} {es : List (String × α)}
    (h : ∀ e ∈ es, name < e.1) : es.lookup name = none := by
  refine List.lookup_eq_none_iff.2 fun e he => ?_
  simpa using (h e he).ne

/-- Ascending entries with the same look-ups are the same entries. -/
theorem entries_ext {es fs : List (String × α)} (hes : es.Pairwise fun a b => a.1 < b.1)
    (hfs : fs.Pairwise fun a b => a.1 < b.1) (h : ∀ name, es.lookup name = fs.lookup name) :
    es = fs := by
  induction es generalizing fs with
  | nil =>
    cases fs with
    | nil => rfl
    | cons f fs =>
      obtain ⟨n, w⟩ := f
      simpa using h n
  | cons e es ih =>
    obtain ⟨m, v⟩ := e
    cases fs with
    | nil => simpa using h m
    | cons f fs =>
      obtain ⟨n, w⟩ := f
      obtain ⟨he, hes'⟩ := List.pairwise_cons.1 hes
      obtain ⟨hf, hfs'⟩ := List.pairwise_cons.1 hfs
      have hmn : m = n := by
        rcases lt_trichotomy m n with hlt | heq | hlt
        · have hnone : ((n, w) :: fs).lookup m = none := by
            refine lookup_eq_none_of_lt fun e' he' => ?_
            rcases List.mem_cons.1 he' with rfl | he'
            · exact hlt
            · exact hlt.trans (hf e' he')
          have hsome := h m
          rw [hnone] at hsome
          simp at hsome
        · exact heq
        · have hnone : ((m, v) :: es).lookup n = none := by
            refine lookup_eq_none_of_lt fun e' he' => ?_
            rcases List.mem_cons.1 he' with rfl | he'
            · exact hlt
            · exact hlt.trans (he e' he')
          have hsome := h n
          rw [hnone] at hsome
          simp at hsome
      subst hmn
      have hvw : v = w := by simpa using h m
      subst hvw
      refine congrArg _ (ih hes' hfs' fun key => ?_)
      by_cases hkey : key = m
      · subst hkey
        rw [lookup_eq_none_of_lt he, lookup_eq_none_of_lt hf]
      · simpa [List.lookup_cons, beq_eq_false_iff_ne.2 hkey] using h key

/-- Dictionaries with the same look-ups are equal. -/
theorem ext_get? {d e : Dictionary α} (h : ∀ name, d.get? name = e.get? name) : d = e :=
  ext_entries (entries_ext d.ascending e.ascending h)

theorem insert_insert (d : Dictionary α) (name : String) (v w : α) :
    (d.insert name v).insert name w = d.insert name w := by
  refine ext_get? fun key => ?_
  by_cases h : key = name <;> simp [h]

/-- Inserting the value that a name has changes nothing. -/
theorem insert_of_get? {d : Dictionary α} {name : String} {v : α} (h : d.get? name = some v) :
    d.insert name v = d := by
  refine ext_get? fun key => ?_
  by_cases hkey : key = name
  · subst hkey
    simp [h]
  · simp [hkey]

/-- An entry is what is found under its name. -/
theorem mem_entries_iff {d : Dictionary α} {name : String} {v : α} :
    (name, v) ∈ d.entries ↔ d.get? name = some v := by
  obtain ⟨es, hes⟩ := d
  show (name, v) ∈ es ↔ es.lookup name = some v
  induction es with
  | nil => simp
  | cons e es ih =>
    obtain ⟨n, w⟩ := e
    obtain ⟨hhead, hrest⟩ := List.pairwise_cons.1 hes
    by_cases hname : name = n
    · subst hname
      have hnot : (name, v) ∉ es := fun hmem => lt_irrefl name (hhead _ hmem)
      simp [hnot, eq_comm]
    · simp [List.lookup_cons, beq_eq_false_iff_ne.2 hname, hname, ih hrest]

/-! ## Erasing and overriding -/

theorem lookup_filter_ne (name key : String) (es : List (String × α)) :
    (es.filter fun e => e.1 ≠ name).lookup key = if key = name then none else es.lookup key := by
  induction es with
  | nil => simp
  | cons e es ih =>
    obtain ⟨n, v⟩ := e
    by_cases hn : n = name
    · subst hn
      rw [List.filter_cons_of_neg (by simp), ih]
      by_cases hkey : key = n
      · simp [hkey]
      · simp [List.lookup_cons, beq_eq_false_iff_ne.2 hkey]
    · rw [List.filter_cons_of_pos (by simpa using hn), List.lookup_cons, ih, List.lookup_cons]
      by_cases hkey : key = n
      · simp [hkey, hn]
      · simp [beq_eq_false_iff_ne.2 hkey]

@[simp] theorem get?_erase (d : Dictionary α) (name key : String) :
    (d.erase name).get? key = if key = name then none else d.get? key :=
  lookup_filter_ne name key d.entries

theorem get?_foldl_insert (d : Dictionary α) {es : List (String × α)}
    (h : es.Pairwise fun a b => a.1 < b.1) (name : String) :
    (es.foldl (fun d e => d.insert e.1 e.2) d).get? name = (es.lookup name).or (d.get? name) := by
  induction es generalizing d with
  | nil => rfl
  | cons e es ih =>
    obtain ⟨n, v⟩ := e
    obtain ⟨hhead, hrest⟩ := List.pairwise_cons.1 h
    rw [List.foldl_cons, ih (d.insert n v) hrest, get?_insert]
    by_cases hname : name = n
    · subst hname
      simp [lookup_eq_none_of_lt hhead]
    · simp [List.lookup_cons, beq_eq_false_iff_ne.2 hname, hname]

/-- A look-up asks the newer dictionary first. -/
@[simp] theorem get?_override (d newer : Dictionary α) (name : String) :
    (d.override newer).get? name = (newer.get? name).or (d.get? name) :=
  get?_foldl_insert d newer.ascending name

/-- The entries of a dictionary make up the dictionary. -/
theorem ofList_entries (d : Dictionary α) : ofList d.entries = d :=
  ext_get? fun name => by
    rw [ofList, get?_foldl_insert empty d.ascending name, get?_empty, Option.or_none, get?]

end SearchTable.Dictionary
