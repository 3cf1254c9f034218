/-!
# Dictionaries

A dictionary maps names to values and lists its entries in the order of the names.  Names are
ordered by their characters' code points, so equal dictionaries list equal entries: the order is
part of the type, and two dictionaries with the same look-ups are the same dictionary.
-/

namespace SearchTable

/-- Entries with distinct names in ascending order. -/
structure Dictionary (α : Type) where
  entries : List (String × α)
  ascending : entries.Pairwise fun a b => a.1 < b.1

namespace Dictionary

variable {α β : Type}

/-- The entries after `name` has been given a value: the entry of that name is replaced, or a new
one takes its place in the order. -/
def insertEntry (name : String) (value : α) : List (String × α) → List (String × α)
  | [] => [(name, value)]
  | (n, v) :: rest =>
    if name < n then (name, value) :: (n, v) :: rest
    else if name = n then (name, value) :: rest
    else (n, v) :: insertEntry name value rest

theorem mem_insertEntry {name : String} {value : α} {es : List (String × α)} {e : String × α}
    (h : e ∈ insertEntry name value es) : e = (name, value) ∨ e ∈ es := by
  induction es with
  | nil => simpa [insertEntry] using h
  | cons head rest ih =>
    obtain ⟨n, v⟩ := head
    simp only [insertEntry] at h
    split at h
    · simpa using h
    · split at h
      · rcases List.mem_cons.1 h with h | h
        · exact .inl h
        · exact .inr (List.mem_cons_of_mem _ h)
      · rcases List.mem_cons.1 h with h | h
        · exact .inr (h ▸ List.mem_cons_self)
        · exact (ih h).imp id (List.mem_cons_of_mem _)

theorem ascending_insertEntry {name : String} {value : α} {es : List (String × α)}
    (h : es.Pairwise fun a b => a.1 < b.1) :
    (insertEntry name value es).Pairwise fun a b => a.1 < b.1 := by
  induction es with
  | nil => simp [insertEntry]
  | cons head rest ih =>
    obtain ⟨n, v⟩ := head
    have hrest := (List.pairwise_cons.1 h).2
    have hhead := (List.pairwise_cons.1 h).1
    simp only [insertEntry]
    split
    · rename_i hlt
      refine List.pairwise_cons.2 ⟨fun e he => ?_, h⟩
      rcases List.mem_cons.1 he with rfl | he
      · exact hlt
      · exact String.lt_trans hlt (hhead e he)
    · rename_i hnlt
      split
      · rename_i heq
        exact List.pairwise_cons.2 ⟨fun e he => heq ▸ hhead e he, hrest⟩
      · rename_i hne
        refine List.pairwise_cons.2 ⟨fun e he => ?_, ih hrest⟩
        rcases mem_insertEntry he with rfl | he
        · have hle : n ≤ name := String.not_lt.1 hnlt
          exact Classical.byContradiction fun hnot =>
            hne (String.le_antisymm (String.not_lt.1 hnot) hle)
        · exact hhead e he

/-- The dictionary without entries. -/
def empty : Dictionary α := ⟨[], List.Pairwise.nil⟩

instance : EmptyCollection (Dictionary α) := ⟨empty⟩

instance : Inhabited (Dictionary α) := ⟨empty⟩

/-- Gives `name` a value, in place of the one it had. -/
def insert (d : Dictionary α) (name : String) (value : α) : Dictionary α :=
  ⟨insertEntry name value d.entries, ascending_insertEntry d.ascending⟩

/-- The value of a name. -/
def get? (d : Dictionary α) (name : String) : Option α := d.entries.lookup name

/-- Whether a name has a value. -/
def contains (d : Dictionary α) (name : String) : Bool := (d.get? name).isSome

/-- The names in ascending order. -/
def names (d : Dictionary α) : List String := d.entries.map (·.1)

/-- The entries without the one of a name. -/
def erase (d : Dictionary α) (name : String) : Dictionary α :=
  ⟨d.entries.filter fun e => e.1 ≠ name, d.ascending.filter _⟩

/-- The dictionary of a list of entries; of several entries with one name the last one counts. -/
def ofList (es : List (String × α)) : Dictionary α :=
  es.foldl (fun d e => d.insert e.1 e.2) empty

/-- All entries of `d` and of `newer`; where both have a name, the value is that of `newer`. -/
def override (d newer : Dictionary α) : Dictionary α :=
  newer.entries.foldl (fun d e => d.insert e.1 e.2) d

/-- Changes the value of a name, starting from `initial` when it has none. -/
def modify (d : Dictionary α) (name : String) (initial : α) (f : α → α) : Dictionary α :=
  d.insert name (f ((d.get? name).getD initial))

@[ext] theorem ext_entries {d e : Dictionary α} (h : d.entries = e.entries) : d = e := by
  cases d; cases e; simp_all

instance [DecidableEq α] : DecidableEq (Dictionary α) := fun d e =>
  decidable_of_iff (d.entries = e.entries) ⟨ext_entries, fun h => h ▸ rfl⟩

instance [Repr α] : Repr (Dictionary α) := ⟨fun d n => reprPrec d.entries n⟩

theorem lookup_insertEntry (name : String) (value : α) (es : List (String × α)) (key : String) :
    (insertEntry name value es).lookup key = if key = name then some value else es.lookup key := by
  induction es with
  | nil =>
    by_cases h : key = name <;>
      simp [insertEntry, List.lookup_cons, List.lookup_nil, h, beq_eq_false_iff_ne.2]
  | cons head rest ih =>
    obtain ⟨n, v⟩ := head
    simp only [insertEntry]
    split
    · by_cases h : key = name <;> simp [List.lookup_cons, h, beq_eq_false_iff_ne.2]
    · split
      · rename_i heq
        subst heq
        by_cases h : key = name <;> simp [List.lookup_cons, h, beq_eq_false_iff_ne.2]
      · rename_i hne
        by_cases h : key = n
        · subst h
          have : ¬ key = name := fun h' => hne h'.symm
          simp [this]
        · simp [List.lookup_cons, beq_eq_false_iff_ne.2 h, ih]

/-- A look-up after an insertion finds the new value under its name and the old one elsewhere. -/
@[simp] theorem get?_insert (d : Dictionary α) (name : String) (value : α) (key : String) :
    (d.insert name value).get? key = if key = name then some value else d.get? key :=
  lookup_insertEntry name value d.entries key

@[simp] theorem get?_empty (key : String) : (empty : Dictionary α).get? key = none := rfl

end Dictionary

end SearchTable
