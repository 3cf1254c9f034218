import SearchTable.Collection
import SearchTable.Proofs.Dictionary
import SearchTable.Proofs.Failure
/-!
# Schemas merged one over the other

A definition is *filed* when it stands under its own name, which a schema does not promise by its
type: a dictionary may hold a definition under any name.  Schemas that are read or derived are filed
(`Schema.isFiled_schemaFor`), and merging keeps them so.

Merging looks a field up in the new schema first (`Schema.get?_merge`), so of schemas that are
merged one after the other, the last one that has a field defines it (`Schema.isUnion_accumulate`).
-/

namespace SearchTable.Schema

open Dictionary

variable {s old new : Schema} {f : FieldDef} {name : String}

/-! ## Filed definitions -/

/-- Every definition stands under its own name. -/
def IsFiled (s : Schema) : Prop := ∀ name f, s.fields.get? name = some f → f.name = name

theorem isFiled_ofKey (uniqueKey : Option String) : (ofKey uniqueKey).IsFiled := by
  intro name f h
  simp [ofKey] at h

theorem get?_add (s : Schema) (f : FieldDef) (name : String) :
    (s.add f).fields.get? name = if name = f.name then some f else s.fields.get? name :=
  get?_insert s.fields f.name f name

theorem IsFiled.add (h : s.IsFiled) (f : FieldDef) : (s.add f).IsFiled := by
  intro name g hg
  rw [get?_add] at hg
  split at hg
  · rename_i hname
    rw [← Option.some.inj hg, hname]
  · exact h name g hg

theorem IsFiled.withIdField (h : s.IsFiled) : s.withIdField.IsFiled := by
  rw [Schema.withIdField]
  split
  · exact h
  · exact h.add _

/-- A schema is extended one field at a time, and keeps what each addition keeps. -/
theorem ofText_induction {P : Schema → Prop} {text : String} {uniqueKey : Option String}
    (hkey : P (ofKey uniqueKey))
    (hadd : ∀ s entry f, P s → readEntry entry = .ok f → P (s.add f))
    (h : ofText text uniqueKey = .ok s) : P s := by
  have hfold : ∀ (es : List String) (start : Schema), P start →
      es.foldlM (fun s entry => do .ok (s.add (← readEntry entry))) start =
        (.ok s : Except StoreError Schema) → P s := by
    intro es
    induction es with
    | nil =>
      intro start hstart h
      exact Except.ok.inj h ▸ hstart
    | cons entry es ih =>
      intro start hstart h
      obtain ⟨next, hnext, hrest⟩ := bind_eq_ok_iff.1 h
      obtain ⟨f, hf, hadded⟩ := bind_eq_ok_iff.1 hnext
      exact ih next (Except.ok.inj hadded ▸ hadd start entry f hstart hf) hrest
  exact hfold _ _ hkey h

theorem isFiled_ofText {text : String} {uniqueKey : Option String}
    (h : ofText text uniqueKey = .ok s) : s.IsFiled :=
  ofText_induction (isFiled_ofKey uniqueKey) (fun _ _ f hs _ => hs.add f) h

theorem IsFiled.foldl_add {columns : List Column} (h : s.IsFiled) :
    (columns.foldl (fun s c => s.add (.plain c.name c.type.fieldType)) s).IsFiled := by
  induction columns generalizing s with
  | nil => exact h
  | cons c columns ih => exact ih (h.add _)

theorem isFiled_ofColumns (columns : List Column) : (ofColumns columns).IsFiled := by
  rw [ofColumns]
  split
  · exact (isFiled_ofKey none).foldl_add
  · exact ((isFiled_ofKey none).add _).foldl_add

/-- The schema of a table is filed, wherever it comes from. -/
theorem isFiled_schemaFor {columns : List Column} {o : Options}
    (h : Collection.schemaFor columns o = .ok s) : s.IsFiled := by
  rw [Collection.schemaFor] at h
  split at h
  · obtain ⟨read, hread, hs⟩ := bind_eq_ok_iff.1 h
    exact Except.ok.inj hs ▸ (isFiled_ofText hread).withIdField
  · exact Except.ok.inj h ▸ isFiled_ofColumns columns

/-! ## The identity field -/

/-- Adding a field keeps the others. -/
theorem contains_add (s : Schema) (f : FieldDef) (name : String) :
    (s.add f).fields.contains name = (decide (name = f.name) || s.fields.contains name) := by
  rw [contains, get?_add, contains]
  by_cases h : name = f.name <;> simp [h]

theorem contains_withIdField (s : Schema) : s.withIdField.fields.contains idField = true := by
  rw [withIdField]
  split
  · assumption
  · rw [contains_add]
    simp [FieldDef.plain]

theorem contains_foldl_add (columns : List Column) (s : Schema) (name : String) :
    (columns.foldl (fun s c => s.add (.plain c.name c.type.fieldType)) s).fields.contains name =
      ((columns.any fun c => c.name == name) || s.fields.contains name) := by
  induction columns generalizing s with
  | nil => rfl
  | cons c columns ih =>
    have hname : decide (name = c.name) = (c.name == name) := by
      rw [Bool.eq_iff_iff, decide_eq_true_iff, beq_iff_eq, eq_comm]
    rw [List.foldl_cons, ih, contains_add, List.any_cons, FieldDef.plain, hname, ← Bool.or_assoc,
      Bool.or_comm (List.any _ _)]

theorem contains_ofColumns (columns : List Column) :
    (ofColumns columns).fields.contains idField = true := by
  rw [ofColumns, contains_foldl_add]
  split
  · rename_i hid
    rw [hid, Bool.true_or]
  · rw [contains_add]
    simp [FieldDef.plain]

/-- The schema of a table has the identity field, wherever it comes from. -/
theorem contains_schemaFor {columns : List Column} {o : Options}
    (h : Collection.schemaFor columns o = .ok s) : s.fields.contains idField = true := by
  rw [Collection.schemaFor] at h
  split at h
  · obtain ⟨read, -, hs⟩ := bind_eq_ok_iff.1 h
    exact Except.ok.inj hs ▸ contains_withIdField read
  · exact Except.ok.inj h ▸ contains_ofColumns columns

/-! ## Merging -/

@[ext] theorem ext_fields {s s' : Schema} (hkey : s.uniqueKey = s'.uniqueKey)
    (hfields : ∀ name, s.fields.get? name = s'.fields.get? name) : s = s' := by
  obtain ⟨key, fields⟩ := s
  obtain rfl : key = s'.uniqueKey := hkey
  obtain rfl : fields = s'.fields := Dictionary.ext_get? hfields
  rfl

theorem get?_merge (old new : Schema) (name : String) :
    (old.merge new).fields.get? name = (new.fields.get? name).or (old.fields.get? name) :=
  get?_override old.fields new.fields name

/-- A schema merged over itself is itself. -/
theorem merge_self (s : Schema) : s.merge s = s :=
  ext_fields rfl fun name => by rw [get?_merge, Option.or_self]

/-- Merging the same schema a second time changes nothing. -/
theorem merge_merge_self (old new : Schema) : (old.merge new).merge new = old.merge new :=
  ext_fields rfl fun name => by
    rw [get?_merge, get?_merge]
    cases new.fields.get? name <;> rfl

/-! ## Merging one after the other -/

/-- The schema in effect after a new one has been put over the stored one, if there is one. -/
def mergeOver (stored : Option Schema) (new : Schema) : Schema :=
  stored.elim new fun old => old.merge new

/-- The schema in effect after schemas have been put over the stored one in order. -/
def accumulate (stored : Option Schema) (schemas : List Schema) : Option Schema :=
  schemas.foldl (fun stored s => some (mergeOver stored s)) stored

variable {stored : Option Schema} {schemas : List Schema}

theorem get?_mergeOver (stored : Option Schema) (new : Schema) (name : String) :
    (mergeOver stored new).fields.get? name =
      (new.fields.get? name).or (stored.bind fun s => s.fields.get? name) := by
  cases stored with
  | none => exact (Option.or_none).symm
  | some old => exact get?_merge old new name

theorem uniqueKey_mergeOver (stored : Option Schema) (new : Schema) :
    (mergeOver stored new).uniqueKey = new.uniqueKey := by
  cases stored <;> rfl

theorem merge_mergeOver_self (stored : Option Schema) (new : Schema) :
    (mergeOver stored new).merge new = mergeOver stored new := by
  cases stored with
  | none => exact merge_self new
  | some old => exact merge_merge_self old new

theorem accumulate_concat (stored : Option Schema) (schemas : List Schema) (s : Schema) :
    accumulate stored (schemas ++ [s]) = some (mergeOver (accumulate stored schemas) s) := by
  simp [accumulate]

/-- A field is looked up from the last schema to the first one. -/
theorem get?_accumulate (stored : Option Schema) (schemas : List Schema) (name : String) :
    ((accumulate stored schemas).bind fun s => s.fields.get? name) =
      (stored.toList ++ schemas).reverse.findSome? fun s => s.fields.get? name := by
  induction schemas using List.reverseRecOn with
  | nil => cases stored <;> simp [accumulate]
  | append_singleton schemas s ih =>
    rw [accumulate_concat, ← List.append_assoc, List.reverse_concat, List.findSome?_cons, ← ih,
      Option.bind_some, get?_mergeOver]
    cases s.fields.get? name <;> rfl

/-- A schema is the union of schemas in order: it has the fields of all of them, and the last one
that has a field defines it. -/
structure IsUnion (s : Schema) (schemas : List Schema) : Prop where
  contains_iff : ∀ name, s.fields.contains name = true ↔
    ∃ s' ∈ schemas, s'.fields.contains name = true
  get?_iff : ∀ name f, s.fields.get? name = some f ↔ ∃ before s' after,
    schemas = before ++ s' :: after ∧ s'.fields.get? name = some f ∧
      ∀ later ∈ after, later.fields.get? name = none

/-- What has been put over the stored schema is the union of it all. -/
theorem isUnion_accumulate (h : accumulate stored schemas = some s) :
    s.IsUnion (stored.toList ++ schemas) := by
  have hlookup : ∀ name, s.fields.get? name =
      (stored.toList ++ schemas).reverse.findSome? fun s => s.fields.get? name := fun name => by
    rw [← get?_accumulate, h, Option.bind_some]
  refine ⟨fun name => ?_, fun name f => ?_⟩
  · rw [contains, hlookup, List.findSome?_isSome_iff]
    simp only [contains, List.mem_reverse]
  · rw [hlookup, List.findSome?_eq_some_iff]
    constructor
    · rintro ⟨after, s', before, hsplit, hfield, hlater⟩
      refine ⟨before.reverse, s', after.reverse, ?_, hfield, fun later hmem =>
        hlater later (List.mem_reverse.1 hmem)⟩
      simpa using congrArg List.reverse hsplit
    · rintro ⟨before, s', after, hsplit, hfield, hlater⟩
      refine ⟨after.reverse, s', before.reverse, ?_, hfield, fun later hmem =>
        hlater later (List.mem_reverse.1 hmem)⟩
      simp [hsplit]

/-- A union of filed schemas is filed. -/
theorem IsUnion.isFiled (h : s.IsUnion schemas) (hfiled : ∀ s' ∈ schemas, s'.IsFiled) :
    s.IsFiled := by
  intro name f hf
  obtain ⟨before, s', after, rfl, hfield, -⟩ := (h.get?_iff name f).1 hf
  exact hfiled s' (List.mem_append_right before List.mem_cons_self) name f hfield

end SearchTable.Schema
