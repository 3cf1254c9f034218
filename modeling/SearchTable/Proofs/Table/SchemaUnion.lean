import SearchTable.Proofs.Schema.Merging
import SearchTable.Proofs.Store.Writes
import SearchTable.Proofs.Table.Latch
/-!
# Schemas of tables that share a collection

Every table that connects puts its schema over the one that its collection has.  What has come
together after any number of them is a union in which the last writer wins: a field is there when a
table has it or the schema before the first one had it, and the last one that has it defines it
(`Table.storedSchema_connects`).  Nothing is ever taken away, and a table that is declared like the
last one has nothing to add.

A run (`Table.Connects`) connects new tables one after the other.  In between, anything may happen
to the store that leaves the schema of the collection alone: documents come and go, and the store
may be out of reach for a while.
-/

namespace SearchTable

open Memory

namespace Memory

variable {m : Memory} {name : String} {c : Contents}

/-- The schema that a collection has. -/
def storedSchema (m : Memory) (name : String) : Option Schema :=
  (m.collections.get? name).bind Contents.schema

/-- A collection that has been created, and has a schema. -/
def Contents.withSchema (c : Contents) (s : Schema) : Contents :=
  { c with created := true, schema := some s }

theorem schema_getD_empty (m : Memory) (name : String) :
    ((m.collections.get? name).getD .empty).schema = m.storedSchema name := by
  rw [storedSchema]
  cases m.collections.get? name <;> rfl

theorem storedSchema_setContents (m : Memory) (name : String) (c : Contents) :
    (m.setContents name c).storedSchema name = c.schema := by
  rw [storedSchema, get?_setContents, Option.bind_some]

theorem ensure_eq (hopen : m.check = .ok ()) (collection : Collection) :
    m.ensure collection = (.ok (), m.setContents collection.name
      { (m.collections.get? collection.name).getD .empty with created := true }) := by
  simp only [ensure, hopen]
  rfl

/-- A collection that has been created takes the schema over the one that it has. -/
theorem syncSchema_eq (hopen : m.check = .ok ()) (hcontents : m.collections.get? name = some c)
    (hcreated : c.created = true) (s : Schema) :
    m.syncSchema name s true = (.ok (Schema.mergeOver c.schema s),
      m.setContents name (c.withSchema (Schema.mergeOver c.schema s))) := by
  have hc : c.withSchema (Schema.mergeOver c.schema s) =
      { c with schema := some (Schema.mergeOver c.schema s) } := by
    rw [Contents.withSchema, hcreated]
  rw [hc]
  simp only [syncSchema, contents, hopen, hcontents, hcreated, bind, Except.bind, if_true]
  cases c.schema <;> rfl

end Memory

namespace Table

variable {t t' last : Table} {ts : List Table} {w w' : World Memory} {name : String}

/-! ## One connect -/

/-- A table that has been declared for a collection with merging, and not been connected. -/
structure IsNew (name : String) (t : Table) : Prop where
  declared : ∃ table columns key options, declare table columns key options = .ok t
  merges : t.options.mergeSchema = true
  collection_name : t.collection.name = name

theorem IsNew.isUnconnected (h : IsNew name t) : t.IsUnconnected := by
  obtain ⟨table, columns, key, options, hdeclare⟩ := h.declared
  exact isUnconnected_of_declare hdeclare

theorem isNew_of_declare {table : String} {columns : List Column} {key : Option (List String)}
    {options : Options} (h : declare table columns key options = .ok t)
    (hmerge : options.mergeSchema = true) : IsNew (options.collection.getD table) t := by
  obtain ⟨-, collection, layout, hcollection, -, rfl⟩ := declare_eq_ok_iff.1 h
  obtain ⟨schema, -, hmade⟩ := bind_eq_ok_iff.1 hcollection
  obtain rfl := Except.ok.inj hmade
  exact ⟨⟨table, columns, key, options, h⟩, hmerge, rfl⟩

/-- A table has the schema of its options or its columns. -/
theorem IsNew.exists_schemaFor (h : IsNew name t) :
    ∃ columns options, Collection.schemaFor columns options = .ok t.collection.schema := by
  obtain ⟨table, columns, key, options, hdeclare⟩ := h.declared
  obtain ⟨-, collection, layout, hcollection, -, rfl⟩ := declare_eq_ok_iff.1 hdeclare
  obtain ⟨schema, hschema, hmade⟩ := bind_eq_ok_iff.1 hcollection
  obtain rfl := Except.ok.inj hmade
  exact ⟨columns, options, hschema⟩

/-- The world after a table has been connected: its collection is there, and has a schema. -/
def withSchema (w : World Memory) (name : String) (s : Schema) : World Memory :=
  let c := (w.store.collections.get? name).getD .empty
  { w with store := w.store.setContents name (c.withSchema s) }

theorem storedSchema_withSchema (w : World Memory) (name : String) (s : Schema) :
    (withSchema w name s).store.storedSchema name = some s :=
  storedSchema_setContents w.store name _

theorem withSchema_withSchema (w : World Memory) (name : String) (s s' : Schema) :
    withSchema (withSchema w name s) name s' = withSchema w name s' := by
  simp only [withSchema, get?_setContents, setContents_setContents, Option.getD_some]
  rfl

/-- A new table that reaches the store is connected, and its schema is put over the stored one. -/
theorem connect_of_open (h : IsNew name t) (hopen : w.store.check = .ok ()) :
    let s := Schema.mergeOver (w.store.storedSchema name) t.collection.schema
    t.connect Memory.service w = ((.ok (), t.connectedWith s), withSchema w name s) := by
  intro s
  obtain rfl := h.collection_name
  let c : Contents :=
    { (w.store.collections.get? t.collection.name).getD .empty with created := true }
  let w₁ : World Memory := { w with store := w.store.setContents t.collection.name c }
  have hc : c.schema = w.store.storedSchema t.collection.name := schema_getD_empty _ _
  have hensure : Act.ask Memory.service (.ensure t.collection) w = (.ok (), w₁) := by
    simp only [Act.ask, Memory.service, answer, ensure_eq hopen]
    rfl
  have hsync : w₁.store.syncSchema t.collection.name t.collection.schema true =
      (.ok s, (withSchema w t.collection.name s).store) := by
    have hopen₁ : w₁.store.check = .ok () := hopen
    rw [syncSchema_eq hopen₁ (get?_setContents w.store _ c) rfl, hc, setContents_setContents]
    rfl
  refine connect_of_ok h.isUnconnected hensure ?_
  simp only [Act.ask, Memory.service, answer, schemaRequest, h.merges, hsync]
  rfl

/-- A table that does not reach the store is not connected. -/
theorem connect_of_refused (h : IsNew name t) {e : StoreError}
    (hrefused : w.store.check = .error e) : (t.connect Memory.service w).1.1 ≠ .ok () := by
  have hensure : Act.ask Memory.service (.ensure t.collection) w = (.error e, w) := by
    simp only [Act.ask, Memory.service, answer, ensure, hrefused]
    rfl
  obtain ⟨log, hconnect⟩ := connect_of_ensure_error h.isUnconnected hensure
  rw [hconnect]
  simp

/-- A new table that has been connected has put its schema over the stored one. -/
theorem eq_of_connect (h : IsNew name t)
    (hconnect : t.connect Memory.service w = ((.ok (), t'), w')) :
    let s := Schema.mergeOver (w.store.storedSchema name) t.collection.schema
    w.store.check = .ok () ∧ t' = t.connectedWith s ∧ w' = withSchema w name s := by
  intro s
  cases hopen : w.store.check with
  | error e => exact absurd (by rw [hconnect]) (connect_of_refused h hopen)
  | ok _ =>
    have hboth := hconnect.symm.trans (connect_of_open h hopen)
    exact ⟨rfl, congrArg (·.1.2) hboth, congrArg Prod.snd hboth⟩

/-- A new table of the same schema changes nothing. -/
theorem connect_withSchema (h : IsNew name t) (hopen : w.store.check = .ok ())
    (stored : Option Schema) :
    let s := Schema.mergeOver stored t.collection.schema
    t.connect Memory.service (withSchema w name s) =
      ((.ok (), t.connectedWith s), withSchema w name s) := by
  intro s
  have hmerged : Schema.mergeOver (some s) t.collection.schema = s :=
    Schema.merge_mergeOver_self stored t.collection.schema
  have hconnect := connect_of_open (w := withSchema w name s) h hopen
  simpa only [storedSchema_withSchema, hmerged, withSchema_withSchema] using hconnect

/-! ## Connecting one after the other -/

/-- New tables are connected one after the other.  Every table is listed as it is then, with the
store right after its connect; the last store is that of the run.  The schema of the collection
stays as it is between two connects. -/
inductive Connects (name : String) :
    World Memory → List Table → List (Table × World Memory) → World Memory → Prop
  | nil (w : World Memory) : Connects name w [] [] w
  | cons {w w₁ w₂ w' : World Memory} {t t' : Table} {ts : List Table}
      {steps : List (Table × World Memory)}
      (meanwhile : w₁.store.storedSchema name = w.store.storedSchema name)
      (connected : t.connect Memory.service w₁ = ((.ok (), t'), w₂))
      (rest : Connects name w₂ ts steps w') : Connects name w (t :: ts) ((t', w₂) :: steps) w'

variable {steps : List (Table × World Memory)}

theorem Connects.storedSchema_eq (h : Connects name w ts steps w') (hnew : ∀ t ∈ ts, IsNew name t) :
    w'.store.storedSchema name =
      Schema.accumulate (w.store.storedSchema name) (ts.map (·.collection.schema)) := by
  induction h with
  | nil w => rfl
  | @cons w w₁ w₂ w' t t' ts steps meanwhile connected rest ih =>
    rw [List.forall_mem_cons] at hnew
    obtain ⟨-, -, rfl⟩ := eq_of_connect hnew.1 connected
    rw [ih hnew.2, storedSchema_withSchema, meanwhile]
    rfl

/-- Every table knows the schema that its collection has right after its connect. -/
theorem Connects.schema_eq (h : Connects name w ts steps w') (hnew : ∀ t ∈ ts, IsNew name t) :
    ∀ step ∈ steps, step.1.schema.isSome = true ∧
      step.1.schema = step.2.store.storedSchema name := by
  induction h with
  | nil w => simp
  | @cons w w₁ w₂ w' t t' ts steps meanwhile connected rest ih =>
    rw [List.forall_mem_cons] at hnew ⊢
    obtain ⟨-, rfl, rfl⟩ := eq_of_connect hnew.1 connected
    exact ⟨⟨rfl, (storedSchema_withSchema _ _ _).symm⟩, ih hnew.2⟩

/-- A run ends with the connect of its last table. -/
theorem Connects.exists_last (h : Connects name w (ts ++ [last]) steps w') :
    ∃ w₁ t', last.connect Memory.service w₁ = ((.ok (), t'), w') := by
  generalize hall : ts ++ [last] = all at h
  induction h generalizing ts with
  | nil w => simp at hall
  | @cons w w₁ w₂ w' t t' rest steps meanwhile connected hrest ih =>
    cases ts with
    | nil =>
      obtain ⟨rfl, rfl⟩ := List.cons.inj hall
      cases hrest
      exact ⟨w₁, t', connected⟩
    | cons head ts => exact ih (List.cons.inj hall).2

/-- After new tables have been connected one after the other, the stored schema is the union of
their schemas over the one that was there.  Its unique key is that of the last table, every
definition is filed under its own name, and the identity field is there.  Every table knows the
schema that was stored right after its connect, and one that is declared like the last table changes
nothing. -/
theorem storedSchema_connects (hnew : ∀ t ∈ ts ++ [last], IsNew name t)
    (hfiled : ∀ s, w.store.storedSchema name = some s → s.IsFiled)
    (hrun : Connects name w (ts ++ [last]) steps w') :
    ∃ s, w'.store.storedSchema name = some s ∧
      s.IsUnion ((w.store.storedSchema name).toList ++
        (ts ++ [last]).map (·.collection.schema)) ∧
      s.uniqueKey = last.collection.schema.uniqueKey ∧ s.IsFiled ∧
      s.fields.contains idField = true ∧
      (∀ step ∈ steps, step.1.schema.isSome = true ∧
        step.1.schema = step.2.store.storedSchema name) ∧
      ∀ again, IsNew name again → again.collection = last.collection →
        again.connect Memory.service w' = ((.ok (), again.connectedWith s), w') := by
  have hlastNew : IsNew name last := hnew last (by simp)
  obtain ⟨columns, options, hlastSchema⟩ := hlastNew.exists_schemaFor
  obtain ⟨w₁, t', hlast⟩ := hrun.exists_last
  obtain ⟨hopen, rfl, rfl⟩ := eq_of_connect hlastNew hlast
  let s := Schema.mergeOver (w₁.store.storedSchema name) last.collection.schema
  have hs : (withSchema w₁ name s).store.storedSchema name = some s := storedSchema_withSchema _ _ _
  have hunion : s.IsUnion ((w.store.storedSchema name).toList ++
      (ts ++ [last]).map (·.collection.schema)) :=
    Schema.isUnion_accumulate ((hrun.storedSchema_eq hnew).symm.trans hs)
  have hsFiled : s.IsFiled := by
    refine hunion.isFiled fun s' hs' => ?_
    rcases List.mem_append.1 hs' with hs' | hs'
    · exact hfiled s' (by simpa using hs')
    · obtain ⟨t, ht, rfl⟩ := List.mem_map.1 hs'
      obtain ⟨columns, options, hschema⟩ := (hnew t ht).exists_schemaFor
      exact Schema.isFiled_schemaFor hschema
  have hid : s.fields.contains idField = true := (hunion.contains_iff idField).2
    ⟨last.collection.schema, by simp, Schema.contains_schemaFor hlastSchema⟩
  refine ⟨s, hs, hunion, Schema.uniqueKey_mergeOver _ _, hsFiled, hid, hrun.schema_eq hnew,
    fun again hagain hsame => ?_⟩
  have hconnect := connect_withSchema hagain hopen (w₁.store.storedSchema name)
  rwa [hsame] at hconnect

/-- A table with the schema of its columns and one with a schema of its own, over a schema that has
been there before. -/
theorem storedSchema_connects_people :
    let columns : List Column := [⟨"name", .string⟩, ⟨"age", .int⟩]
    let legacy : Schema := (Schema.ofKey none).add (.plain "legacy" "string")
    let w : World Memory := ⟨Memory.empty.preloadSchema "people" legacy, 0, []⟩
    ∃ t last steps w', declare "people" columns none {} = .ok t ∧
      declare "people" columns none { schema := some "age plong indexed:false, city string" } =
        .ok last ∧
      (∀ t' ∈ [t] ++ [last], IsNew "people" t') ∧
      (∀ s, w.store.storedSchema "people" = some s → s.IsFiled) ∧
      Connects "people" w ([t] ++ [last]) steps w' ∧
      ∃ s, w'.store.storedSchema "people" = some s ∧
        s.IsUnion ((w.store.storedSchema "people").toList ++
          ([t] ++ [last]).map (·.collection.schema)) ∧
        s.uniqueKey = last.collection.schema.uniqueKey ∧ s.IsFiled ∧
        s.fields.contains idField = true ∧
        (∀ step ∈ steps, step.1.schema.isSome = true ∧
          step.1.schema = step.2.store.storedSchema "people") ∧
        ∀ again, IsNew "people" again → again.collection = last.collection →
          again.connect Memory.service w' = ((.ok (), again.connectedWith s), w') := by
  intro columns legacy w
  obtain ⟨t, ht⟩ : ∃ t, declare "people" columns none {} = .ok t := ⟨_, rfl⟩
  obtain ⟨last, hlast⟩ : ∃ t, declare "people" columns none
      { schema := some "age plong indexed:false, city string" } = .ok t := ⟨_, rfl⟩
  have htNew : IsNew "people" t := isNew_of_declare ht rfl
  have hlastNew : IsNew "people" last := isNew_of_declare hlast rfl
  have hnew : ∀ t' ∈ [t] ++ [last], IsNew "people" t' := by simp [htNew, hlastNew]
  have hfiled : ∀ s, w.store.storedSchema "people" = some s → s.IsFiled := by
    intro s hs
    obtain rfl : legacy = s := Option.some.inj hs
    exact (Schema.isFiled_ofKey none).add _
  have hrun : Connects "people" w [t, last] _ _ :=
    .cons rfl (connect_of_open htNew rfl) (.cons rfl (connect_of_open hlastNew rfl) (.nil _))
  exact ⟨t, last, _, _, ht, hlast, hnew, hfiled, hrun, storedSchema_connects hnew hfiled hrun⟩

end Table

end SearchTable
