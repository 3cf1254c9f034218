import SearchTable.Proofs.Number.Widening
import SearchTable.Proofs.Store.Versions
import SearchTable.Proofs.Table.Reachable
/-!
# Records that are read back

From a record to a document and back: a document leaves absent values out and adds the identity, the
store adds a version, and reading a column gives its value again.  `Value.reread` says what becomes
of a value on the way: only an object of the store that is a list is not the same, since of a list
the first item counts.

`Layout.readRecord_documentOf` puts the columns together, `RecordCursor.Yields` is what a cursor
over records gives until it ends, and `Table.yields_find` says that a search without a condition
yields the records of all documents in storage order, in pages of any size.
-/

namespace SearchTable

open Memory Document Number

/-! ## Values -/

namespace Value

/-- The type of the columns that a value belongs to; an absent value belongs to none. -/
def columnType? : Value → Option ColumnType
  | null => none
  | int _ => some .int
  | long _ => some .long
  | float _ => some .float
  | double _ => some .double
  | bool _ => some .bool
  | text _ => some .string
  | object _ => some .object

/-- Whether a value can stand in a column of a type: it is absent or of the type, and an object of
the store is not the absent one. -/
def HasType (v : Value) (type : ColumnType) : Prop :=
  v ≠ object .null ∧ ∀ own ∈ v.columnType?, own = type

instance (v : Value) (type : ColumnType) : Decidable (v.HasType type) :=
  inferInstanceAs (Decidable (_ ∧ _))

/-- A value as it is read back.  Of a list in the store only the first item is left. -/
def reread : Value → Value
  | object (.array []) => null
  | object (.array (.null :: _)) => null
  | object (.array (item :: _)) => object item
  | v => v

theorem reread_of_isScalar {v : Value} (h : v.IsScalar) : v.reread = v := by
  cases v with
  | object _ => exact h.elim
  | _ => rfl

theorem HasType.isScalar {v : Value} {type : ColumnType} (h : v.HasType type)
    (htype : type ≠ .object) : v.IsScalar := by
  cases v with
  | object v => exact absurd (h.2 .object rfl).symm htype
  | _ => trivial

/-- What is stored for a value is read back through the type of its column. -/
theorem ofStored_toStored {v : Value} {type : ColumnType} (h : v.HasType type)
    (hnull : v.isNull = false) : ofStored v.toStored type = v.reread := by
  cases v with
  | null => cases hnull
  | float x =>
    obtain rfl := h.2 .float rfl
    exact congrArg float x.convert_convert
  | object v =>
    obtain rfl := h.2 .object rfl
    cases v with
    | null => exact absurd rfl h.1
    | array items =>
      cases items with
      | nil => rfl
      | cons item items => cases item <;> rfl
    | _ => rfl
  | _ =>
    obtain rfl := h.2 _ rfl
    rfl

end Value

/-! ## Documents of records -/

namespace Layout

variable {l : Layout} {columns : List Column} {r : Record} {name id : String} {d : Document}

/-- A record with one value for every column, each of the type of its column. -/
def Fits (columns : List Column) (r : Record) : Prop :=
  List.Forall₂ (fun (c : Column) (v : Value) => v.HasType c.type) columns r

instance (columns : List Column) (r : Record) : Decidable (Fits columns r) :=
  inferInstanceAs (Decidable (List.Forall₂ _ _ _))

/-- A document with further fields of a record. -/
def addFields (d : Document) (fields : List (Column × Value)) : Document :=
  fields.foldl (fun d f => if f.2.isNull then d else d.insert f.1.name f.2.toStored) d

theorem fieldsOf_eq (columns : List Column) (r : Record) :
    fieldsOf columns r = addFields .empty (columns.zip r) := rfl

theorem addFields_cons (d : Document) (c : Column) (v : Value) (fields : List (Column × Value)) :
    addFields d ((c, v) :: fields) =
      addFields (if v.isNull then d else d.insert c.name v.toStored) fields := rfl

theorem get?_addFields_of_notMem {fields : List (Column × Value)}
    (h : name ∉ fields.map fun f => f.1.name) (d : Document) :
    (addFields d fields).get? name = d.get? name := by
  induction fields generalizing d with
  | nil => rfl
  | cons f fields ih =>
    obtain ⟨c, v⟩ := f
    rw [List.map_cons, List.mem_cons, not_or] at h
    rw [addFields_cons, ih h.2]
    split
    · rfl
    · rw [get?_insert, if_neg h.1]

/-- Every field is there with its value, unless that is absent. -/
theorem get?_addFields {fields : List (Column × Value)}
    (hnames : (fields.map fun f => f.1.name).Nodup) {c : Column} {v : Value}
    (hmem : (c, v) ∈ fields) (hd : d.get? c.name = none) :
    (addFields d fields).get? c.name = if v.isNull then none else some v.toStored := by
  induction fields generalizing d with
  | nil => cases hmem
  | cons f fields ih =>
    obtain ⟨c', v'⟩ := f
    rw [List.map_cons, List.nodup_cons] at hnames
    rw [addFields_cons]
    rcases List.mem_cons.1 hmem with heq | hmem
    · obtain ⟨rfl, rfl⟩ := Prod.mk.inj heq
      rw [get?_addFields_of_notMem hnames.1]
      split
      · exact hd
      · rw [get?_insert, if_pos rfl]
    · have hne : c.name ≠ c'.name := fun heq =>
        hnames.1 (heq ▸ List.mem_map_of_mem (f := fun f : Column × Value => f.1.name) hmem)
      refine ih hnames.2 hmem ?_
      split
      · exact hd
      · rw [get?_insert, if_neg hne, hd]

/-- What holds of a document, and what every field that is set keeps, holds with all fields. -/
theorem addFields_induction {P : Document → Prop} {fields : List (Column × Value)} (hd : P d)
    (hinsert : ∀ f ∈ fields, f.2.isNull = false →
      ∀ d, P d → P (d.insert f.1.name f.2.toStored)) : P (addFields d fields) := by
  induction fields generalizing d with
  | nil => exact hd
  | cons f fields ih =>
    obtain ⟨c, v⟩ := f
    obtain ⟨hfirst, hrest⟩ := List.forall_mem_cons.1 hinsert
    rw [addFields_cons]
    refine ih ?_ hrest
    split
    · exact hd
    · rename_i hv
      exact hfirst (Bool.eq_false_iff.2 hv) d hd

theorem hasDistinctNames_addFields (h : d.HasDistinctNames) (fields : List (Column × Value)) :
    (addFields d fields).HasDistinctNames :=
  addFields_induction h fun f _ _ _ hd => hd.insert f.1.name f.2.toStored

theorem isPatch_addFields {fields : List (Column × Value)} (h : isPatch d = false)
    (hplain : ∀ f ∈ fields, f.2.toStored.unmark? = none) :
    isPatch (addFields d fields) = false :=
  addFields_induction (P := fun d => isPatch d = false) h fun f hf _ _ hd =>
    isPatch_insert hd (hplain f hf) f.1.name

/-- The names of the columns that a record has values for are names of columns. -/
theorem map_name_zip_sublist (columns : List Column) (r : Record) :
    ((columns.zip r).map fun f => f.1.name).Sublist (columns.map Column.name) := by
  induction columns generalizing r with
  | nil => exact List.nil_sublist _
  | cons c columns ih =>
    cases r with
    | nil => exact List.nil_sublist _
    | cons v r => exact (ih r).cons_cons c.name

/-- Columns with names of their own, none of them that of the identity or the version. -/
structure IsProper (columns : List Column) : Prop where
  names : (columns.map Column.name).Nodup
  id : idField ∉ columns.map Column.name
  version : versionField ∉ columns.map Column.name

instance (columns : List Column) : Decidable (IsProper columns) :=
  decidable_of_iff ((columns.map Column.name).Nodup ∧ idField ∉ columns.map Column.name ∧
    versionField ∉ columns.map Column.name) ⟨fun ⟨h₁, h₂, h₃⟩ => ⟨h₁, h₂, h₃⟩,
      fun h => ⟨h.names, h.id, h.version⟩⟩

/-- The document of a record under an identity. -/
def documentOf (columns : List Column) (id : String) (r : Record) : Document :=
  (fieldsOf columns r).insert idField (.text id)

theorem get?_fieldsOf_of_notMem (h : name ∉ columns.map Column.name) (r : Record) :
    (fieldsOf columns r).get? name = none :=
  get?_addFields_of_notMem (fun hmem => h ((map_name_zip_sublist columns r).subset hmem)) _

theorem getText?_documentOf (columns : List Column) (id : String) (r : Record) :
    (documentOf columns id r).getText? idField = some id :=
  getText?_insert_text _ _ _

theorem hasDistinctNames_documentOf (columns : List Column) (id : String) (r : Record) :
    (documentOf columns id r).HasDistinctNames :=
  (hasDistinctNames_addFields hasDistinctNames_empty _).insert _ _

theorem addresses_documentOf (columns : List Column) (id : String) (r : Record) :
    Addresses (documentOf columns id r) id :=
  addresses_of_getText? (hasDistinctNames_documentOf columns id r)
    (getText?_documentOf columns id r)

/-- No value of a record looks like the marker of a patch. -/
def IsUnmarked (r : Record) : Prop := ∀ v ∈ r, v.toStored.unmark? = none

instance (r : Record) : Decidable (IsUnmarked r) := inferInstanceAs (Decidable (∀ v ∈ r, _))

theorem isPatch_documentOf (h : IsUnmarked r) (columns : List Column) (id : String) :
    isPatch (documentOf columns id r) = false :=
  isPatch_insert (isPatch_addFields rfl fun f hf => h f.2 (List.of_mem_zip hf).2) rfl _

theorem unversioned_documentOf (h : IsProper columns) (id : String) (r : Record) :
    unversioned (documentOf columns id r) = documentOf columns id r := by
  refine erase_of_get? ?_
  rw [documentOf, get?_insert, if_neg (by decide), get?_fieldsOf_of_notMem h.version]

/-! ## Reading -/

/-- The version of a document is not read. -/
theorem readRecord_unversioned (h : versionField ∉ columns.map Column.name) (d : Document) :
    readRecord columns (unversioned d) = readRecord columns d := by
  refine List.map_congr_left fun c hc => ?_
  have hne : c.name ≠ versionField := fun heq => h (heq ▸ List.mem_map_of_mem hc)
  rw [readColumn, readColumn, unversioned, get?_erase, if_neg hne]

/-- A document of a record has the values of the record, absent ones apart. -/
theorem get?_documentOf (hnames : (columns.map Column.name).Nodup)
    (hid : idField ∉ columns.map Column.name) {c : Column} {v : Value}
    (hmem : (c, v) ∈ columns.zip r) (id : String) :
    (documentOf columns id r).get? c.name = if v.isNull then none else some v.toStored := by
  have hne : c.name ≠ idField := fun heq =>
    hid (heq ▸ List.mem_map_of_mem (List.of_mem_zip hmem).1)
  have hzip := hnames.sublist (map_name_zip_sublist columns r)
  rw [documentOf, get?_insert, if_neg hne, fieldsOf_eq, get?_addFields hzip hmem (get?_empty _)]

/-- Every value that fits its column is read back from the document, up to the list that it may
be. -/
theorem readColumn_documentOf (hnames : (columns.map Column.name).Nodup)
    (hid : idField ∉ columns.map Column.name) {c : Column} {v : Value}
    (hmem : (c, v) ∈ columns.zip r) (htype : v.HasType c.type) (id : String) :
    readColumn (documentOf columns id r) c = v.reread := by
  rw [readColumn, get?_documentOf hnames hid hmem]
  cases hnull : v.isNull with
  | true =>
    obtain rfl := Value.isNull_iff.1 hnull
    rfl
  | false => exact Value.ofStored_toStored htype hnull

/-- The document of a record is read back as the record, up to its lists. -/
theorem readRecord_documentOf (h : IsProper columns) (hfits : Fits columns r) (id : String) :
    readRecord columns (documentOf columns id r) = r.map Value.reread := by
  rw [readRecord, ← List.forall₂_eq_eq_eq, List.forall₂_map_left_iff, List.forall₂_map_right_iff,
    List.forall₂_iff_zip]
  exact ⟨hfits.length_eq, fun hmem =>
    readColumn_documentOf h.names h.id hmem ((List.forall₂_iff_zip.1 hfits).2 hmem) id⟩

/-- A record of full width has a value for every column. -/
theorem exists_mem_zip (hlength : r.length = columns.length) {column : Column}
    (hcolumn : column ∈ columns) : ∃ v, (column, v) ∈ columns.zip r := by
  obtain ⟨i, hi, rfl⟩ := List.getElem_of_mem hcolumn
  exact ⟨r[i], List.mem_iff_getElem.2 ⟨i, by simpa [hlength] using hi, by simp⟩⟩

/-- Columns with names of their own are told by them. -/
theorem mem_zip_valueIn (hnames : (columns.map Column.name).Nodup)
    (hlength : r.length = columns.length) {column : Column} (hcolumn : column ∈ columns) :
    (column, valueIn columns r column.name) ∈ columns.zip r := by
  obtain ⟨v, hv⟩ := exists_mem_zip hlength hcolumn
  have hzip := hnames.sublist (map_name_zip_sublist columns r)
  have hvalue : valueIn columns r column.name = v := by
    rw [valueIn]
    cases hfind : (columns.zip r).find? fun f => f.1.name == column.name with
    | none => simpa using List.find?_eq_none.1 hfind (column, v) hv
    | some f =>
      have hname : f.1.name = column.name := by simpa using List.find?_some hfind
      rw [List.inj_on_of_nodup_map hzip (List.mem_of_find?_eq_some hfind) hv hname]
      rfl
  rwa [hvalue]

/-- The value of a record in a column is the one that has been read from its document. -/
theorem valueIn_readRecord (columns : List Column) (d : Document) (name : String) :
    valueIn columns (readRecord columns d) name =
      ((column? columns name).map (readColumn d)).getD .null := by
  induction columns with
  | nil => rfl
  | cons c columns ih =>
    by_cases hname : c.name = name
    · simp [valueIn, readRecord, column?, hname]
    · simpa [valueIn, readRecord, column?, hname] using ih

/-! ## Building -/

/-- The identity of a record by the columns of a key. -/
def keyIdentity (columns : List Column) (names : List String) (r : Record) : String :=
  Identity.ofKey (names.map (valueIn columns r))

/-- The identity that a record gets: that of its key, or the next one of the supply. -/
def identityIn (l : Layout) (supply : Nat) (r : Record) : String :=
  match l.key with
  | some names => keyIdentity l.columns names r
  | none => Identity.ofNumber supply

theorem identityIn_of_key {names : List String} (hkey : l.key = some names) (supply : Nat) :
    l.identityIn supply = keyIdentity l.columns names := by
  funext r
  rw [identityIn, hkey]

/-- A record of full width becomes a document under its identity, when no column claims that. -/
theorem build_eq (hid : idField ∉ l.columns.map Column.name)
    (hlength : r.length = l.columns.length) (supply : Nat) :
    ∃ supply', l.build supply r =
      .ok (documentOf l.columns (l.identityIn supply r) r, supply') := by
  have hwidth : l.checkWidth r = .ok () := if_pos hlength
  have hcontains : (fieldsOf l.columns r).contains idField = false := by
    rw [Document.contains, get?_fieldsOf_of_notMem hid]
    rfl
  simp only [build, hwidth, bind, Except.bind, hcontains, Bool.false_eq_true, if_false, identityIn]
  cases l.key with
  | some names => exact ⟨supply, rfl⟩
  | none => exact ⟨supply + 1, rfl⟩

/-- Under a key the identities do not depend on the supply. -/
theorem buildAll_eq (h : IsProper l.columns) {names : List String} (hkey : l.key = some names)
    {records : List Record} (hfits : ∀ r ∈ records, Fits l.columns r) (supply : Nat) :
    ∃ supply', l.buildAll supply records =
      .ok (records.map fun r => documentOf l.columns (keyIdentity l.columns names r) r,
        supply') := by
  induction records generalizing supply with
  | nil => exact ⟨supply, rfl⟩
  | cons r records ih =>
    obtain ⟨next, hfirst⟩ := build_eq h.id (hfits r List.mem_cons_self).length_eq.symm supply
    obtain ⟨last, hrest⟩ := ih (fun s hs => hfits s (List.mem_cons_of_mem _ hs)) next
    rw [identityIn_of_key hkey] at hfirst
    exact ⟨last, by simp only [buildAll, hfirst, hrest, bind, Except.bind, List.map_cons]⟩

end Layout

/-! ## Cursors over records -/

namespace RecordCursor

variable {σ : Type} {service : Service σ}

/-- A cursor gives the records of a list, one after the other, and then ends. -/
inductive Yields (service : Service σ) : RecordCursor → World σ → List Record → Prop
  | done {r r' : RecordCursor} {w w' : World σ} (h : r.step service w = ((none, r'), w')) :
      Yields service r w []
  | next {r r' : RecordCursor} {w w' : World σ} {record : Record} {records : List Record}
      (h : r.step service w = ((some (.ok record), r'), w'))
      (hrest : Yields service r' w' records) :
      Yields service r w (record :: records)

/-- A cursor gives nothing else than it gives. -/
theorem Yields.unique {r : RecordCursor} {w : World σ} {records records' : List Record}
    (h : Yields service r w records) (h' : Yields service r w records') : records = records' := by
  induction h generalizing records' with
  | done h =>
    cases h' with
    | done _ => rfl
    | next h' _ =>
      rw [h] at h'
      cases h'
  | next h _ ih =>
    cases h' with
    | done h' =>
      rw [h] at h'
      cases h'
    | next h' hrest =>
      rw [h] at h'
      cases h'
      rw [ih hrest]

/-- What a cursor over documents gives, a cursor over records gives as a record. -/
theorem step_of_next {cursor cursor' : Cursor} {w w' : World σ} {d : Option Document}
    (h : cursor.next service w = ((.ok d, cursor'), w')) (columns : List Column) :
    step service ⟨cursor, columns⟩ w =
      ((d.map fun d => .ok (Layout.readRecord columns d), ⟨cursor', columns⟩), w') := by
  simp only [step, Cursor.step, bind, StateT.bind, h]
  cases d <;> rfl

/-- Over the store in memory a cursor gives the records of the documents that it has still to
deliver. -/
theorem yields_memory {w : World Memory} {contents : Contents} {q : Query.Node} {cursor : Cursor}
    {rest : List Document} (hopen : w.store.check = .ok ())
    (hcontents : w.store.collections.get? cursor.collection = some contents)
    (hparse : Query.parse cursor.query = .ok q)
    (h : Cursor.Reads (contents.select q) cursor rest) (columns : List Column) :
    Yields Memory.service ⟨cursor, columns⟩ w (rest.map (Layout.readRecord columns)) := by
  induction rest generalizing cursor with
  | nil =>
    obtain ⟨cursor', hnext, -⟩ := Cursor.next_memory hopen hcontents hparse h
    exact .done (step_of_next hnext columns)
  | cons d rest ih =>
    obtain ⟨cursor', hnext, hreads, hcollection, hquery⟩ :=
      Cursor.next_memory hopen hcontents hparse h
    exact .next (step_of_next hnext columns)
      (ih (hcollection ▸ hcontents) (hquery ▸ hparse) hreads)

end RecordCursor

/-! ## Calls -/

namespace Table

variable {t : Table} {w : World Memory} {c : Contents}

/-- The query of a condition that can be resolved; nothing is asked for it. -/
theorem resolveQuery_eq {σ : Type} (hconnected : t.isConnected = true) {condition : Condition}
    {params : Bindings} {text : String} (hresolve : condition.resolve params = .ok text)
    (w : World σ) : t.resolveQuery params condition w = (.ok text, w) := by
  simp only [resolveQuery, checkConnected_eq_ok hconnected, Except.bind, hresolve]
  rfl

/-- A search yields the records of the documents that its query matches, in storage order. -/
theorem yields_find_select (hconnected : t.isConnected = true) (hopen : w.store.check = .ok ())
    (hcontents : w.store.collections.get? t.collection.name = some c) {condition : Condition}
    {params : Bindings} {text : String} {q : Query.Node}
    (hresolve : condition.resolve params = .ok text) (hparse : Query.parse text = .ok q) :
    ∃ cursor, t.find params condition w = (.ok cursor, w) ∧
      cursor.Yields Memory.service w ((c.select q).map (Layout.readRecord t.layout.columns)) := by
  refine ⟨⟨.make t.collection.name text t.options.readBatchSize, t.layout.columns⟩, ?_, ?_⟩
  · simp only [find, bind, StateT.bind, resolveQuery_eq hconnected hresolve]
    rfl
  · have hreads := Cursor.reads_make (c.select q) t.collection.name text t.options.readBatchSize
    exact RecordCursor.yields_memory hopen hcontents hparse hreads t.layout.columns

theorem select_all (c : Contents) : c.select .all = c.documents :=
  List.filter_eq_self.2 fun _ _ => rfl

/-- A search without a condition yields the records of all documents in storage order. -/
theorem yields_find (hconnected : t.isConnected = true) (hopen : w.store.check = .ok ())
    (hcontents : w.store.collections.get? t.collection.name = some c) {condition : Condition}
    (hcondition : condition.isEmpty = true) (params : Bindings) :
    ∃ cursor, t.find params condition w = (.ok cursor, w) ∧
      cursor.Yields Memory.service w (c.documents.map (Layout.readRecord t.layout.columns)) := by
  have hparse : Query.parse matchAll = .ok .all := rfl
  have hresolve : condition.resolve params = .ok matchAll := if_pos hcondition
  exact select_all c ▸ yields_find_select hconnected hopen hcontents hresolve hparse

end Table

end SearchTable
