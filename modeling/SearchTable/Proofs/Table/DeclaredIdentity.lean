import SearchTable.Proofs.Table.RowCount
import SearchTable.Proofs.Table.Rows
/-!
# Tables that declare the identity

A table may declare a column under the name of the identity field, of any type.  A record with a
value there is stored under that value (`Layout.storedId?`), and no identity is made up for it.

The store looks an identity up by its text and finds it only where it is kept as a text.  So the
record of a text takes the place of the one that is there, while every other value is stored again
each time it is added: such values are in the collection as often as they have been added
(`Counts`).  `Table.nodup_ids_addAll` draws the consequence for whole runs.  The identities in the
collection are distinct exactly when no value other than a text has been added twice, and a record
replaces the one that is stored under its identity exactly when that is a text.

Collections of texts alone are tidy: whatever is added, every document has an identity of its own
(`Table.HoldsTidy.addAll`).
-/

namespace SearchTable

open Memory Document Layout

variable {columns : List Column} {c : Contents} {d x : Document} {r : Record} {v u : Stored}
  {vs : List Stored} {xs : List Document}

/-- Whether a stored value is a text. -/
def Stored.isText : Stored → Bool
  | text _ => true
  | _ => false

theorem Stored.isText_iff : v.isText = true ↔ ∃ s, v = .text s := by
  cases v <;> simp [isText]

namespace Memory

/-! ## Identities in a collection -/

/-- What the documents of a collection have in the field of the identity. -/
def Contents.ids (c : Contents) : List (Option Stored) := c.documents.map (·.get? idField)

/-- A whole document under the identity `v`: no field stands twice, and no value is marked. -/
structure IsWhole (v : Stored) (x : Document) : Prop where
  id : x.get? idField = some v
  names : x.HasDistinctNames
  plain : isPatch x = false

/-- The document `e` takes the place of one that has the identity `v`. -/
def Replaces (v : Stored) (e : Document) (ds ds' : List Document) : Prop :=
  ∃ before d after, ds = before ++ d :: after ∧ d.get? idField = some v ∧
    ds' = before ++ e :: after

/-- A whole document is written as it is over any other one. -/
theorem IsWhole.writtenOver_some (h : IsWhole v x) (d : Document) : writtenOver x (some d) = x := by
  simp [writtenOver, h.plain]

/-- Whatever it is written over, a whole document stands there under its identity. -/
theorem IsWhole.get?_written (h : IsWhole v x) (version : Nat) (o : Option Document) :
    (withVersion version (writtenOver x o)).get? idField = some v := by
  have hne : idField ≠ versionField := by decide
  rw [withVersion, get?_insert, if_neg hne]
  cases o with
  | none => rw [writtenOver, applyFields_empty_of_plain h.names h.plain, unversioned, get?_erase,
      if_neg hne, h.id]
  | some d => rw [h.writtenOver_some, h.id]

/-- The identity of a whole document is written over the text of the identity, or behind all others
when that text is not among them. -/
theorem IsWhole.ids_accept (h : IsWhole v x) (c : Contents) :
    some (.text (idText v)) ∉ c.ids ∧ (c.accept x).ids = c.ids ++ [some v] ∨
      ∃ before after, c.ids = before ++ some (.text (idText v)) :: after ∧
        (c.accept x).ids = before ++ some v :: after := by
  rcases accept_cases h.id c with ⟨hnone, hafter⟩ | ⟨before, e, after, hds, he, hafter⟩
  · refine .inl ⟨fun hmem => ?_, ?_⟩
    · obtain ⟨e, he, hid⟩ := List.mem_map.1 hmem
      have hhas := hasId_eq_true_iff.2 (getText?_eq_some_iff.2 hid)
      exact Bool.false_ne_true ((hnone e he).symm.trans hhas)
    · rw [Contents.ids, hafter, List.map_append, List.map_singleton, h.get?_written]
      rfl
  · refine .inr ⟨before.map (·.get? idField), after.map (·.get? idField), ?_, ?_⟩
    · rw [Contents.ids, hds, List.map_append, List.map_cons,
        getText?_eq_some_iff.1 (hasId_eq_true_iff.1 he)]
    · rw [Contents.ids, hafter, List.map_append, List.map_cons, h.get?_written]

/-- The write of a whole document adds its identity, unless that is a text, and takes no other
identity away than a text. -/
theorem IsWhole.count_accept (h : IsWhole v x) (c : Contents) (hu : u.isText = false) :
    (c.accept x).ids.count (some u) = c.ids.count (some u) + [v].count u := by
  have hne : ∀ s, (some (.text s) : Option Stored) ≠ some u := by
    rintro s heq
    obtain rfl := Option.some.inj heq
    cases hu
  have hcount : [some v].count (some u) = [v].count u := by simp [List.count_singleton]
  rcases h.ids_accept c with ⟨-, hafter⟩ | ⟨before, after, hids, hafter⟩
  · rw [hafter, List.count_append, hcount]
  · rw [hafter, hids, List.count_append, List.count_append, ← List.singleton_append,
      List.count_append, hcount, List.count_cons_of_ne (hne _)]
    omega

/-- No text is there twice after the write of a whole document, if none was before. -/
theorem IsWhole.count_text_accept (h : IsWhole v x) {s : String}
    (hle : c.ids.count (some (.text s)) ≤ 1) : (c.accept x).ids.count (some (.text s)) ≤ 1 := by
  rcases h.ids_accept c with ⟨hnew, hafter⟩ | ⟨before, after, hids, hafter⟩
  · rw [hafter, List.count_append, List.count_singleton]
    by_cases hv : v = .text s
    · subst hv
      have hzero : c.ids.count (some (.text s)) = 0 := List.count_eq_zero_of_not_mem hnew
      rw [hzero]
      simp
    · simpa [hv] using hle
  · rw [hids, List.count_append, List.count_cons] at hle
    rw [hafter, List.count_append, List.count_cons]
    by_cases hv : v = .text s
    · subst hv
      simpa [idText, Stored.plain] using hle
    · have hzero : (some v == some (Stored.text s)) = false := by simpa using hv
      simp only [hzero, Bool.false_eq_true, if_false]
      omega

/-- A whole document takes the place of one that is stored under its identity exactly when that is a
text. -/
theorem IsWhole.replaces_accept_iff (h : IsWhole v x) (hstored : some v ∈ c.ids) :
    Replaces v (withVersion (c.accepted + 1) x) c.documents (c.accept x).documents ↔
      v.isText = true := by
  constructor
  · rintro ⟨before, d, after, hds, hd, hafter⟩
    by_contra hv
    have hcount := h.count_accept c (Bool.eq_false_iff.2 hv)
    have hnew := h.get?_written (c.accepted + 1) (some d)
    rw [h.writtenOver_some] at hnew
    simp [Contents.ids, hds, hafter, hd, hnew] at hcount
  · intro hv
    obtain ⟨s, rfl⟩ := Stored.isText_iff.1 hv
    obtain ⟨e, he, hid⟩ := List.mem_map.1 hstored
    rcases accept_cases h.id c with ⟨hnone, -⟩ | ⟨before, d, after, hds, hd, hafter⟩
    · have hhas := hasId_eq_true_iff.2 (getText?_eq_some_iff.2 hid)
      exact absurd ((hnone e he).symm.trans hhas) Bool.false_ne_true
    · rw [h.writtenOver_some] at hafter
      exact ⟨before, d, after, hds, getText?_eq_some_iff.1 (hasId_eq_true_iff.1 hd), hafter⟩

/-! ## Runs of writes -/

/-- The identities of a collection after those of a list have been written into it: every value but
a text is there as often as it has been written, a text at most once. -/
structure Counts (c : Contents) (vs : List Stored) : Prop where
  isSome : none ∉ c.ids
  others : ∀ u, u.isText = false → c.ids.count (some u) = vs.count u
  texts : ∀ s, c.ids.count (some (.text s)) ≤ 1

theorem counts_nil (h : c.documents = []) : Counts c [] := by
  have hids : c.ids = [] := by rw [Contents.ids, h]; rfl
  exact ⟨by simp [hids], by simp [hids], by simp [hids]⟩

theorem Counts.accept (h : Counts c vs) (hx : IsWhole v x) : Counts (c.accept x) (vs ++ [v]) where
  isSome := by
    have hsome := h.isSome
    rcases hx.ids_accept c with ⟨-, hafter⟩ | ⟨before, after, hids, hafter⟩
    · simpa [hafter] using hsome
    · simpa [hafter, hids] using hsome
  others u hu := by rw [hx.count_accept c hu, h.others u hu, List.count_append]
  texts s := hx.count_text_accept (h.texts s)

theorem Counts.foldl_accept (h : Counts c vs) {us : List Stored}
    (hxs : List.Forall₂ IsWhole us xs) : Counts (xs.foldl Contents.accept c) (vs ++ us) := by
  induction hxs generalizing c vs with
  | nil => rwa [List.append_nil]
  | cons hx _ ih =>
    have hrest := ih (h.accept hx)
    rwa [List.append_assoc, List.singleton_append] at hrest

/-- The identities are distinct exactly when no value but a text has been written twice. -/
theorem Counts.nodup_iff (h : Counts c vs) :
    c.ids.Nodup ↔ (vs.filter fun v => !v.isText).Nodup := by
  rw [List.nodup_iff_count_le_one, List.nodup_iff_count_le_one]
  constructor
  · intro hids u
    cases hu : u.isText with
    | true => simp [List.count_eq_zero_of_not_mem, hu]
    | false =>
      rw [List.count_filter (by simp [hu]), ← h.others u hu]
      exact hids (some u)
  · rintro hvs (- | u)
    · rw [List.count_eq_zero_of_not_mem h.isSome]
      exact Nat.zero_le 1
    · cases hu : u.isText with
      | true =>
        obtain ⟨s, rfl⟩ := Stored.isText_iff.1 hu
        exact h.texts s
      | false =>
        have hle := hvs u
        rwa [List.count_filter (by simp [hu]), ← h.others u hu] at hle

end Memory

/-! ## Records with an identity -/

namespace Layout

variable {l : Layout} {records : List Record}

/-- The identity that a record is stored under when a column of that name has a value. -/
def storedId? (columns : List Column) (r : Record) : Option Stored :=
  (fieldsOf columns r).get? idField

/-- When the columns have names of their own, it is the value in the column of that name. -/
theorem storedId?_eq (hnames : (columns.map Column.name).Nodup) {column : Column} {value : Value}
    (hmem : (column, value) ∈ columns.zip r) (hname : column.name = idField) :
    storedId? columns r = if value.isNull then none else some value.toStored := by
  rw [storedId?, fieldsOf_eq, ← hname]
  exact get?_addFields (hnames.sublist (map_name_zip_sublist columns r)) hmem (get?_empty _)

/-- In a column of texts the identity is a text. -/
theorem isText_storedId? (hcolumns : ∀ column ∈ columns, column.name = idField →
    column.type = .string) (hfits : Fits columns r) (hid : storedId? columns r = some v) :
    v.isText = true := by
  have hfields : ∀ f ∈ columns.zip r, f.1.name = idField → f.2.isNull = false →
      f.2.toStored.isText = true := by
    rintro ⟨column, value⟩ hmem hname hvalue
    have htype := (List.forall₂_iff_zip.1 hfits).2 hmem
    rw [hcolumns column (List.of_mem_zip hmem).1 hname] at htype
    cases value with
    | text s => rfl
    | null => cases hvalue
    | _ => exact absurd (htype.2 _ rfl) (by decide)
  refine addFields_induction (P := fun d => ∀ v, d.get? idField = some v → v.isText = true)
    (by simp) (fun f hf hvalue d hd u hu => ?_) v hid
  rw [get?_insert] at hu
  split at hu
  · rename_i hname
    obtain rfl := Option.some.inj hu
    exact hfields f hf hname.symm hvalue
  · exact hd u hu

theorem isWhole_fieldsOf (hunmarked : IsUnmarked r) (hid : storedId? columns r = some v) :
    IsWhole v (fieldsOf columns r) where
  id := hid
  names := hasDistinctNames_addFields hasDistinctNames_empty _
  plain := isPatch_addFields rfl fun f hf => hunmarked f.2 (List.of_mem_zip hf).2

/-- A record with an identity becomes the document of its fields. -/
theorem build_of_storedId? (hfits : Fits l.columns r)
    (hid : (storedId? l.columns r).isSome = true) (supply : Nat) :
    l.build supply r = .ok (fieldsOf l.columns r, supply) := by
  have hwidth : l.checkWidth r = .ok () := if_pos hfits.length_eq.symm
  have hcontains : (fieldsOf l.columns r).contains idField = true := hid
  simp only [build, hwidth, bind, Except.bind, hcontains, if_true]

theorem buildAll_of_storedId? (hfits : ∀ r ∈ records, Fits l.columns r)
    (hids : ∀ r ∈ records, (storedId? l.columns r).isSome = true) (supply : Nat) :
    l.buildAll supply records = .ok (records.map (fieldsOf l.columns), supply) := by
  induction records with
  | nil => rfl
  | cons r records ih =>
    rw [List.forall_mem_cons] at hfits hids
    simp only [buildAll, build_of_storedId? hfits.1 hids.1, ih hfits.2 hids.2, bind, Except.bind,
      List.map_cons]

theorem storedId?_of_not_declares (hid : l.declares idField = false) (r : Record) :
    storedId? l.columns r = none := by
  refine get?_fieldsOf_of_notMem (fun hmem => ?_) r
  obtain ⟨column, hcolumn, heq⟩ := List.mem_map.1 hmem
  have hdeclared : l.declares idField = true := List.any_eq_true.2 ⟨column, hcolumn, by simp [heq]⟩
  exact Bool.false_ne_true (hid.symm.trans hdeclared)

/-- Unless a record has another value than a text for its identity, its document addresses one. -/
theorem addressed_build {supply supply' : Nat}
    (htext : ∀ v ∈ storedId? l.columns r, v.isText = true)
    (hbuild : l.build supply r = .ok (d, supply')) :
    (∃ id, Addresses d id) ∧ d.HasDistinctNames := by
  have hfields := hasDistinctNames_addFields hasDistinctNames_empty (l.columns.zip r)
  obtain ⟨hcontains, rfl⟩ | ⟨id, rfl⟩ := build_cases hbuild
  · obtain ⟨v, hv⟩ := Option.isSome_iff_exists.1 hcontains
    obtain ⟨id, rfl⟩ := Stored.isText_iff.1 (htext v hv)
    exact ⟨⟨id, addresses_of_getText? hfields (getText?_eq_some_iff.2 hv)⟩, hfields⟩
  · have hnames := hfields.insert idField (.text id)
    exact ⟨⟨id, addresses_of_getText? hnames (getText?_insert_text _ _ _)⟩, hnames⟩

end Layout

/-! ## Calls -/

namespace Table

variable {t : Table} {w : World Memory} {records : List Record} {batches : List (List Record)}

/-- The store is in reach and holds a tidy collection under the name. -/
structure HoldsTidy (name : String) (m : Memory) : Prop where
  isOpen : m.check = .ok ()
  tidy : ∃ c, m.collections.get? name = some c ∧ Tidy c.documents

theorem HoldsTidy.add (h : HoldsTidy t.collection.name w.store)
    (htext : ∀ r ∈ records, ∀ v ∈ storedId? t.layout.columns r, v.isText = true) :
    HoldsTidy t.collection.name (t.add Memory.service records w).2.store := by
  obtain hstore | ⟨ds, supply, hbuild, hstore⟩ := t.store_add_cases records w
  · rwa [hstore]
  · obtain ⟨c, hcontents, hc⟩ := h.tidy
    have hds := forall_mem_buildAll (P := fun d => (∃ id, Addresses d id) ∧ d.HasDistinctNames)
      (fun r hr _ _ _ hfirst => addressed_build (htext r hr) hfirst) hbuild
    have hids : ∀ d ∈ ds, (d.get? idField).isSome = true := fun d hd => by
      obtain ⟨⟨id, hid⟩, -⟩ := hds d hd
      rw [hid.get?_eq]
      rfl
    rw [hstore, write_eq h.isOpen hcontents hids]
    exact ⟨h.isOpen, _, get?_setContents _ _ _, hc.foldl_accept hds⟩

/-- Any number of additions leaves a tidy collection, when only texts are declared identities. -/
theorem HoldsTidy.addAll (h : HoldsTidy t.collection.name w.store)
    (htext : ∀ records ∈ batches, ∀ r ∈ records, ∀ v ∈ storedId? t.layout.columns r,
      v.isText = true) :
    HoldsTidy t.collection.name (t.addAll Memory.service batches w).2.store := by
  induction batches generalizing w with
  | nil => exact h
  | cons records batches ih =>
    rw [List.forall_mem_cons] at htext
    exact ih (h.add htext.1) htext.2

/-- The store is in reach, and the collection of the table has the identities of a list. -/
structure StoresIds (t : Table) (w : World Memory) (vs : List Stored) : Prop where
  isOpen : w.store.check = .ok ()
  counts : ∃ c, w.store.collections.get? t.collection.name = some c ∧ Counts c vs

section Records

variable (hconnected : t.isConnected = true) (hfits : ∀ r ∈ records, Fits t.layout.columns r)
  (hids : ∀ r ∈ records, (storedId? t.layout.columns r).isSome = true)

include hconnected hfits hids

/-- An addition writes the fields of its records. -/
theorem add_of_storedId? (hopen : w.store.check = .ok ())
    (hcontents : w.store.collections.get? t.collection.name = some c) :
    ∃ w', t.add Memory.service records w = (⟨records.length, false⟩, w') ∧
      w'.store = w.store.setContents t.collection.name
        ((records.map (fieldsOf t.layout.columns)).foldl Contents.accept c) := by
  refine add_memory hconnected hopen hcontents (buildAll_of_storedId? hfits hids w.supply) ?_
  intro d hd
  obtain ⟨r, hr, rfl⟩ := List.mem_map.1 hd
  exact hids r hr

theorem StoresIds.add (h : StoresIds t w vs) (hunmarked : ∀ r ∈ records, IsUnmarked r) :
    ∃ w', t.add Memory.service records w = (⟨records.length, false⟩, w') ∧
      StoresIds t w' (vs ++ records.filterMap (storedId? t.layout.columns)) := by
  obtain ⟨c, hcontents, hcounts⟩ := h.counts
  obtain ⟨w', hadd, hstore⟩ := add_of_storedId? hconnected hfits hids h.isOpen hcontents
  have hwhole : List.Forall₂ IsWhole (records.filterMap (storedId? t.layout.columns))
      (records.map (fieldsOf t.layout.columns)) := by
    clear hadd hstore hfits
    induction records with
    | nil => exact .nil
    | cons r records ih =>
      rw [List.forall_mem_cons] at hids hunmarked
      obtain ⟨v, hv⟩ := Option.isSome_iff_exists.1 hids.1
      rw [List.filterMap_cons_some hv]
      exact .cons (isWhole_fieldsOf hunmarked.1 hv) (ih hids.2 hunmarked.2)
  refine ⟨w', hadd, hstore ▸ h.isOpen, _, ?_, hcounts.foldl_accept hwhole⟩
  rw [hstore, get?_setContents]

end Records

/-- Any number of additions leaves the identities of all their records. -/
theorem StoresIds.addAll (h : StoresIds t w vs) (hconnected : t.isConnected = true)
    (hfits : ∀ records ∈ batches, ∀ r ∈ records, Fits t.layout.columns r)
    (hids : ∀ records ∈ batches, ∀ r ∈ records, (storedId? t.layout.columns r).isSome = true)
    (hunmarked : ∀ records ∈ batches, ∀ r ∈ records, IsUnmarked r) :
    ∃ w', t.addAll Memory.service batches w =
        (batches.map fun records => ⟨records.length, false⟩, w') ∧
      StoresIds t w' (vs ++ batches.flatten.filterMap (storedId? t.layout.columns)) := by
  induction batches generalizing w vs with
  | nil => exact ⟨w, rfl, by simpa using h⟩
  | cons records batches ih =>
    rw [List.forall_mem_cons] at hfits hids hunmarked
    obtain ⟨w₁, hadd, h₁⟩ := h.add hconnected hfits.1 hids.1 hunmarked.1
    obtain ⟨w₂, hrest, h₂⟩ := ih h₁ hfits.2 hids.2 hunmarked.2
    refine ⟨w₂, ?_, ?_⟩
    · simp only [Table.addAll, bind, StateT.bind, hadd, hrest]
      rfl
    · rwa [List.append_assoc, ← List.filterMap_append, ← List.flatten_cons] at h₂

/-- After additions of records with an identity to an empty collection the identities in it are
distinct exactly when none but a text has been added twice, which is so when the table declares the
identity a text, and one more record under a stored identity replaces the document of that identity
exactly when it is a text. -/
theorem nodup_ids_addAll (hconnected : t.isConnected = true) (hopen : w.store.check = .ok ())
    (hcontents : w.store.collections.get? t.collection.name = some c) (hempty : c.documents = [])
    (hfits : ∀ records ∈ batches, ∀ r ∈ records, Fits t.layout.columns r)
    (hids : ∀ records ∈ batches, ∀ r ∈ records, (storedId? t.layout.columns r).isSome = true)
    (hunmarked : ∀ records ∈ batches, ∀ r ∈ records, IsUnmarked r) :
    ∃ w' c', t.addAll Memory.service batches w =
        (batches.map fun records => ⟨records.length, false⟩, w') ∧
      w'.store.collections.get? t.collection.name = some c' ∧
      (c'.ids.Nodup ↔ ((batches.flatten.filterMap (storedId? t.layout.columns)).filter
        fun v => !v.isText).Nodup) ∧
      ((∀ column ∈ t.layout.columns, column.name = idField → column.type = .string) →
        c'.ids.Nodup) ∧
      ∀ r v, Fits t.layout.columns r → IsUnmarked r → storedId? t.layout.columns r = some v →
        some v ∈ c'.ids →
          ∃ w'' c'', t.add Memory.service [r] w' = (⟨1, false⟩, w'') ∧
            w''.store.collections.get? t.collection.name = some c'' ∧
            (Replaces v (withVersion (c'.accepted + 1) (fieldsOf t.layout.columns r)) c'.documents
              c''.documents ↔ v.isText = true) := by
  have hstart : StoresIds t w [] := ⟨hopen, c, hcontents, counts_nil hempty⟩
  obtain ⟨w', haddAll, hopen', c', hcontents', hcounts⟩ :=
    hstart.addAll hconnected hfits hids hunmarked
  have hnodup : c'.ids.Nodup ↔ ((batches.flatten.filterMap (storedId? t.layout.columns)).filter
      fun v => !v.isText).Nodup := by simpa using hcounts.nodup_iff
  have htexts : (∀ column ∈ t.layout.columns, column.name = idField → column.type = .string) →
      ((batches.flatten.filterMap (storedId? t.layout.columns)).filter fun v => !v.isText) = [] := by
    intro hcolumns
    refine List.filter_eq_nil_iff.2 fun v hv => ?_
    obtain ⟨r, hr, hid⟩ := List.mem_filterMap.1 hv
    obtain ⟨records, hrecords, hr⟩ := List.mem_flatten.1 hr
    simp [isText_storedId? hcolumns (hfits records hrecords r hr) hid]
  refine ⟨w', c', haddAll, hcontents', hnodup,
    fun hcolumns => hnodup.2 (htexts hcolumns ▸ List.nodup_nil), ?_⟩
  intro r v hfit hr hid hstored
  have hsome : (storedId? t.layout.columns r).isSome = true := by rw [hid]; rfl
  obtain ⟨w'', hadd, hstore⟩ := add_of_storedId? hconnected (List.forall_mem_singleton.2 hfit)
    (List.forall_mem_singleton.2 hsome) hopen' hcontents'
  refine ⟨w'', c'.accept (fieldsOf t.layout.columns r), hadd, ?_,
    (isWhole_fieldsOf hr hid).replaces_accept_iff hstored⟩
  rw [hstore, get?_setContents]
  rfl

/-- A connected table that numbers its records. -/
def numberedTable : Table :=
  { name := "numbered"
    layout := ⟨[⟨"id", .int⟩, ⟨"name", .string⟩], none⟩
    options := {}
    collection := ⟨"numbered", "", 1, 1, "", "", .ofKey none⟩
    connected := true
    schema := some (.ofKey none) }

/-- A store with the collection of the table of numbers, without any records. -/
def noNumbers : World Memory := ⟨Memory.empty.setContents "numbered" ⟨true, none, [], 0⟩, 0, []⟩

/-- Different numbers stay apart, and a number that is there is not replaced. -/
theorem nodup_ids_addAll_noNumbers :
    let batches : List (List Record) := [[[.int 5, .text "a"], [.int 6, .null]], [[.int 7, .null]]]
    let again : Record := [.int 5, .text "b"]
    ∃ w' c', numberedTable.addAll Memory.service batches noNumbers =
        ([⟨2, false⟩, ⟨1, false⟩], w') ∧
      w'.store.collections.get? "numbered" = some c' ∧ c'.ids.Nodup ∧
      c'.ids = [some (.int32 5), some (.int32 6), some (.int32 7)] ∧
      storedId? numberedTable.layout.columns again = some (.int32 5) ∧
      (∃ w'' c'', numberedTable.add Memory.service [again] w' = (⟨1, false⟩, w'') ∧
        w''.store.collections.get? "numbered" = some c'' ∧
        ¬ Replaces (.int32 5)
          (withVersion (c'.accepted + 1) (fieldsOf numberedTable.layout.columns again))
          c'.documents c''.documents) ∧
      ∀ r v, Fits numberedTable.layout.columns r → IsUnmarked r →
        storedId? numberedTable.layout.columns r = some v → some v ∈ c'.ids →
          ∃ w'' c'', numberedTable.add Memory.service [r] w' = (⟨1, false⟩, w'') ∧
            w''.store.collections.get? "numbered" = some c'' ∧
            (Replaces v (withVersion (c'.accepted + 1) (fieldsOf numberedTable.layout.columns r))
              c'.documents c''.documents ↔ v.isText = true) := by
  intro batches again
  have hcontents : noNumbers.store.collections.get? numberedTable.collection.name =
      some ⟨true, none, [], 0⟩ := get?_setContents _ _ _
  obtain ⟨w', c', haddAll, hcontents', hnodup, -, hreplaces⟩ :=
    nodup_ids_addAll (t := numberedTable) rfl rfl hcontents rfl
      (show ∀ records ∈ batches, _ by decide +kernel) (by decide +kernel) (by decide +kernel)
  have hids : c'.ids = [some (.int32 5), some (.int32 6), some (.int32 7)] := by
    have hstored : ((numberedTable.addAll Memory.service batches noNumbers).2.store.collections.get?
        "numbered").map Contents.ids = some [some (.int32 5), some (.int32 6), some (.int32 7)] := by
      decide +kernel
    rw [haddAll, show w'.store.collections.get? "numbered" = some c' from hcontents'] at hstored
    exact Option.some.inj hstored
  have hmem : ((⟨"id", .int⟩ : Column), Value.int 5) ∈ numberedTable.layout.columns.zip again :=
    List.mem_cons_self
  have hagain : storedId? numberedTable.layout.columns again = some (.int32 5) :=
    storedId?_eq (by decide) hmem rfl
  obtain ⟨w'', c'', hadd, hcontents'', hiff⟩ := hreplaces again (.int32 5) (by decide) (by decide)
    hagain (by simp [hids])
  have hkept : ¬ Replaces (.int32 5)
      (withVersion (c'.accepted + 1) (fieldsOf numberedTable.layout.columns again))
      c'.documents c''.documents := mt hiff.1 (by decide)
  exact ⟨w', c', haddAll, hcontents', hnodup.2 (by decide +kernel), hids, hagain,
    ⟨w'', c'', hadd, hcontents'', hkept⟩, hreplaces⟩

/-- Of two records under one number both are there. -/
theorem not_nodup_ids_addAll_noNumbers :
    let r : Record := [.int 5, .text "a"]
    let s : Record := [.int 5, .text "b"]
    let out := numberedTable.addAll Memory.service [[r], [s]] noNumbers
    numberedTable.isConnected = true ∧ numberedTable.layout.declares idField = true ∧
      noNumbers.store.documents "numbered" = [] ∧ Fits numberedTable.layout.columns r ∧
      Fits numberedTable.layout.columns s ∧
      storedId? numberedTable.layout.columns r = some (.int32 5) ∧
      storedId? numberedTable.layout.columns s = some (.int32 5) ∧
      out.1 = [⟨1, false⟩, ⟨1, false⟩] ∧
      ¬ ((out.2.store.documents "numbered").map (·.get? idField)).Nodup := by
  decide +kernel

end Table

end SearchTable
