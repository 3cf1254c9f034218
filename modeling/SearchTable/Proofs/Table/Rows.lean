import SearchTable.Proofs.Store.Versions
import SearchTable.Proofs.Table.Frame
import SearchTable.Proofs.Table.Reading
/-!
# Records in the order of their identities

To add records is to write their documents, so a table with a key is a map from identities to
records that keeps the order of insertion: of the records of one identity the last one is there, at
the place of the first one (`current`).

`putRecord` is what one more record changes.  It is what a record does to the current ones
(`current_concat`), and it is what the write of a document does to a collection that holds the
documents of some records and nothing else (`Shows.accept`).  Over the records of a call and the
calls of a run both become `putRecords` (`Stores.add`, `Stores.addAll`), and a search reads the
records back (`Stores.find`).  The main results start with an empty collection: `Table.find_addAll`
follows records of scalars through any number of additions, and `Table.find_add` follows one record
with objects of the store through one.
-/

namespace SearchTable

open Memory Document Layout

variable {columns : List Column} {identity : Record → String} {c : Contents} {r s : Record}
  {rs shown : List Record} {id : String}

/-! ## Current records -/

/-- The last record of each identity, in the order in which the identities first occur. -/
def current (identity : Record → String) (rs : List Record) : List Record :=
  -- Of repeated identities the first one is left.
  (rs.map identity).eraseDups.filterMap fun id => rs.reverse.find? (identity · = id)

/-- Records with one more: in the place of the one of its identity, or at the end. -/
def putRecord (identity : Record → String) (r : Record) (rs : List Record) : List Record :=
  if identity r ∈ rs.map identity then rs.map fun s => if identity s = identity r then r else s
  else rs ++ [r]

/-- Records with further ones, put there one after the other. -/
def putRecords (identity : Record → String) (records shown : List Record) : List Record :=
  records.foldl (fun shown r => putRecord identity r shown) shown

/-- Every identity that occurs has a last record. -/
theorem find?_reverse_of_mem (hid : id ∈ rs.map identity) :
    ∃ s, rs.reverse.find? (identity · = id) = some s ∧ identity s = id := by
  obtain ⟨r, hr, heq⟩ := List.mem_map.1 hid
  cases hfind : rs.reverse.find? (identity · = id) with
  | none => simpa [heq] using List.find?_eq_none.1 hfind r (List.mem_reverse.2 hr)
  | some s => exact ⟨s, rfl, by simpa using List.find?_some hfind⟩

/-- The last record after one more has come. -/
theorem find?_reverse_concat (rs : List Record) (r : Record) (id : String) :
    (rs ++ [r]).reverse.find? (identity · = id) =
      if identity r = id then some r else rs.reverse.find? (identity · = id) := by
  rw [List.reverse_append, List.reverse_singleton, List.singleton_append, List.find?_cons]
  by_cases h : identity r = id <;> simp [h]

/-- The current records have the identities that occur, each one once. -/
theorem map_identity_current (identity : Record → String) (rs : List Record) :
    (current identity rs).map identity = (rs.map identity).eraseDups := by
  rw [current, List.map_filterMap]
  have hsome : ∀ id ∈ (rs.map identity).eraseDups,
      (rs.reverse.find? (identity · = id)).map identity = some id := fun id hid => by
    obtain ⟨s, hs, heq⟩ := find?_reverse_of_mem (List.mem_eraseDups.1 hid)
    rw [hs, Option.map_some, heq]
  rw [List.filterMap_congr hsome, List.filterMap_some]

theorem mem_of_mem_current (h : s ∈ current identity rs) : s ∈ rs := by
  obtain ⟨id, -, hfind⟩ := List.mem_filterMap.1 h
  exact List.mem_reverse.1 (List.mem_of_find?_eq_some hfind)

theorem identity_mem_current_iff :
    id ∈ (current identity rs).map identity ↔ id ∈ rs.map identity := by
  rw [map_identity_current, List.mem_eraseDups]

/-- A record of a known identity replaces the current one of that identity. -/
theorem current_concat_of_mem (hknown : identity r ∈ rs.map identity) :
    current identity (rs ++ [r]) =
      (current identity rs).map fun s => if identity s = identity r then r else s := by
  have hnone : [identity r].removeAll (rs.map identity) = [] := by
    simpa [List.removeAll] using hknown
  rw [current, List.map_append, List.map_singleton, List.eraseDups_append, hnone,
    List.eraseDups_nil, List.append_nil, current, List.map_filterMap]
  refine List.filterMap_congr fun id hid => ?_
  obtain ⟨s, hs, heq⟩ := find?_reverse_of_mem (List.mem_eraseDups.1 hid)
  rw [find?_reverse_concat, hs, Option.map_some, heq]
  by_cases hsame : identity r = id
  · rw [if_pos hsame, if_pos hsame.symm]
  · rw [if_neg hsame, if_neg (Ne.symm hsame)]

/-- A record of a new identity comes last. -/
theorem current_concat_of_notMem (hnew : identity r ∉ rs.map identity) :
    current identity (rs ++ [r]) = current identity rs ++ [r] := by
  have hself : [identity r].removeAll (rs.map identity) = [identity r] := by
    simpa [List.removeAll] using hnew
  have hone : [identity r].eraseDups = [identity r] := by simp [List.eraseDups_cons]
  have hold : ∀ id ∈ (rs.map identity).eraseDups,
      (rs ++ [r]).reverse.find? (identity · = id) = rs.reverse.find? (identity · = id) := by
    intro id hid
    rw [find?_reverse_concat, if_neg]
    rintro rfl
    exact hnew (List.mem_eraseDups.1 hid)
  have hlast : (rs ++ [r]).reverse.find? (identity · = identity r) = some r := by
    rw [find?_reverse_concat, if_pos rfl]
  rw [current, List.map_append, List.map_singleton, List.eraseDups_append, hself, hone,
    List.filterMap_append, List.filterMap_congr hold, List.filterMap_cons, hlast]
  rfl

/-- One more record is put in its place among the current ones. -/
theorem current_concat (identity : Record → String) (rs : List Record) (r : Record) :
    current identity (rs ++ [r]) = putRecord identity r (current identity rs) := by
  by_cases hknown : identity r ∈ rs.map identity
  · rw [putRecord, if_pos (identity_mem_current_iff.2 hknown), current_concat_of_mem hknown]
  · rw [putRecord, if_neg (mt identity_mem_current_iff.1 hknown), current_concat_of_notMem hknown]

/-- The current records are what is there after all records have been put there in turn. -/
theorem putRecords_current (identity : Record → String) (records rs : List Record) :
    putRecords identity records (current identity rs) = current identity (rs ++ records) := by
  induction records generalizing rs with
  | nil => rw [List.append_nil]; rfl
  | cons r records ih =>
    have hconcat : rs ++ r :: records = (rs ++ [r]) ++ records := by simp
    rw [hconcat, ← ih, current_concat]
    rfl

/-- Records of other identities are not replaced. -/
theorem replace_of_notMem (h : identity r ∉ rs.map identity) :
    (rs.map fun s => if identity s = identity r then r else s) = rs := by
  have hother : ∀ s ∈ rs, (if identity s = identity r then r else s) = id s := fun s hs =>
    if_neg fun heq => h (List.mem_map.2 ⟨s, hs, heq⟩)
  rw [List.map_congr_left hother, List.map_id]

/-- When no identity is repeated, a record takes the place of the only one of its identity. -/
theorem putRecord_append_cons {before after : List Record} (hid : identity s = identity r)
    (hnodup : ((before ++ s :: after).map identity).Nodup) :
    putRecord identity r (before ++ s :: after) = before ++ r :: after := by
  rw [List.map_append, List.map_cons, List.nodup_middle, List.nodup_cons, hid, List.mem_append,
    not_or] at hnodup
  have hknown : identity r ∈ (before ++ s :: after).map identity :=
    List.mem_map.2 ⟨s, by simp, hid⟩
  rw [putRecord, if_pos hknown, List.map_append, List.map_cons, replace_of_notMem hnodup.1.1,
    replace_of_notMem hnodup.1.2, if_pos hid]

/-! ## Collections of records -/

/-- A collection holds the documents of some records, in their order, and nothing else. -/
structure Shows (columns : List Column) (identity : Record → String) (c : Contents)
    (shown : List Record) : Prop where
  keyed : Keyed c.documents
  documents : c.documents.map unversioned = shown.map fun r => documentOf columns (identity r) r

theorem shows_nil (columns : List Column) (identity : Record → String) (h : c.documents = []) :
    Shows columns identity c [] where
  keyed := h ▸ ⟨by simp, List.nodup_nil⟩
  documents := by rw [h]; rfl

/-- What does not depend on the version is read off the documents of the records. -/
theorem Shows.map_eq {α : Type} (h : Shows columns identity c shown) {f : Document → α}
    (hf : ∀ d, f (unversioned d) = f d) :
    c.documents.map f = shown.map fun r => f (documentOf columns (identity r) r) := by
  have hunversioned : c.documents.map f = (c.documents.map unversioned).map f := by
    rw [List.map_map]
    exact List.map_congr_left fun d _ => (hf d).symm
  rw [hunversioned, h.documents, List.map_map]
  rfl

/-- The documents have the identities of the records. -/
theorem Shows.map_getText? (h : Shows columns identity c shown) :
    c.documents.map (Document.getText? · idField) = (shown.map identity).map some := by
  rw [h.map_eq getText?_unversioned, List.map_map]
  exact List.map_congr_left fun r _ => getText?_documentOf columns (identity r) r

/-- No two records have the same identity. -/
theorem Shows.nodup (h : Shows columns identity c shown) : (shown.map identity).Nodup := by
  have hnodup := h.keyed.nodup
  rw [h.map_getText?] at hnodup
  exact hnodup.of_map some

/-- The identity of a record that is there is that of a document. -/
theorem Shows.exists_hasId (h : Shows columns identity c shown) (hid : id ∈ shown.map identity) :
    ∃ d ∈ c.documents, hasId id d = true := by
  have hmem : some id ∈ c.documents.map (Document.getText? · idField) := by
    rw [h.map_getText?]
    exact List.mem_map_of_mem hid
  obtain ⟨d, hd, hid'⟩ := List.mem_map.1 hmem
  exact ⟨d, hd, hasId_eq_true_iff.2 hid'⟩

/-- Writing the document of a record puts the record among those that are there. -/
theorem Shows.accept (h : Shows columns identity c shown) (hproper : IsProper columns)
    (hr : IsUnmarked r) :
    Shows columns identity (c.accept (documentOf columns (identity r) r))
      (putRecord identity r shown) := by
  have hx := addresses_documentOf columns (identity r) r
  have hplain := isPatch_documentOf hr columns (identity r)
  have hunversioned := unversioned_documentOf hproper (identity r) r
  refine ⟨h.keyed.accept hx, ?_⟩
  rcases accept_cases hx.get?_eq c with ⟨hnone, hafter⟩ | ⟨before, e, after, hds, he, hafter⟩
  · have hnew : identity r ∉ shown.map identity := fun hmem => by
      obtain ⟨d, hd, hid⟩ := h.exists_hasId hmem
      exact Bool.false_ne_true ((hnone d hd).symm.trans hid)
    rw [hafter, putRecord, if_neg hnew, List.map_append, List.map_append, h.documents,
      List.map_singleton, List.map_singleton, unversioned_withVersion, writtenOver,
      applyFields_empty_of_plain (hasDistinctNames_documentOf _ _ _) hplain, hunversioned,
      hunversioned]
  · -- The record of the document that is replaced stands at the same place.
    have hdocuments := h.documents
    rw [hds, List.map_append, List.map_cons] at hdocuments
    obtain ⟨shownBefore, rest, rfl, hbefore, hrest⟩ := List.map_eq_append_iff.1 hdocuments.symm
    obtain ⟨s, shownAfter, rfl, hs, hrest⟩ := List.map_eq_cons_iff.1 hrest
    have hid : identity s = identity r := by
      have he' := hasId_eq_true_iff.1 he
      rw [← getText?_unversioned, ← hs, getText?_documentOf] at he'
      exact Option.some.inj he'
    rw [hafter, putRecord_append_cons hid h.nodup, List.map_append, List.map_cons, List.map_append,
      List.map_cons, hbefore, hrest, unversioned_withVersion, writtenOver, hplain]
    simp only [Bool.false_eq_true, if_false, hunversioned]

/-- The records of the documents are those that they have been made of, up to their lists. -/
theorem Shows.map_readRecord (h : Shows columns identity c shown) (hproper : IsProper columns)
    (hfits : ∀ r ∈ shown, Fits columns r) :
    c.documents.map (readRecord columns) = shown.map fun r => r.map Value.reread := by
  rw [h.map_eq (readRecord_unversioned hproper.version)]
  exact List.map_congr_left fun r hr => readRecord_documentOf hproper (hfits r hr) (identity r)

/-- Writing the documents of further records puts them among those that are there. -/
theorem Shows.foldl_accept (h : Shows columns identity c shown) (hproper : IsProper columns)
    (hrs : ∀ r ∈ rs, IsUnmarked r) :
    Shows columns identity
      ((rs.map fun r => documentOf columns (identity r) r).foldl Contents.accept c)
      (putRecords identity rs shown) := by
  induction rs generalizing c shown with
  | nil => exact h
  | cons r rs ih =>
    exact ih (h.accept hproper (hrs r List.mem_cons_self)) fun s hs =>
      hrs s (List.mem_cons_of_mem _ hs)

/-! ## Records of scalars -/

namespace Layout

/-- Without columns for objects of the store a record that fits has scalars only. -/
theorem Fits.isScalar (h : Fits columns r) (hobject : ∀ column ∈ columns, column.type ≠ .object) :
    ∀ v ∈ r, v.IsScalar := by
  induction h with
  | nil => simp
  | cons hv _ ih =>
    rw [List.forall_mem_cons] at hobject ⊢
    exact ⟨hv.isScalar hobject.1, ih hobject.2⟩

theorem isUnmarked_of_isScalar (h : ∀ v ∈ r, v.IsScalar) : IsUnmarked r := fun v hv =>
  (h v hv).unmark?_toStored

theorem map_reread_of_isScalar (h : ∀ v ∈ r, v.IsScalar) : r.map Value.reread = r := by
  have hsame : ∀ v ∈ r, v.reread = id v := fun v hv => Value.reread_of_isScalar (h v hv)
  rw [List.map_congr_left hsame, List.map_id]

end Layout

/-! ## Calls -/

namespace Table

variable {t : Table} {w : World Memory} {records : List Record} {condition : Condition}

/-- The store is in reach, and the collection of the table holds the documents of some records. -/
structure Stores (t : Table) (identity : Record → String) (w : World Memory)
    (shown : List Record) : Prop where
  isOpen : w.store.check = .ok ()
  shows : ∃ c, w.store.collections.get? t.collection.name = some c ∧
    Shows t.layout.columns identity c shown

theorem stores_nil (identity : Record → String) (hopen : w.store.check = .ok ())
    (hcontents : w.store.collections.get? t.collection.name = some c) (hempty : c.documents = []) :
    Stores t identity w [] :=
  ⟨hopen, c, hcontents, shows_nil _ _ hempty⟩

/-- Records whose documents have identities are written in one request, in order. -/
theorem add_memory (hconnected : t.isConnected = true) (hopen : w.store.check = .ok ())
    (hcontents : w.store.collections.get? t.collection.name = some c) {ds : List Document}
    {supply : Nat} (hbuild : t.layout.buildAll w.supply records = .ok (ds, supply))
    (hids : ∀ d ∈ ds, (d.get? idField).isSome = true) :
    ∃ w', t.add Memory.service records w = (⟨records.length, false⟩, w') ∧
      w'.store = w.store.setContents t.collection.name (ds.foldl Contents.accept c) := by
  cases records with
  | nil =>
    obtain ⟨rfl, -⟩ := Prod.mk.inj (Except.ok.inj hbuild)
    exact ⟨w, rfl, (setContents_self hcontents).symm⟩
  | cons r rs =>
    have hall : t.buildRecords w.supply (r :: rs) = .ok (ds, supply) := by
      simp only [buildRecords, checkConnected_eq_ok hconnected, hbuild, bind, Except.bind]
    have hwrite : t.writeRecords Memory.service (r :: rs) w =
        (.ok (), ⟨w.store.setContents t.collection.name (ds.foldl Contents.accept c), supply,
          w.log⟩) := by
      simp only [writeRecords, bind, StateT.bind, get, getThe, MonadStateOf.get, StateT.get, pure,
        hall]
      exact congrArg (fun answer => (answer.1, (⟨answer.2, supply, w.log⟩ : World Memory)))
        (write_eq hopen hcontents hids)
    simp only [Table.add, List.isEmpty_cons, Bool.false_eq_true, if_false, bind, StateT.bind,
      hwrite]
    exact ⟨_, rfl, rfl⟩

/-- An addition puts its records among those that are there. -/
theorem Stores.add (h : Stores t identity w shown) (hconnected : t.isConnected = true)
    (hproper : IsProper t.layout.columns) (hrecords : ∀ r ∈ records, IsUnmarked r) {supply : Nat}
    (hbuild : t.layout.buildAll w.supply records =
      .ok (records.map fun r => documentOf t.layout.columns (identity r) r, supply)) :
    ∃ w', t.add Memory.service records w = (⟨records.length, false⟩, w') ∧
      Stores t identity w' (putRecords identity records shown) := by
  obtain ⟨c, hcontents, hshows⟩ := h.shows
  have hids : ∀ d ∈ records.map fun r => documentOf t.layout.columns (identity r) r,
      (d.get? idField).isSome = true := by
    intro d hd
    obtain ⟨r, -, rfl⟩ := List.mem_map.1 hd
    rw [(addresses_documentOf t.layout.columns (identity r) r).get?_eq]
    rfl
  obtain ⟨w', hadd, hstore⟩ := add_memory hconnected h.isOpen hcontents hbuild hids
  refine ⟨w', hadd, hstore ▸ h.isOpen, _, ?_, hshows.foldl_accept hproper hrecords⟩
  rw [hstore, get?_setContents]

/-- A search without a condition yields the records that are there, up to their lists. -/
theorem Stores.find (h : Stores t identity w shown) (hconnected : t.isConnected = true)
    (hproper : IsProper t.layout.columns) (hfits : ∀ r ∈ shown, Fits t.layout.columns r)
    (hcondition : condition.isEmpty = true) (params : Bindings) :
    ∃ cursor, t.find params condition w = (.ok cursor, w) ∧
      cursor.Yields Memory.service w (shown.map fun r => r.map Value.reread) := by
  obtain ⟨c, hcontents, hshows⟩ := h.shows
  rw [← hshows.map_readRecord hproper hfits]
  exact yields_find hconnected h.isOpen hcontents hcondition params

/-- Adds batches of records, one call after the other. -/
def addAll {σ : Type} (service : Service σ) (t : Table) :
    List (List Record) → Act σ (List InsertReport)
  | [] => return []
  | records :: batches => do
    let report ← t.add service records
    let reports ← addAll service t batches
    return report :: reports

/-- Any number of additions under a key leaves the current records. -/
theorem Stores.addAll {names : List String} {batches : List (List Record)}
    (h : Stores t (keyIdentity t.layout.columns names) w
      (current (keyIdentity t.layout.columns names) rs))
    (hconnected : t.isConnected = true) (hkey : t.layout.key = some names)
    (hproper : IsProper t.layout.columns)
    (hfits : ∀ records ∈ batches, ∀ r ∈ records, Fits t.layout.columns r)
    (hunmarked : ∀ records ∈ batches, ∀ r ∈ records, IsUnmarked r) :
    ∃ w', t.addAll Memory.service batches w =
        (batches.map fun records => ⟨records.length, false⟩, w') ∧
      Stores t (keyIdentity t.layout.columns names) w'
        (current (keyIdentity t.layout.columns names) (rs ++ batches.flatten)) := by
  induction batches generalizing w rs with
  | nil => exact ⟨w, rfl, by simpa using h⟩
  | cons records batches ih =>
    rw [List.forall_mem_cons] at hfits hunmarked
    obtain ⟨supply, hbuild⟩ := buildAll_eq hproper hkey hfits.1 w.supply
    obtain ⟨w₁, hadd, h₁⟩ := h.add hconnected hproper hunmarked.1 hbuild
    rw [putRecords_current] at h₁
    obtain ⟨w₂, hrest, h₂⟩ := ih h₁ hfits.2 hunmarked.2
    refine ⟨w₂, ?_, ?_⟩
    · simp only [Table.addAll, bind, StateT.bind, hadd, hrest]
      rfl
    · rwa [List.append_assoc, ← List.flatten_cons] at h₂

/-- After additions to an empty collection a search without a condition yields the last record of
every identity, in the order in which the identities have first been added. -/
theorem find_addAll (hconnected : t.isConnected = true) {names : List String}
    (hkey : t.layout.key = some names) (hproper : IsProper t.layout.columns)
    (hobject : ∀ column ∈ t.layout.columns, column.type ≠ .object)
    (hopen : w.store.check = .ok ())
    (hcontents : w.store.collections.get? t.collection.name = some c) (hempty : c.documents = [])
    {batches : List (List Record)}
    (hfits : ∀ records ∈ batches, ∀ r ∈ records, Fits t.layout.columns r)
    (hcondition : condition.isEmpty = true) (params : Bindings) :
    ∃ w' cursor, t.addAll Memory.service batches w =
        (batches.map fun records => ⟨records.length, false⟩, w') ∧
      t.find params condition w' = (.ok cursor, w') ∧
      cursor.Yields Memory.service w'
        (current (keyIdentity t.layout.columns names) batches.flatten) := by
  have hscalar : ∀ records ∈ batches, ∀ r ∈ records, ∀ v ∈ r, v.IsScalar :=
    fun records hrecords r hr => (hfits records hrecords r hr).isScalar hobject
  have hstart : Stores t (keyIdentity t.layout.columns names) w
      (current (keyIdentity t.layout.columns names) []) := stores_nil _ hopen hcontents hempty
  obtain ⟨w', haddAll, hstores⟩ := hstart.addAll hconnected hkey hproper hfits
    fun records hrecords r hr => isUnmarked_of_isScalar (hscalar records hrecords r hr)
  rw [List.nil_append] at hstores
  have hbatch : ∀ r ∈ current (keyIdentity t.layout.columns names) batches.flatten,
      ∃ records ∈ batches, r ∈ records := fun r hr => List.mem_flatten.1 (mem_of_mem_current hr)
  have hshown : ∀ r ∈ current (keyIdentity t.layout.columns names) batches.flatten,
      Fits t.layout.columns r := fun r hr => by
    obtain ⟨records, hrecords, hr⟩ := hbatch r hr
    exact hfits records hrecords r hr
  have hsame : ∀ r ∈ current (keyIdentity t.layout.columns names) batches.flatten,
      r.map Value.reread = id r := fun r hr => by
    obtain ⟨records, hrecords, hr⟩ := hbatch r hr
    exact map_reread_of_isScalar (hscalar records hrecords r hr)
  obtain ⟨cursor, hfind, hyields⟩ := hstores.find hconnected hproper hshown hcondition params
  rw [List.map_congr_left hsame, List.map_id] at hyields
  exact ⟨w', cursor, haddAll, hfind, hyields⟩

/-- A store with the collection of the table of people, without any of them. -/
def nobody : World Memory := ⟨Memory.empty.setContents "people" ⟨true, none, [], 0⟩, 0, []⟩

/-- Of a person who has been added twice the second record is there, at the place of the first. -/
theorem find_addAll_nobody :
    let batches : List (List Record) :=
      [[[.text "alice", .int 30, .text "Oslo"], [.text "bob", .int 40, .null]],
        [[.text "alice", .null, .text "Bergen"]]]
    ∃ w' cursor, peopleTable.addAll Memory.service batches nobody =
        ([⟨2, false⟩, ⟨1, false⟩], w') ∧
      peopleTable.find .empty .all w' = (.ok cursor, w') ∧
      cursor.Yields Memory.service w'
        [[.text "alice", .null, .text "Bergen"], [.text "bob", .int 40, .null]] := by
  intro batches
  have hcurrent : current (keyIdentity peopleTable.layout.columns ["name"]) batches.flatten =
      [[.text "alice", .null, .text "Bergen"], [.text "bob", .int 40, .null]] := by decide +kernel
  have hcontents : nobody.store.collections.get? peopleTable.collection.name =
      some ⟨true, none, [], 0⟩ := get?_setContents _ _ _
  rw [← hcurrent]
  exact find_addAll rfl rfl (by decide +kernel) (by decide +kernel) rfl hcontents rfl
    (by decide +kernel) (by decide +kernel) .empty

/-- After the addition of one record to an empty collection a search without a condition yields the
record, up to the lists in it. -/
theorem find_add (hconnected : t.isConnected = true) (hproper : IsProper t.layout.columns)
    (hopen : w.store.check = .ok ())
    (hcontents : w.store.collections.get? t.collection.name = some c) (hempty : c.documents = [])
    (hfits : Fits t.layout.columns r) (hunmarked : IsUnmarked r)
    (hcondition : condition.isEmpty = true) (params : Bindings) :
    ∃ w' cursor, t.add Memory.service [r] w = (⟨1, false⟩, w') ∧
      t.find params condition w' = (.ok cursor, w') ∧
      cursor.Yields Memory.service w' [r.map Value.reread] := by
  obtain ⟨supply, hbuild⟩ := build_eq hproper.id hfits.length_eq.symm w.supply
  have hall : t.layout.buildAll w.supply [r] =
      .ok ([r].map fun r => documentOf t.layout.columns (t.layout.identityIn w.supply r) r,
        supply) := by
    simp only [buildAll, hbuild, bind, Except.bind, List.map_cons, List.map_nil]
  have hstart := stores_nil (t.layout.identityIn w.supply) hopen hcontents hempty
  obtain ⟨w', hadd, hstores⟩ :=
    hstart.add hconnected hproper (List.forall_mem_singleton.2 hunmarked) hall
  have hput : putRecords (t.layout.identityIn w.supply) [r] [] = [r] := rfl
  rw [hput] at hstores
  obtain ⟨cursor, hfind, hyields⟩ :=
    hstores.find hconnected hproper (List.forall_mem_singleton.2 hfits) hcondition params
  exact ⟨w', cursor, hadd, hfind, hyields⟩

/-- A connected table with two columns for objects of the store. -/
def boxTable : Table :=
  { name := "boxes"
    layout := ⟨[⟨"name", .string⟩, ⟨"items", .object⟩, ⟨"box", .object⟩], none⟩
    options := {}
    collection := ⟨"boxes", "", 1, 1, "", "", .ofKey none⟩
    connected := true
    schema := some (.ofKey none) }

/-- A store with the collection of the table of boxes, without any of them. -/
def noBoxes : World Memory := ⟨Memory.empty.setContents "boxes" ⟨true, none, [], 0⟩, 0, []⟩

theorem find_add_noBoxes :
    let r : Record := [.text "a", .object (.array [.int32 1, .int32 2]),
      .object (.document [("set", .int32 5), ("n", .int32 6)])]
    Fits boxTable.layout.columns r ∧ IsUnmarked r ∧
      ∃ w' cursor, boxTable.add Memory.service [r] noBoxes = (⟨1, false⟩, w') ∧
        boxTable.find .empty .all w' = (.ok cursor, w') ∧
        cursor.Yields Memory.service w' [[.text "a", .object (.int32 1),
          .object (.document [("set", .int32 5), ("n", .int32 6)])]] := by
  intro r
  have hfits : Fits boxTable.layout.columns r := by decide +kernel
  have hunmarked : IsUnmarked r := by decide +kernel
  have hcontents : noBoxes.store.collections.get? boxTable.collection.name =
      some ⟨true, none, [], 0⟩ := get?_setContents _ _ _
  exact ⟨hfits, hunmarked, find_add rfl (by decide +kernel) rfl hcontents rfl hfits hunmarked
    (by decide +kernel) .empty⟩

/-- Of a list the first item comes back, and of a document that looks like the marker of a patch the
value that is marked. -/
theorem not_find_add_noBoxes :
    let r : Record := [.text "a", .object (.array [.int32 1, .int32 2]),
      .object (.document [("set", .int32 5)])]
    let out := boxTable.add Memory.service [r] noBoxes
    IsProper boxTable.layout.columns ∧ Fits boxTable.layout.columns r ∧ out.1 = ⟨1, false⟩ ∧
      ∃ cursor, boxTable.find .empty .all out.2 = (.ok cursor, out.2) ∧
        cursor.Yields Memory.service out.2
          [[.text "a", .object (.int32 1), .object (.int32 5)]] ∧
        ¬ cursor.Yields Memory.service out.2 [r] := by
  intro r out
  obtain ⟨c, hcontents⟩ : ∃ c, out.2.store.collections.get? boxTable.collection.name = some c :=
    Option.isSome_iff_exists.1 (by decide +kernel)
  have hcondition : Condition.all.isEmpty = true := by decide +kernel
  have hdocuments : out.2.store.documents boxTable.collection.name = c.documents := by
    rw [Memory.documents, hcontents]
    rfl
  have hread : (out.2.store.documents boxTable.collection.name).map
      (readRecord boxTable.layout.columns) =
        [[.text "a", .object (.int32 1), .object (.int32 5)]] := by decide +kernel
  obtain ⟨cursor, hfind, hyields⟩ := yields_find (t := boxTable) rfl
    (by decide +kernel) hcontents hcondition .empty
  rw [← hdocuments, hread] at hyields
  exact ⟨by decide +kernel, by decide +kernel, by decide +kernel, cursor, hfind, hyields,
    fun hsame => absurd (hyields.unique hsame) (by decide +kernel)⟩

end Table

end SearchTable
