import SearchTable.Proofs.Table.Reading
/-!
# The identity after a change

The identity that a document gets by a change of its key is worked out from the document: from the
changes where they name a key column, and from what is stored in the others.  A record with the same
changes goes another way, since its identity comes from the values before they are stored.

Both derive one identity (`Layout.identityAfter_build`).  The changes agree by definition, and a
scalar that has been stored is read back as it was (`Layout.identityAfter_documentOf`), single
precision included.  A record that is changed has the new values in the columns that the changes
name and the old ones elsewhere (`Layout.valueIn_changed`).
-/

namespace SearchTable.Layout

open Document

variable {l : Layout} {columns : List Column} {names : List String} {r : Record}
  {changes : Changes} {name : String}

/-! ## Changed records -/

/-- A record with the value of one column replaced. -/
def replaceValue (columns : List Column) (r : Record) (change : String × Value) : Record :=
  List.zipWith (fun c v => if c.name = change.1 then change.2 else v) columns r

/-- A record with changes made to its columns, one after the other.  Changes of other fields have no
place in it. -/
def changed (columns : List Column) (r : Record) (changes : Changes) : Record :=
  changes.foldl (replaceValue columns) r

theorem length_replaceValue (hlength : r.length = columns.length) (change : String × Value) :
    (replaceValue columns r change).length = columns.length := by
  simp [replaceValue, hlength]

theorem length_changed (hlength : r.length = columns.length) (changes : Changes) :
    (changed columns r changes).length = columns.length := by
  induction changes generalizing r with
  | nil => exact hlength
  | cons change changes ih => exact ih (length_replaceValue hlength change)

theorem valueIn_cons (c : Column) (columns : List Column) (v : Value) (r : Record)
    (name : String) :
    valueIn (c :: columns) (v :: r) name = if c.name = name then v else valueIn columns r name := by
  by_cases hname : c.name = name <;> simp [valueIn, hname]

/-- The replaced value is the one of its column, and the others stay. -/
theorem valueIn_replaceValue (hlength : r.length = columns.length)
    (hcolumn : name ∈ columns.map Column.name) (change : String × Value) :
    valueIn columns (replaceValue columns r change) name =
      if name = change.1 then change.2 else valueIn columns r name := by
  induction columns generalizing r with
  | nil => cases hcolumn
  | cons c columns ih =>
    obtain ⟨v, r, rfl⟩ := List.exists_cons_of_length_eq_add_one hlength
    have hrest : replaceValue (c :: columns) (v :: r) change =
        (if c.name = change.1 then change.2 else v) :: replaceValue columns r change := rfl
    rw [hrest, valueIn_cons, valueIn_cons]
    by_cases hname : c.name = name
    · simp [hname]
    · have hmem : name ∈ columns.map Column.name := by
        simpa [Ne.symm hname] using hcolumn
      rw [if_neg hname, if_neg hname, ih (by simpa using hlength) hmem]

/-- Changes that name every field once leave the new value in a column that they name. -/
theorem valueIn_changed (hlength : r.length = columns.length)
    (hcolumn : name ∈ columns.map Column.name) (honce : (changes.map Prod.fst).Nodup) :
    valueIn columns (changed columns r changes) name =
      (changes.lookup name).getD (valueIn columns r name) := by
  induction changes generalizing r with
  | nil => rfl
  | cons change changes ih =>
    obtain ⟨n, v⟩ := change
    rw [List.map_cons, List.nodup_cons] at honce
    have hfirst : changed columns r ((n, v) :: changes) =
        changed columns (replaceValue columns r (n, v)) changes := rfl
    rw [hfirst, ih (length_replaceValue hlength _) honce.2, valueIn_replaceValue hlength hcolumn]
    by_cases hname : name = n
    · subst hname
      simp [Reconcile.lookup_changes_eq_none honce.1]
    · rw [List.lookup_cons, beq_eq_false_iff_ne.2 hname, if_neg hname]

/-! ## Predicted identities -/

/-- A layout declares its key. -/
theorem declares_of_make {key : Option (List String)} (h : make columns key = .ok l)
    (hkey : l.key = some names) :
    l.columns = columns ∧ ∀ name ∈ names, name ∈ columns.map Column.name := by
  rw [make] at h
  split at h
  · cases h
  · rename_i hnone
    obtain rfl := Except.ok.inj h
    dsimp only at hkey
    rw [hkey, Option.getD_some, List.find?_eq_none] at hnone
    refine ⟨rfl, fun name hname => ?_⟩
    have hsome : column? columns name ≠ none := fun heq => hnone name hname (by simp [heq])
    obtain ⟨c, hc⟩ := Option.ne_none_iff_exists'.1 hsome
    obtain rfl : c.name = name := by simpa using List.find?_some hc
    exact List.mem_map_of_mem (List.mem_of_find?_eq_some hc)

/-- A scalar of the type of its column that has been stored is read back by the name of the
column. -/
theorem readColumn_of_isScalar (hnames : (columns.map Column.name).Nodup)
    (hid : idField ∉ columns.map Column.name) (hlength : r.length = columns.length)
    (hcolumn : name ∈ columns.map Column.name)
    (hscalar : ∀ f ∈ columns.zip r, f.1.name = name → f.2.HasType f.1.type ∧ f.2.IsScalar)
    (id : String) :
    ((column? columns name).map (readColumn (documentOf columns id r))).getD .null =
      valueIn columns r name := by
  cases hfind : column? columns name with
  | none =>
    obtain ⟨c, hc, hname⟩ := List.mem_map.1 hcolumn
    exact absurd hname (by simpa using List.find?_eq_none.1 hfind c hc)
  | some c =>
    obtain rfl : c.name = name := by simpa using List.find?_some hfind
    have hmem := mem_zip_valueIn hnames hlength (List.mem_of_find?_eq_some hfind)
    obtain ⟨htype, hscalar⟩ := hscalar _ hmem rfl
    rw [Option.map_some, Option.getD_some, readColumn_documentOf hnames hid hmem htype id,
      Value.reread_of_isScalar hscalar]

/-- The identity after changes of a document is that of the changed record's key. -/
theorem identityAfter_documentOf (hkey : l.key = some names)
    (hdeclared : ∀ name ∈ names, name ∈ l.columns.map Column.name)
    (hnames : (l.columns.map Column.name).Nodup) (hid : idField ∉ l.columns.map Column.name)
    (hlength : r.length = l.columns.length)
    (hscalar : ∀ f ∈ l.columns.zip r, f.1.name ∈ names → f.2.HasType f.1.type ∧ f.2.IsScalar)
    (honce : (changes.map Prod.fst).Nodup) (id : String) :
    l.identityAfter (documentOf l.columns id r) changes =
      keyIdentity l.columns names (changed l.columns r changes) := by
  rw [identityAfter, keyIdentity, hkey, Option.getD_some]
  refine congrArg Identity.ofKey (List.map_congr_left fun name hname => ?_)
  have hcolumn := hdeclared name hname
  rw [valueIn_changed hlength hcolumn honce]
  cases changes.lookup name with
  | some v => rfl
  | none =>
    exact readColumn_of_isScalar hnames hid hlength hcolumn
      (fun f hf heq => hscalar f hf (heq ▸ hname)) id

/-- The identity that is predicted for the document of a record after changes is the one that the
changed record is built with.  With no changes it is the one that is stored.  What the record has in
other columns than those of the key does not matter. -/
theorem identityAfter_build {key : Option (List String)} (hmake : make columns key = .ok l)
    (hkey : l.key = some names) (hnames : (columns.map Column.name).Nodup)
    (hid : idField ∉ columns.map Column.name) (hlength : r.length = columns.length)
    (hscalar : ∀ f ∈ columns.zip r, f.1.name ∈ names → f.2.HasType f.1.type ∧ f.2.IsScalar)
    (honce : (changes.map Prod.fst).Nodup) (supply : Nat) :
    ∃ d d' next next', l.build supply r = .ok (d, next) ∧
      l.build supply (changed columns r changes) = .ok (d', next') ∧
      d'.get? idField = some (.text (l.identityAfter d changes)) ∧
      d.get? idField = some (.text (l.identityAfter d [])) := by
  obtain ⟨rfl, hdeclared⟩ := declares_of_make hmake hkey
  obtain ⟨next, hbuild⟩ := build_eq hid hlength supply
  obtain ⟨next', hbuild'⟩ := build_eq hid (length_changed hlength changes) supply
  rw [identityIn_of_key hkey] at hbuild hbuild'
  refine ⟨_, _, next, next', hbuild, hbuild', ?_, ?_⟩
  · rw [identityAfter_documentOf hkey hdeclared hnames hid hlength hscalar honce, documentOf,
      get?_insert, if_pos rfl]
  · have hnone : (([] : Changes).map Prod.fst).Nodup := List.nodup_nil
    rw [identityAfter_documentOf hkey hdeclared hnames hid hlength hscalar hnone, documentOf,
      get?_insert, if_pos rfl]
    rfl

theorem identityAfter_build_label :
    let columns : List Column :=
      [⟨"name", .string⟩, ⟨"size", .float⟩, ⟨"tag", .long⟩, ⟨"note", .object⟩]
    let names := ["size", "name"]
    let l : Layout := ⟨columns, some names⟩
    let r : Record :=
      [.text "a", .float (.ofBits 0x3dcccccd), .null, .object .null]
    let changes : Changes := [("name", .int 7), ("colour", .text "red")]
    make columns (some names) = .ok l ∧ l.key = some names ∧ (columns.map Column.name).Nodup ∧
      idField ∉ columns.map Column.name ∧ r.length = columns.length ∧
      (∀ f ∈ columns.zip r, f.1.name ∈ names → f.2.HasType f.1.type ∧ f.2.IsScalar) ∧
      (changes.map Prod.fst).Nodup ∧
      ∃ d d' next next', l.build 0 r = .ok (d, next) ∧
        l.build 0 (changed columns r changes) = .ok (d', next') ∧
        d'.get? idField = some (.text (l.identityAfter d changes)) ∧
        d.get? idField = some (.text (l.identityAfter d [])) := by
  intro columns names l r changes
  have hmake : make columns (some names) = .ok l := by decide
  have hnames : (columns.map Column.name).Nodup := by decide
  have hid : idField ∉ columns.map Column.name := by decide
  have hlength : r.length = columns.length := rfl
  have hscalar : ∀ f ∈ columns.zip r, f.1.name ∈ names → f.2.HasType f.1.type ∧ f.2.IsScalar := by
    decide
  have honce : (changes.map Prod.fst).Nodup := by decide
  exact ⟨hmake, rfl, hnames, hid, hlength, hscalar, honce,
    identityAfter_build hmake rfl hnames hid hlength hscalar honce 0⟩

/-- The text in the key is changed to a number, and the stored single is read back. -/
example :
    let l : Layout := ⟨[⟨"name", .string⟩, ⟨"size", .float⟩], some ["size", "name"]⟩
    (l.build 0 [.text "a", .float (.ofBits 0x3dcccccd)]).map
        (fun built => l.identityAfter built.1 [("name", .int 7)]) =
      .ok (Identity.ofName "0.17") := by decide +kernel

end SearchTable.Layout
