import SearchTable.Proofs.Table.DeclaredIdentity
import SearchTable.Proofs.Table.Survival
/-!
# Rows under the identities of their keys

An update that changes a key takes two things from its list of changes: the identity that a match
gets, and the fields that it has afterwards.  The identity is that of the first values which the
list assigns to the key columns (`Layout.identityAfter`).  The fields have the last ones, because
every assignment sets its field anew, in a rebuilt document (`get?_applyChanges_last`) as in a
patch (`get?_patchDocument`).

So a row is afterwards filed under the identity of the list as it stands, while its key is that of
the list read backwards.  `found_sendAll_stage` finds the row, `keyIdentity_readRecord` reads its
key, and `Table.keyIdentity_update_iff` compares the two: they agree unless a key column is assigned
twice, with different values first and last.
-/

namespace SearchTable

open Memory Document Layout Reconcile

variable {changes : Changes} {d : Document} {name id : String}

/-! ## The last assignment -/

namespace Reconcile

/-- What changes leave in a field: the last value that they assign to it, or what was there. -/
def fieldAfter (changes : Changes) (name : String) (o : Option Stored) : Option Stored :=
  match changes.reverse.lookup name with
  | some v => if v.isNull then none else some v.toStored
  | none => o

theorem mem_of_lookup {α : Type} {fields : List (String × α)} {v : α}
    (h : fields.lookup name = some v) : (name, v) ∈ fields := by
  obtain ⟨before, after, rfl, -⟩ := List.lookup_eq_some_iff.1 h
  simp

theorem lookup_reverse_concat (changes : Changes) (f : String × Value) (name : String) :
    (changes ++ [f]).reverse.lookup name =
      if name = f.1 then some f.2 else changes.reverse.lookup name := by
  obtain ⟨n, v⟩ := f
  rw [List.reverse_append, List.reverse_singleton, List.singleton_append, List.lookup_cons]
  by_cases hname : name = n
  · simp [hname]
  · simp [hname, beq_eq_false_iff_ne.2 hname]

theorem get?_applyChanges_last (d : Document) (changes : Changes) (name : String) :
    (applyChanges d changes).get? name = fieldAfter changes name (d.get? name) := by
  induction changes using List.reverseRecOn with
  | nil => rfl
  | append_singleton changes f ih =>
    obtain ⟨n, v⟩ := f
    have hlast : applyChanges d (changes ++ [(n, v)]) =
        if v.isNull then (applyChanges d changes).erase n
        else (applyChanges d changes).insert n v.toStored := by
      simp [applyChanges]
    rw [hlast, fieldAfter, lookup_reverse_concat]
    by_cases hname : name = n
    · by_cases hv : v.isNull = true <;> simp [hname, hv, get?_erase]
    · rw [if_neg hname]
      refine Eq.trans ?_ ih
      by_cases hv : v.isNull = true <;> simp [hname, hv, get?_erase]

theorem get?_patchDocument (hname : name ≠ idField) (id : String) (changes : Changes) :
    (patchDocument id changes).get? name =
      (changes.reverse.lookup name).map fun v => v.toStored.mark := by
  induction changes using List.reverseRecOn with
  | nil => simp [patchDocument, hname]
  | append_singleton changes f ih =>
    have hlast : patchDocument id (changes ++ [f]) =
        (patchDocument id changes).insert f.1 f.2.toStored.mark := by
      simp [patchDocument]
    rw [hlast, get?_insert, lookup_reverse_concat, ih]
    split <;> rfl

/-! ## What is written for a match -/

/-- A field that comes in once is left with its new value. -/
theorem get?_applyFields {fields : List (String × Stored)} (hnodup : (fields.map Prod.fst).Nodup)
    (hversion : name ≠ versionField) (d : Document) :
    (applyFields d fields).get? name =
      match fields.lookup name with
      | some v => newValue? v
      | none => d.get? name := by
  induction fields generalizing d with
  | nil => rfl
  | cons f fields ih =>
    obtain ⟨n, v⟩ := f
    rw [List.map_cons, List.nodup_cons] at hnodup
    rw [applyFields_cons]
    by_cases hname : name = n
    · subst hname
      rw [get?_applyFields_of_notMem hnodup.1, get?_setIncoming, if_pos ⟨rfl, hversion⟩,
        List.lookup_cons_self]
    · rw [ih hnodup.2, get?_setIncoming, if_neg fun h => hname h.1, List.lookup_cons,
        beq_eq_false_iff_ne.2 hname]

/-- Whether it is patched or rebuilt, a match has the last values that the changes assign. -/
theorem get?_updated (plan : Plan) (hne : changes ≠ []) (hscalar : ∀ f ∈ changes, f.2.IsScalar)
    (hnames : d.HasDistinctNames) (hid : name ≠ idField) (hversion : name ≠ versionField)
    (hplain : ∀ v ∈ d.get? name, v.unmark? = none) :
    (updated plan changes d).get? name = fieldAfter changes name (d.get? name) := by
  rw [updated]
  have hmem : ∀ v, changes.reverse.lookup name = some v → v.IsScalar := fun v hv =>
    hscalar (name, v) (List.mem_reverse.1 (mem_of_lookup hv))
  by_cases hsame : newId plan changes d = oldId d
  · have hdistinct : (patchDocument (oldId d) changes).HasDistinctNames := by
      rw [patchDocument_eq]
      exact hasDistinctNames_foldl_insert (hasDistinctNames_empty.insert _ _) _
    have hfield := get?_patchDocument hid (oldId d) changes
    rw [Document.get?] at hfield
    rw [if_pos hsame, stage_of_eq hsame, writtenOver,
      if_pos (isPatch_patchDocument_of_ne_nil hne _), get?_applyFields hdistinct hversion, hfield,
      fieldAfter]
    cases hlast : changes.reverse.lookup name with
    | none => rfl
    | some v => exact newValue?_mark (hmem v hlast)
  · have hfield : (rebuiltDocument d (newId plan changes d) changes).get? name =
        fieldAfter changes name (d.get? name) := by
      rw [rebuiltDocument, get?_insert, if_neg hid, get?_applyChanges_last, get?_erase,
        if_neg hversion]
    rw [if_neg hsame, stage_of_ne hsame, writtenOver,
      get?_applyFields (hasDistinctNames_rebuiltDocument hnames _ _) hversion]
    rw [Document.get?] at hfield
    rw [hfield, fieldAfter]
    cases hlast : changes.reverse.lookup name with
    | none => cases hd : d.get? name with
      | none => rfl
      | some v => exact newValue?_of_unmarked (hplain v hd)
    | some v =>
      by_cases hv : v.isNull = true
      · simp [hv]
      · simp [hv, newValue?_of_unmarked (hmem v hlast).unmark?_toStored]

/-! ## What is found for a match -/

section Found

variable {plan : Plan} {q : Query.Node} {c : Contents} (hc : Tidy c.documents)
  (hid : idField ∉ changes.map Prod.fst) (hapart : Apart plan changes (c.select q) c.documents)
  (hd : d ∈ c.select q)

include hc hid hapart hd

/-- No other document has the identity that a match gets. -/
theorem getText?_ne_newId {e : Document} (he : e ∈ c.documents) (hne : e ≠ d) :
    e.getText? idField ≠ some (newId plan changes d) := by
  have haddresses : Addresses (stage plan changes d).write (newId plan changes d) :=
    addresses_stage (hc.names d (List.mem_of_mem_filter hd)) hid
  exact hapart.unused d hd _ ((touches_iff haddresses).2 rfl) e he hne

/-- No other match gets the identity that a match gets. -/
theorem newId_ne {e : Document} (he : e ∈ c.select q) (hne : e ≠ d) :
    newId plan changes e ≠ newId plan changes d := by
  have haddresses : ∀ x ∈ c.select q,
      Addresses (stage plan changes x).write (newId plan changes x) := fun x hx =>
    addresses_stage (hc.names x (List.mem_of_mem_filter hx)) hid
  intro heq
  exact hapart.apart d hd e he hne _ ((touches_iff (haddresses d hd)).2 rfl)
    ((touches_iff (haddresses e he)).2 heq.symm)

/-- Before it is written under another identity, a match is the only one that can be found there. -/
theorem find_newId : c.find (newId plan changes d) =
    if newId plan changes d = oldId d then some d else none := by
  have hmem := List.mem_of_mem_filter hd
  have hold := getText?_eq_oldId hc.keyed hmem
  split
  · rename_i hsame
    rw [hsame]
    exact hc.keyed.find_eq hmem hold
  · rename_i hmoves
    refine List.find?_eq_none.2 fun e he hhas => ?_
    have hnew := hasId_eq_true_iff.1 hhas
    by_cases hsame : e = d
    · subst hsame
      exact hmoves (Option.some.inj (hnew.symm.trans hold))
    · exact getText?_ne_newId hc hid hapart hd he hsame hnew

/-- The identity that a match gets is not given up. -/
theorem newId_notMem_deletions :
    newId plan changes d ∉ deletions ((c.select q).map (stage plan changes)) := by
  rw [deletions_map_stage]
  intro hmem
  obtain ⟨e, he, heq⟩ := List.mem_map.1 hmem
  obtain ⟨he, hmoves⟩ := List.mem_filter.1 he
  rw [decide_eq_true_eq] at hmoves
  have hold := getText?_eq_oldId hc.keyed (List.mem_of_mem_filter he)
  by_cases hsame : e = d
  · subst hsame
    exact hmoves heq.symm
  · rw [heq] at hold
    exact getText?_ne_newId hc hid hapart hd (List.mem_of_mem_filter he) hsame hold

/-- Under the identity that a match gets, what its own write leaves is found, for groups of every
size. -/
theorem found_sendAll_stage (batch : Nat) :
    found (sendAll batch [] ((c.select q).map (stage plan changes)) c) (newId plan changes d) =
      some (unversioned (updated plan changes d)) := by
  have hnames : ∀ e ∈ c.select q, e.HasDistinctNames := fun e he =>
    hc.names e (List.mem_of_mem_filter he)
  have haddressed : ∀ x ∈ [] ++ (c.select q).map (stage plan changes), x.IsAddressed :=
    isAddressed_of_mem_map_stage hnames hid
  have hnodup : (c.select q).Nodup := (List.Nodup.of_map _ hc.keyed.nodup).filter _
  rw [found_sendAll batch [] haddressed (newId_notMem_deletions hc hid hapart hd), List.nil_append,
    found, find_newId hc hid hapart hd]
  -- The other matches, before and behind this one, are written under other identities.
  obtain ⟨before, after, hsplit⟩ := List.append_of_mem hd
  have hother : ∀ es ⊆ c.select q, d ∉ es →
      ∀ x ∈ es.map (stage plan changes), x.target ≠ newId plan changes d := fun es hes hnotMem =>
    target_ne_of_mem_map_stage (fun e he => hnames e (hes he)) hid fun e he =>
      newId_ne hc hid hapart hd (hes he) fun heq => hnotMem (heq ▸ he)
  rw [hsplit] at hnodup hother ⊢
  obtain ⟨-, htail, hbefore⟩ := List.nodup_append.1 hnodup
  have hfront := hother before (List.subset_append_left _ _)
    fun hmem => hbefore d hmem d List.mem_cons_self rfl
  have hback := hother after (fun e he => by simp [he]) (List.nodup_cons.1 htail).1
  rw [List.map_append, List.map_cons, List.foldl_append, List.foldl_cons,
    foldl_leaves_of_forall_ne hfront, foldl_leaves_of_forall_ne hback, leaves,
    if_pos (target_stage (hnames d hd) hid), unversioned_writtenOver, updated]

omit hapart hd in
theorem tidy_sendAll_stage (batch : Nat) :
    Tidy (sendAll batch [] ((c.select q).map (stage plan changes)) c).documents := by
  have hmem : ∀ e ∈ c.select q, e ∈ c.documents := fun e he => List.mem_of_mem_filter he
  refine (noLarger_sendAll_stage batch [] hc (fun e he => ?_) ?_ fun e he => ?_).tidy
  · exact settles_of_ne (hc.names e (hmem e he)) fun h => absurd h hid
  · exact (nodup_map_oldId hc.keyed).sublist (List.filter_sublist.map oldId)
  · rw [hc.keyed.find_eq (hmem e he) (getText?_eq_oldId hc.keyed (hmem e he))]
    rfl

/-- The identity that a match gets is there, and what stands under it is what its write leaves. -/
theorem unversioned_of_newId (batch : Nat) :
    let after := (sendAll batch [] ((c.select q).map (stage plan changes)) c).documents
    (∃ e ∈ after, e.getText? idField = some (newId plan changes d)) ∧
      ∀ e ∈ after, e.getText? idField = some (newId plan changes d) →
        unversioned e = unversioned (updated plan changes d) := by
  intro after
  have hfound := found_sendAll_stage hc hid hapart hd batch
  obtain ⟨e, hfind, hupdated⟩ := Option.map_eq_some_iff.1 hfound
  refine ⟨⟨e, List.mem_of_find?_eq_some hfind, getText?_of_find hfind⟩, fun e' he' hnew => ?_⟩
  have hfind' := (tidy_sendAll_stage hc hid batch).keyed.find_eq he' hnew
  rw [Option.some.inj (hfind'.symm.trans hfind), hupdated]

end Found

end Reconcile

/-! ## The key that is read -/

namespace Layout

variable {l : Layout} {names : List String} {e : Document} {column : Column}

/-- A column with the last value that the changes assign to its field is read as that value. -/
theorem readColumn_after (htypes : ∀ v, changes.reverse.lookup column.name = some v →
      v.HasType column.type ∧ v.IsScalar)
    (hfield : e.get? column.name = fieldAfter changes column.name (d.get? column.name)) :
    readColumn e column =
      match changes.reverse.lookup column.name with
      | some v => v
      | none => readColumn d column := by
  rw [readColumn, hfield, fieldAfter]
  cases hlast : changes.reverse.lookup column.name with
  | none => rfl
  | some v =>
    obtain ⟨htype, hscalar⟩ := htypes v hlast
    cases hnull : v.isNull with
    | true =>
      obtain rfl := Value.isNull_iff.1 hnull
      rfl
    | false =>
      simp only [hnull, Bool.false_eq_true, if_false, Option.map_some, Option.getD_some]
      exact (Value.ofStored_toStored htype hnull).trans (Value.reread_of_isScalar hscalar)

/-- The key that is read is the one of the changes read backwards. -/
theorem keyIdentity_readRecord (hkey : l.key = some names)
    (hdeclares : ∀ name ∈ changes.map Prod.fst, l.declares name = true)
    (htypes : ∀ f ∈ changes, f.2.IsScalar ∧
      ∀ column ∈ l.columns, column.name = f.1 → f.2.HasType column.type)
    (hfields : ∀ name ∈ names, e.get? name = fieldAfter changes name (d.get? name)) :
    keyIdentity l.columns names (readRecord l.columns e) = l.identityAfter d changes.reverse := by
  rw [keyIdentity, identityAfter, hkey, Option.getD_some]
  refine congrArg Identity.ofKey (List.map_congr_left fun name hname => ?_)
  rw [valueIn_readRecord]
  have hlast : ∀ v, changes.reverse.lookup name = some v → (name, v) ∈ changes := fun v hv =>
    List.mem_reverse.1 (mem_of_lookup hv)
  cases hcolumn : column? l.columns name with
  | none =>
    cases hv : changes.reverse.lookup name with
    | none => rfl
    | some v =>
      have hdeclared := hdeclares name (List.mem_map_of_mem (hlast v hv))
      rw [column?, List.find?_eq_none] at hcolumn
      obtain ⟨column, hmem, heq⟩ := List.any_eq_true.1 hdeclared
      exact absurd heq (hcolumn column hmem)
  | some column =>
    have hmem := List.mem_of_find?_eq_some hcolumn
    obtain rfl : column.name = name := by simpa using List.find?_some hcolumn
    refine readColumn_after (fun v hv => ?_) (hfields _ hname)
    obtain ⟨hscalar, htype⟩ := htypes _ (hlast v hv)
    exact ⟨htype column hmem rfl, hscalar⟩

end Layout

/-! ## Updates of keys -/

namespace Reconcile

theorem lookup_filter {p : String × Value → Bool} (h : ∀ f ∈ changes, f.1 = name → p f = true) :
    (changes.filter p).lookup name = changes.lookup name := by
  induction changes with
  | nil => rfl
  | cons f changes ih =>
    obtain ⟨n, v⟩ := f
    rw [List.forall_mem_cons] at h
    rw [List.filter_cons, List.lookup_cons]
    by_cases hname : name = n
    · rw [if_pos (h.1 hname.symm), List.lookup_cons]
      simp [hname]
    · rw [beq_eq_false_iff_ne.2 hname, ← ih h.2]
      split
      · rw [List.lookup_cons, beq_eq_false_iff_ne.2 hname]
      · rfl

/-- When the changes assign a key column, every match gets the identity of its changed key. -/
theorem newId_planFor {t : Table} {k : String} (hk : k ∈ t.layout.key.getD [])
    (hassigned : k ∈ changes.map Prod.fst) (d : Document) :
    newId (planFor t [changes]) changes d = t.layout.identityAfter d changes := by
  have hrotating : ∀ name ∈ t.layout.key.getD [], name ∈ changes.map Prod.fst →
      name ∈ (planFor t [changes]).rotating := fun name hname hmem => by
    obtain ⟨f, hf, rfl⟩ := List.mem_map.1 hmem
    simp only [planFor, rotatingKeys, List.mem_filter, List.any_eq_true]
    exact ⟨hname, f, hf, by simp⟩
  rw [newId_of_rotates ⟨k, hrotating k hk hassigned, hassigned⟩, identityAfter, identityAfter]
  refine congrArg Identity.ofKey (List.map_congr_left fun name hname => ?_)
  have hkept : ∀ f ∈ changes, f.1 = name →
      (planFor t [changes]).rotating.contains f.1 = true := fun f hf heq =>
    List.contains_iff_mem.2 (hrotating f.1 (heq ▸ hname) (List.mem_map_of_mem hf))
  rw [lookup_filter hkept]
  rfl

end Reconcile

/-! ## Calls -/

namespace Table

variable {t : Table} {names : List String} {w : World Memory} {c : Contents}
  {assignments : List (String × Expression)} {set : UpdateSet} {bindings params : Bindings}
  {condition : Condition} {text : String} {q : Query.Node}

/-- An update of one pair that assigns a key leaves a row for every match under the identity of the
changes.  Its key has that identity exactly when the changes read backwards give the same one, and
so whenever no key column is assigned twice with different values. -/
theorem keyIdentity_update_iff (hconnected : t.isConnected = true)
    (hkey : t.layout.key = some names) (hdeclared : ∀ name ∈ names, t.layout.declares name = true)
    (hid : t.layout.declares idField = false) (hversion : versionField ∉ names)
    (hopen : w.store.check = .ok ())
    (hcontents : w.store.collections.get? t.collection.name = some c) (hc : Tidy c.documents)
    (hset : t.compileUpdateSet assignments = .ok set)
    (hchanges : set.resolve bindings = .ok changes)
    (htypes : ∀ f ∈ changes, f.2.IsScalar ∧
      ∀ column ∈ t.layout.columns, column.name = f.1 → f.2.HasType column.type)
    (hassigned : ∃ name ∈ names, name ∈ changes.map Prod.fst)
    (hresolve : condition.resolve params = .ok text) (hparse : Query.parse text = .ok q)
    (hfresh : Fresh (planFor t [changes]) q changes c.documents)
    (hd : d ∈ c.documents) (hholds : q.holds d = true)
    (hplain : ∀ name ∈ names, ∀ v ∈ d.get? name, v.unmark? = none) :
    let out := t.update Memory.service condition [params] [changes] w
    let after := out.2.store.documents t.collection.name
    let id := t.layout.identityAfter d changes
    out.1.failed = false ∧ (∃ e ∈ after, e.getText? idField = some id) ∧
      ∀ e ∈ after, e.getText? idField = some id →
        (id = keyIdentity t.layout.columns names (readRecord t.layout.columns e) ↔
          id = t.layout.identityAfter d changes.reverse) ∧
        ((∀ name ∈ names, changes.lookup name = changes.reverse.lookup name) →
          id = keyIdentity t.layout.columns names (readRecord t.layout.columns e)) := by
  intro out after id
  have hdeclares := declares_of_compileUpdateSet hset hchanges
  have hidChanges : idField ∉ changes.map Prod.fst := fun hmem =>
    Bool.false_ne_true (hid.symm.trans (hdeclares idField hmem))
  obtain ⟨k, hk, hkchanges⟩ := hassigned
  have hnonempty : changes ≠ [] := fun hnil => by simp [hnil] at hkchanges
  have hnewId : newId (planFor t [changes]) changes d = id :=
    newId_planFor (by rwa [hkey]) hkchanges d
  have hmem : d ∈ c.select q := List.mem_filter.2 ⟨hd, hholds⟩
  obtain ⟨flushes, log, hupdate⟩ := update_memory hconnected hopen hcontents hresolve hparse
    fun e he => isSome_get? hc.keyed (List.mem_of_mem_filter he)
  have hcontents' : out.2.store.collections.get? t.collection.name =
      some (sendAll t.options.updateBatchSize []
        ((c.select q).map (stage (planFor t [changes]) changes)) c) :=
    (congrArg (·.2.store.collections.get? t.collection.name) hupdate).trans
      (get?_withContents (planFor t [changes]) w _)
  have hafter : after = (sendAll t.options.updateBatchSize []
      ((c.select q).map (stage (planFor t [changes]) changes)) c).documents :=
    documents_of_get? hcontents'
  have hapart := apart_of_fresh hc.keyed hc.names hidChanges hfresh
  obtain ⟨hexists, hrow⟩ :=
    unversioned_of_newId hc hidChanges hapart hmem t.options.updateBatchSize
  rw [hnewId, ← hafter] at hexists hrow
  refine ⟨congrArg (·.1.failed) hupdate, hexists, fun e he heid => ?_⟩
  have hfields : ∀ name ∈ names, e.get? name = fieldAfter changes name (d.get? name) := by
    intro name hname
    have hne : name ≠ versionField := fun heq => hversion (heq ▸ hname)
    have hneId : name ≠ idField := fun heq =>
      Bool.false_ne_true (hid.symm.trans (heq ▸ hdeclared name hname))
    have hsame := congrArg (·.get? name) (hrow e he heid)
    simp only [unversioned, get?_erase, if_neg hne] at hsame
    rw [hsame]
    exact get?_updated _ hnonempty (fun f hf => (htypes f hf).1) (hc.names d hd) hneId hne
      (hplain name hname)
  rw [keyIdentity_readRecord hkey hdeclares htypes hfields]
  refine ⟨Iff.rfl, fun hsame => congrArg Identity.ofKey (List.map_congr_left fun name hname => ?_)⟩
  rw [hkey] at hname
  rw [hsame name hname]

theorem keyIdentity_update_iff_pairTable :
    let w := (pairTable.addAll Memory.service
      [[[.text "a", .text "b"]], [[.text "c", .null]]] (pairWorld [])).2
    let assignments : List (String × Expression) :=
      [("k1", .variable "x"), ("k1", .constant (.text "new"))]
    let bindings : Bindings := .ofList [("x", .text "new")]
    let changes : Changes := [("k1", .text "new"), ("k1", .text "new")]
    let out := pairTable.update Memory.service .all [.empty] [changes] w
    (∃ set, pairTable.compileUpdateSet assignments = .ok set ∧
      set.resolve bindings = .ok changes) ∧
      Fresh (planFor pairTable [changes]) .all changes (w.store.documents "pairs") ∧
      ∀ d ∈ w.store.documents "pairs",
        ∃ e ∈ out.2.store.documents "pairs",
          e.getText? idField = some (pairTable.layout.identityAfter d changes) ∧
          pairTable.layout.identityAfter d changes =
            keyIdentity pairTable.layout.columns ["k1", "k2"]
              (readRecord pairTable.layout.columns e) := by
  intro w assignments bindings changes out
  have hset : pairTable.compileUpdateSet assignments =
      .ok ⟨[("k1", .placeholder "x"), ("k1", .constant (.text "new"))]⟩ := by decide +kernel
  have hchanges : UpdateSet.resolve
      ⟨[("k1", .placeholder "x"), ("k1", .constant (.text "new"))]⟩ bindings = .ok changes := by
    decide +kernel
  have hfresh : Fresh (planFor pairTable [changes]) .all changes (w.store.documents "pairs") := by
    constructor <;> decide +kernel
  have hplain : ∀ d ∈ w.store.documents "pairs", ∀ name ∈ ["k1", "k2"], ∀ v ∈ d.get? name,
      v.unmark? = none := by decide +kernel
  have hempty : HoldsTidy pairTable.collection.name (pairWorld []).store :=
    ⟨rfl, _, get?_setContents _ _ _, ⟨by simp, List.nodup_nil⟩, by simp⟩
  obtain ⟨hopen, c, hcontents, hc⟩ : HoldsTidy pairTable.collection.name w.store :=
    hempty.addAll fun _ _ r _ v hv => by
      rw [storedId?_of_not_declares (by decide +kernel) r] at hv
      cases hv
  have hdocuments : w.store.documents "pairs" = c.documents := documents_of_get? hcontents
  -- What is said of the world is known now, so it need not be computed again.
  clear_value w
  rw [hdocuments] at hfresh hplain ⊢
  refine ⟨⟨_, hset, hchanges⟩, hfresh, fun d hd => ?_⟩
  have hresolve : Condition.all.resolve .empty = .ok "*:*" := rfl
  obtain ⟨-, ⟨e, he, heid⟩, hkey⟩ := keyIdentity_update_iff rfl rfl (by decide +kernel)
    (by decide +kernel) (by decide +kernel) hopen hcontents hc hset hchanges (by decide +kernel)
    ⟨"k1", by simp, by decide⟩ hresolve rfl hfresh hd rfl (hplain d hd)
  exact ⟨e, he, heid, (hkey e he heid).2 (by decide)⟩

/-- Of two values for a key column, the identity is that of the first one and the field has the
second one. -/
theorem not_keyIdentity_update_nobody :
    let w := (peopleTable.add Memory.service [[.text "alice", .int 30, .text "Oslo"]] nobody).2
    let assignments : List (String × Expression) :=
      [("name", .constant (.text "bob")), ("name", .constant (.text "carol"))]
    let changes : Changes := [("name", .text "bob"), ("name", .text "carol")]
    let out := peopleTable.update Memory.service .all [.empty] [changes] w
    (∃ set, peopleTable.compileUpdateSet assignments = .ok set ∧
      set.resolve .empty = .ok changes) ∧
      out.1 = ⟨1, 1, 0, 1, 1, false⟩ ∧
      (out.2.store.documents "people").map (·.getText? idField) =
        [some (Identity.ofKey [.text "bob"])] ∧
      (out.2.store.documents "people").map (readRecord peopleTable.layout.columns) =
        [[.text "carol", .int 30, .text "Oslo"]] ∧
      Identity.ofKey [.text "bob"] ≠ keyIdentity peopleTable.layout.columns ["name"]
        [.text "carol", .int 30, .text "Oslo"] := by
  intro w assignments changes out
  refine ⟨⟨⟨[("name", .constant (.text "bob")), ("name", .constant (.text "carol"))]⟩, ?_, ?_⟩, ?_⟩
  · decide +kernel
  · decide +kernel
  · decide +kernel

end Table

end SearchTable
