import SearchTable.Proofs.Table.DeclaredIdentity
/-!
# Updates of rows with identities of their own

A table that declares the identity as a column of texts stores every record under the identity that
it comes with.  An update keeps to that as long as it patches, for a patch is written where its
identity stands (`map_oldId_patchAll`).  When it assigns a key, however, every match that it reaches
gets the identity of its changed key, also one that has been stored under another name.

An identity that has been given up so does not come back: whatever is written afterwards has an
identity that is in the collection, or one that is derived from a key (`find_runPairs_eq_none`).
This is why `Table.ids_update_perm_iff` is exact.  Identities that are not derived from keys are all
kept if and only if no pair that assigns a key reaches anything at its turn.
-/

namespace SearchTable

open Memory Document Layout Reconcile

/-- Every identity that is derived from a key contains a dash. -/
theorem Identity.dash_mem_ofKey (values : List Value) : '-' ∈ (ofKey values).toList := by
  simp [ofKey, ofName, layout]

namespace Reconcile

variable {plan : Plan} {changes : Changes} {condition : Condition} {params : Bindings}
  {c : Contents} {d x : Document} {ds : List Document} {id : String}

/-! ## Identities that stay -/

/-- A write that finds its document leaves all identities where they are. -/
theorem map_oldId_accept (hx : Addresses x id) (hfound : (c.find id).isSome = true) :
    (c.accept x).documents.map oldId = c.documents.map oldId := by
  rcases accept_cases hx.get?_eq c with ⟨hnone, -⟩ | ⟨before, e, after, hds, he, hafter⟩
  · obtain ⟨e, he, hhas⟩ := isSome_find_iff.1 hfound
    exact absurd ((hnone e he).symm.trans hhas) Bool.false_ne_true
  · have hwritten : oldId (withVersion (c.accepted + 1) (writtenOver x (some e))) = id :=
      oldId_eq (getText?_written hx _ e)
    have hold : oldId e = id := oldId_eq (hasId_eq_true_iff.1 he)
    rw [hafter, hds, List.map_append, List.map_append, List.map_cons, List.map_cons, hwritten, hold]

theorem map_oldId_patchAll (hid : idField ∉ changes.map Prod.fst)
    (hds : ∀ d ∈ ds, (c.find (oldId d)).isSome = true) :
    (patchAll changes ds c).documents.map oldId = c.documents.map oldId := by
  induction ds generalizing c with
  | nil => rfl
  | cons d ds ih =>
    rw [List.forall_mem_cons] at hds
    have hpatch := addresses_patchDocument hid (oldId d)
    rw [patchAll_cons, ih fun e he => isSome_find_accept hpatch (hds.2 e he),
      map_oldId_accept hpatch hds.1]

/-- When all matches keep their identities, the whole collection does. -/
theorem map_oldId_sendAll (hc : Keyed c.documents) (hid : idField ∉ changes.map Prod.fst)
    (hstays : ∀ d ∈ reached c condition params, newId plan changes d = oldId d) (batch : Nat) :
    (sendAll batch [] ((reached c condition params).map (stage plan changes)) c).documents.map
      oldId = c.documents.map oldId := by
  rw [sendAll_of_stays hstays]
  refine map_oldId_patchAll hid fun d hd => ?_
  rw [found_of_mem_reached hc hd]
  rfl

/-- Matches keep their identities when there are none for changes of a key. -/
theorem forall_newId_eq_oldId (h : Rotates plan changes → ds = []) :
    ∀ d ∈ ds, newId plan changes d = oldId d := by
  intro d hd
  by_cases hrotates : Rotates plan changes
  · rw [h hrotates] at hd
    cases hd
  · exact newId_of_not_rotates hrotates d

/-! ## Identities that are given up -/

/-- An identity that is not there, or that a match has, is not there afterwards when no match gets
it. -/
theorem find_sendAll_eq_none (hc : Tidy c.documents) (hid : idField ∉ changes.map Prod.fst)
    (hds : ds.Sublist c.documents) (hnew : ∀ d ∈ ds, newId plan changes d ≠ id)
    (hgone : c.find id = none ∨ ∃ d ∈ ds, oldId d = id) (batch : Nat) :
    (sendAll batch [] (ds.map (stage plan changes)) c).find id = none := by
  have hnames : ∀ d ∈ ds, d.HasDistinctNames := fun d hd => hc.names d (hds.subset hd)
  have haddressed : ∀ y ∈ [] ++ ds.map (stage plan changes), y.IsAddressed :=
    isAddressed_of_mem_map_stage hnames hid
  have htarget : ∀ y ∈ ds.map (stage plan changes), y.target ≠ id :=
    target_ne_of_mem_map_stage hnames hid hnew
  suffices hfound : found (sendAll batch [] (ds.map (stage plan changes)) c) id = none from
    Option.map_eq_none_iff.1 hfound
  by_cases hdeleted : id ∈ deletions (ds.map (stage plan changes))
  · obtain ⟨y, hy, hdeletion⟩ := List.mem_filterMap.1 hdeleted
    have hnodup : (deletions (ds.map (stage plan changes))).Nodup := by
      rw [deletions_map_stage]
      exact (nodup_map_oldId hc.keyed).sublist ((List.filter_sublist.trans hds).map oldId)
    obtain ⟨before, after, hsplit⟩ := List.append_of_mem hy
    rw [hsplit] at htarget hnodup
    have honce : id ∉ deletions after := by
      rw [deletions_append, deletions, deletions, List.filterMap_cons_some hdeletion] at hnodup
      exact (List.nodup_cons.1 (List.nodup_append.1 hnodup).2.1).1
    rw [found_sendAll_of_deleted batch [] haddressed hsplit hdeletion (htarget y (by simp)) honce
      (.inl fun z hz => htarget z (by simp [hz])) c]
    exact foldl_leaves_of_forall_ne (fun z hz => htarget z (by simp [hz])) none
  · have hnone : c.find id = none := by
      refine hgone.resolve_right ?_
      rintro ⟨d, hd, hold⟩
      exact hdeleted (List.mem_filterMap.2 ⟨_, List.mem_map_of_mem hd,
        deletion_stage.2 ⟨fun hsame => hnew d hd (hsame.trans hold), hold⟩⟩)
    rw [found_sendAll batch [] haddressed hdeleted c, List.nil_append,
      foldl_leaves_of_forall_ne htarget, found, hnone]
    rfl

/-! ## Pairs -/

variable {w : World Memory} {r : UpdateReport} {pairs : List Pair} {pair : Pair} {c' : Contents}

theorem withContents_inj (h : withContents plan w c = withContents plan w c') : c = c' :=
  Option.some.inj <| by rw [← get?_withContents plan w c, h, get?_withContents]

/-- Pairs that do not assign the identity leave a tidy collection. -/
theorem tidy_runPairs (hinsert : ∀ pair ∈ pairs, pair.insert = none)
    (hid : ∀ pair ∈ pairs, idField ∉ pair.changes.map Prod.fst) (hopen : w.store.check = .ok ())
    (hcontents : w.store.collections.get? plan.collection = some c) (hc : Tidy c.documents)
    (condition : Condition) (r : UpdateReport) :
    ∃ result c' r', (runPairs Memory.service plan condition pairs).run ⟨w, r⟩ =
        (result, ⟨withContents plan w c', r'⟩) ∧ Tidy c'.documents :=
  runPairs_contents (P := fun c' => Tidy c'.documents) (fun _ h => h.keyed) hinsert hopen hcontents
    hc fun pair _ hturn h =>
      (noLarger_sendAll_reached h fun hmem => absurd hmem (hid pair hturn.mem)).tidy

/-- When, at the turn of every pair, all matches keep their identities, the collection has the same
identities in the same order afterwards. -/
theorem map_oldId_runPairs (hinsert : ∀ pair ∈ pairs, pair.insert = none)
    (hid : ∀ pair ∈ pairs, idField ∉ pair.changes.map Prod.fst) (hopen : w.store.check = .ok ())
    (hcontents : w.store.collections.get? plan.collection = some c) (hc : Tidy c.documents)
    (hstays : ∀ pair c', AtTurn plan condition ⟨w, r⟩ pairs pair c' →
      ∀ d ∈ reached c' condition pair.params, newId plan pair.changes d = oldId d) :
    ∃ result c' r', (runPairs Memory.service plan condition pairs).run ⟨w, r⟩ =
        (result, ⟨withContents plan w c', r'⟩) ∧
      Tidy c'.documents ∧ c'.documents.map oldId = c.documents.map oldId := by
  refine runPairs_contents
    (P := fun c' => Tidy c'.documents ∧ c'.documents.map oldId = c.documents.map oldId)
    (fun _ h => h.1.keyed) hinsert hopen hcontents ⟨hc, rfl⟩ fun pair c' hturn h => ?_
  have hpair := hid pair hturn.mem
  exact ⟨(noLarger_sendAll_reached h.1 fun hmem => absurd hmem hpair).tidy,
    (map_oldId_sendAll h.1.keyed hpair (hstays pair c' hturn) _).trans h.2⟩

/-- An identity that is not derived from a key does not come back. -/
theorem find_runPairs_eq_none (hinsert : ∀ pair ∈ pairs, pair.insert = none)
    (hid : ∀ pair ∈ pairs, idField ∉ pair.changes.map Prod.fst) (hopen : w.store.check = .ok ())
    (hcontents : w.store.collections.get? plan.collection = some c) (hc : Tidy c.documents)
    (hunderived : ∀ values, Identity.ofKey values ≠ id) (hnone : c.find id = none)
    (condition : Condition) (r : UpdateReport) :
    ∃ result c' r', (runPairs Memory.service plan condition pairs).run ⟨w, r⟩ =
        (result, ⟨withContents plan w c', r'⟩) ∧ Tidy c'.documents ∧ c'.find id = none := by
  refine runPairs_contents (P := fun c' => Tidy c'.documents ∧ c'.find id = none)
    (fun _ h => h.1.keyed) hinsert hopen hcontents ⟨hc, hnone⟩ fun pair c' hturn h => ?_
  have hpair := hid pair hturn.mem
  refine ⟨(noLarger_sendAll_reached h.1 fun hmem => absurd hmem hpair).tidy,
    find_sendAll_eq_none h.1 hpair (reached_sublist ..) (fun d hd => ?_) (.inl h.2) _⟩
  by_cases hrotates : Rotates plan pair.changes
  · rw [newId_of_rotates hrotates]
    exact hunderived _
  · rw [newId_of_not_rotates hrotates]
    rintro rfl
    rw [found_of_mem_reached h.1.keyed hd] at h
    cases h.2

/-- What the first pair reaches gives up an identity that is not derived from a key, for good, when
that pair assigns a key. -/
theorem find_runPairs_cons_eq_none {first : Pair}
    (hinsert : ∀ pair ∈ first :: pairs, pair.insert = none)
    (hid : ∀ pair ∈ first :: pairs, idField ∉ pair.changes.map Prod.fst)
    (hopen : w.store.check = .ok ())
    (hcontents : w.store.collections.get? plan.collection = some c) (hc : Tidy c.documents)
    (hrotates : Rotates plan first.changes) (hd : d ∈ reached c condition first.params)
    (hunderived : ∀ values, Identity.ofKey values ≠ oldId d) (r : UpdateReport) :
    ∃ result c' r', (runPairs Memory.service plan condition (first :: pairs)).run ⟨w, r⟩ =
        (result, ⟨withContents plan w c', r'⟩) ∧ Tidy c'.documents ∧
      c'.find (oldId d) = none := by
  rw [List.forall_mem_cons] at hinsert hid
  obtain ⟨result, r₁, hrun⟩ := run_runPair first hinsert.1 r hopen hcontents hc.keyed condition
  have hspares : first.Spares plan condition c := fun hmem => absurd hmem hid.1
  have htidy := (noLarger_sendAll_reached hc hspares).tidy
  have hnone : (sendAll plan.updateBatch []
      ((reached c condition first.params).map (stage plan first.changes)) c).find (oldId d) =
        none := by
    refine find_sendAll_eq_none hc hid.1 (reached_sublist ..) (fun e he => ?_)
      (.inr ⟨d, hd, rfl⟩) _
    rw [newId_of_rotates hrotates]
    exact hunderived _
  exact exists_runPairs_cons (P := fun c' => Tidy c'.documents ∧ c'.find (oldId d) = none) hrun
    ⟨htidy, hnone⟩ fun _ => find_runPairs_eq_none (w := withContents plan w _) hinsert.2 hid.2 hopen
      (get?_withContents plan w _) htidy hunderived hnone condition r₁

theorem isSome_find_of_mem_map_oldId (hc : Keyed c.documents) (h : id ∈ c.documents.map oldId) :
    (c.find id).isSome = true := by
  obtain ⟨d, hd, rfl⟩ := List.mem_map.1 h
  rw [hc.find_eq hd (getText?_eq_oldId hc hd)]
  rfl

/-- When no identity is derived from a key and all of them are there afterwards, pairs that assign a
key reach nothing at their turns. -/
theorem reached_eq_nil_of_perm (hinsert : ∀ pair ∈ pairs, pair.insert = none)
    (hid : ∀ pair ∈ pairs, idField ∉ pair.changes.map Prod.fst) (hopen : w.store.check = .ok ())
    (hcontents : w.store.collections.get? plan.collection = some c) (hc : Tidy c.documents)
    (hunderived : ∀ values, Identity.ofKey values ∉ c.documents.map oldId)
    (hperm : ∀ result c' r', (runPairs Memory.service plan condition pairs).run ⟨w, r⟩ =
      (result, ⟨withContents plan w c', r'⟩) →
        (c'.documents.map oldId).Perm (c.documents.map oldId))
    (hturn : AtTurn plan condition ⟨w, r⟩ pairs pair c') (hrotates : Rotates plan pair.changes) :
    reached c' condition pair.params = [] := by
  induction pairs generalizing w r c with
  | nil => cases hturn.mem
  | cons first pairs ih =>
    -- The first pair gives no identity up, since that would not come back.
    have hfirst : Rotates plan first.changes → reached c condition first.params = [] := by
      intro hfirst
      refine List.eq_nil_iff_forall_not_mem.2 fun d hd => ?_
      have hmem : oldId d ∈ c.documents.map oldId := List.mem_map_of_mem (mem_of_mem_reached hd)
      obtain ⟨result, c', r', hlast, htidy, hgone⟩ := find_runPairs_cons_eq_none hinsert hid hopen
        hcontents hc hfirst hd (fun values heq => hunderived values (heq ▸ hmem)) r
      have hback := isSome_find_of_mem_map_oldId htidy.keyed ((hperm _ _ _ hlast).mem_iff.2 hmem)
      rw [hgone] at hback
      cases hback
    rw [List.forall_mem_cons] at hinsert hid
    obtain ⟨result, r₁, hrun⟩ := run_runPair first hinsert.1 r hopen hcontents hc.keyed condition
    have hspares : first.Spares plan condition c := fun hmem => absurd hmem hid.1
    have hsame := map_oldId_sendAll hc.keyed hid.1 (forall_newId_eq_oldId hfirst) plan.updateBatch
    rcases hturn.head_or_tail with ⟨rfl, hcontents'⟩ | ⟨p', hrun', hturn'⟩
    · obtain rfl := Option.some.inj (hcontents.symm.trans hcontents')
      exact hfirst hrotates
    · rw [hrun] at hrun'
      obtain ⟨rfl, rfl⟩ := Prod.mk.inj hrun'
      refine ih (w := withContents plan w _) hinsert.2 hid.2 hopen (get?_withContents plan w _)
        (noLarger_sendAll_reached hc hspares).tidy (hsame ▸ hunderived)
        (fun result c' r' hrest => ?_) hturn'
      rw [withContents_withContents] at hrest
      rw [hsame]
      exact hperm result c' r' (by rw [runPairs, run_bind hrun, hrest])

end Reconcile

/-! ## Calls -/

namespace Table

variable {t : Table} {condition : Condition} {sets : List Bindings} {changes : List Changes}
  {pairs : List Pair} {w : World Memory} {c : Contents}

/-- The identities that the records of a search without a condition show. -/
def ShowsIds (t : Table) (w : World Memory) (ids : List Value) : Prop :=
  ∃ cursor records, t.find .empty .all w = (.ok cursor, w) ∧
    cursor.Yields Memory.service w records ∧
    records.map (valueIn t.layout.columns · idField) = ids

theorem showsIds (hconnected : t.isConnected = true)
    (hcolumn : column? t.layout.columns idField = some ⟨idField, .string⟩)
    (hopen : w.store.check = .ok ())
    (hcontents : w.store.collections.get? t.collection.name = some c) (hc : Keyed c.documents) :
    t.ShowsIds w ((c.documents.map oldId).map .text) := by
  obtain ⟨cursor, hfind, hyields⟩ := yields_find hconnected hopen hcontents
    (show Condition.all.isEmpty = true from rfl) .empty
  refine ⟨cursor, _, hfind, hyields, ?_⟩
  rw [List.map_map, List.map_map]
  refine List.map_congr_left fun d hd => ?_
  rw [Function.comp_apply, Function.comp_apply, valueIn_readRecord, hcolumn, Option.map_some,
    Option.getD_some, readColumn, getText?_eq_some_iff.1 (getText?_eq_oldId hc hd)]
  rfl

theorem ShowsIds.unique {ids ids' : List Value} (h : t.ShowsIds w ids) (h' : t.ShowsIds w ids') :
    ids = ids' := by
  obtain ⟨cursor, records, hfind, hyields, rfl⟩ := h
  obtain ⟨cursor', records', hfind', hyields', rfl⟩ := h'
  rw [hfind] at hfind'
  cases hfind'
  rw [hyields.unique hyields']

/-- An update shows the identities that there were, in the same order, when all matches keep theirs
at the turns of their pairs.  Of identities that are not derived from keys it shows all, in any
order, exactly when the pairs that assign a key reach nothing at their turns. -/
theorem ids_update_perm_iff (hconnected : t.isConnected = true)
    (hcolumn : column? t.layout.columns idField = some ⟨idField, .string⟩)
    (hopen : w.store.check = .ok ())
    (hcontents : w.store.collections.get? t.collection.name = some c) (hc : Tidy c.documents)
    (hpairs : makePairs sets changes none = .ok pairs)
    (hid : ∀ cs ∈ changes, idField ∉ cs.map Prod.fst) (condition : Condition) {ids : List Value}
    (hids : t.ShowsIds w ids) :
    let plan := planFor t changes
    let w' := (t.update Memory.service condition sets changes w).2
    ∃ ids', t.ShowsIds w' ids' ∧
      ((∀ pair c', AtTurn plan condition ⟨w, .empty⟩ pairs pair c' →
          ∀ d ∈ reached c' condition pair.params, newId plan pair.changes d = oldId d) →
        ids' = ids) ∧
      ((∀ values, Value.text (Identity.ofKey values) ∉ ids) →
        (ids'.Perm ids ↔ ∀ pair c', AtTurn plan condition ⟨w, .empty⟩ pairs pair c' →
          Rotates plan pair.changes → reached c' condition pair.params = [])) := by
  intro plan w'
  obtain rfl := hids.unique (showsIds hconnected hcolumn hopen hcontents hc.keyed)
  have hinsert := insert_of_makePairs hpairs
  have hidPairs : ∀ pair ∈ pairs, idField ∉ pair.changes.map Prod.fst := fun pair hpair =>
    hid _ (mem_of_makePairs hpairs hpair).1
  obtain ⟨result, c', r', hrun, hc'⟩ : ∃ result c' r',
      (runPairs Memory.service plan condition pairs).run ⟨w, .empty⟩ =
        (result, ⟨withContents plan w c', r'⟩) ∧ Tidy c'.documents :=
    tidy_runPairs hinsert hidPairs hopen hcontents hc condition .empty
  obtain ⟨log, hupdate⟩ := reconcile_of_runPairs "update" hconnected hpairs hrun
  have hstore : w'.store = (withContents plan w c').store := congrArg (·.2.store) hupdate
  have hcontents' : w'.store.collections.get? t.collection.name = some c' := by
    rw [hstore]
    exact get?_withContents plan w c'
  have hopen' : w'.store.check = .ok () := by
    rw [hstore]
    exact hopen
  have hkeeps : (∀ pair c', AtTurn plan condition ⟨w, .empty⟩ pairs pair c' →
      ∀ d ∈ reached c' condition pair.params, newId plan pair.changes d = oldId d) →
        c'.documents.map oldId = c.documents.map oldId := fun hstays => by
    obtain ⟨result₂, c₂, r₂, hrun₂, -, hsame⟩ :=
      map_oldId_runPairs hinsert hidPairs hopen hcontents hc hstays
    have hworlds := congrArg (·.2.world) (hrun.symm.trans hrun₂)
    rwa [withContents_inj hworlds]
  refine ⟨_, showsIds hconnected hcolumn hopen' hcontents' hc'.keyed, fun hstays => ?_,
    fun hunderived => ⟨fun hperm pair c'' hturn hrotates => ?_, fun hnothing => ?_⟩⟩
  · rw [hkeeps hstays]
  · refine reached_eq_nil_of_perm hinsert hidPairs hopen hcontents hc (fun values hmem => ?_)
      (fun result₂ c₂ r₂ hrun₂ => ?_) hturn hrotates
    · exact hunderived values (List.mem_map_of_mem hmem)
    · have hworlds := congrArg (·.2.world) (hrun.symm.trans hrun₂)
      rw [← withContents_inj hworlds]
      exact (List.map_perm_map_iff fun _ _ h => Value.text.inj h).1 hperm
  · rw [hkeeps fun pair c'' hturn => forall_newId_eq_oldId (hnothing pair c'' hturn)]

/-- A connected table whose rows have identities of their own, beside a key. -/
def filedTable : Table :=
  { name := "files"
    layout := ⟨[⟨"id", .string⟩, ⟨"name", .string⟩, ⟨"city", .string⟩], some ["name"]⟩
    options := {}
    collection := ⟨"files", "", 1, 1, "", "", .ofKey none⟩
    connected := true
    schema := some (.ofKey none) }

/-- A store with the collection of the table, without any records. -/
def noFiles : World Memory := ⟨Memory.empty.setContents "files" ⟨true, none, [], 0⟩, 0, []⟩

theorem ids_update_perm_iff_noFiles :
    let w := (filedTable.addAll Memory.service
      [[[.text "row1", .text "alice", .null]], [[.text "row2", .text "bob", .text "Oslo"]]]
      noFiles).2
    let w' := (filedTable.update Memory.service .all [.empty] [[("city", .text "Rome")]] w).2
    ∃ ids ids', filedTable.ShowsIds w ids ∧ ids = [.text "row1", .text "row2"] ∧
      filedTable.ShowsIds w' ids' ∧ ids'.Perm ids := by
  intro w w'
  have hempty : HoldsTidy filedTable.collection.name noFiles.store :=
    ⟨rfl, _, get?_setContents _ _ _, ⟨by simp, List.nodup_nil⟩, by simp⟩
  obtain ⟨hopen, c, hcontents, hc⟩ : HoldsTidy filedTable.collection.name w.store :=
    hempty.addAll (by decide +kernel)
  have hdocuments : (w.store.documents "files").map oldId = ["row1", "row2"] := by decide +kernel
  have hstored : w.store.documents "files" = c.documents := documents_of_get? hcontents
  have hids : filedTable.ShowsIds w [.text "row1", .text "row2"] := by
    have hshown := showsIds (t := filedTable) rfl rfl hopen hcontents hc.keyed
    rwa [← hstored, hdocuments] at hshown
  have hunderived : ∀ values,
      Value.text (Identity.ofKey values) ∉ [Value.text "row1", .text "row2"] := by
    intro values hmem
    have hdash := Identity.dash_mem_ofKey values
    rcases List.mem_pair.1 hmem with h | h
    · rw [Value.text.inj h] at hdash
      exact absurd hdash (by decide)
    · rw [Value.text.inj h] at hdash
      exact absurd hdash (by decide)
  obtain ⟨ids', hids', -, hperm⟩ := ids_update_perm_iff (t := filedTable) rfl rfl hopen hcontents hc
    (show makePairs [.empty] [[("city", .text "Rome")]] none =
      .ok [⟨.empty, [("city", .text "Rome")], none⟩] from rfl) (by decide +kernel) .all hids
  refine ⟨_, ids', hids, rfl, hids', (hperm hunderived).2 fun pair c' _ hrotates => ?_⟩
  obtain ⟨k, hk, -⟩ := hrotates
  cases hk

/-- Assigning a key, even the value that is there, takes the identity from a row. -/
theorem not_ids_update_perm_noFiles :
    let w := (filedTable.add Memory.service [[.text "row1", .text "alice", .null]] noFiles).2
    let changes : Changes := [("name", .text "alice")]
    let out := filedTable.update Memory.service .all [.empty] [changes] w
    (∃ set, filedTable.compileUpdateSet [("name", .constant (.text "alice"))] = .ok set ∧
      set.resolve .empty = .ok changes) ∧
      out.1.failed = false ∧ filedTable.ShowsIds w [.text "row1"] ∧
      filedTable.ShowsIds out.2 [.text (Identity.ofKey [.text "alice"])] ∧
      ¬ [Value.text (Identity.ofKey [.text "alice"])].Perm [.text "row1"] := by
  intro w changes out
  have hbefore : w.store.collections.get? filedTable.collection.name = some ⟨true, none,
      [⟨[("id", .text "row1"), ("name", .text "alice"), ("_version_", .int64 1)]⟩], 1⟩ := by
    decide +kernel
  have hafter : out.2.store.collections.get? filedTable.collection.name = some ⟨true, none,
      [⟨[("id", .text (Identity.ofKey [.text "alice"])), ("name", .text "alice"),
        ("_version_", .int64 2)]⟩], 2⟩ := by
    decide +kernel
  have hshownBefore := showsIds rfl rfl (show w.store.check = .ok () by decide +kernel) hbefore
    ⟨by decide +kernel, by decide +kernel⟩
  have hshownAfter := showsIds rfl rfl (show out.2.store.check = .ok () by decide +kernel) hafter
    ⟨by decide +kernel, by decide +kernel⟩
  refine ⟨⟨⟨[("name", .constant (.text "alice"))]⟩, by decide +kernel, by decide +kernel⟩,
    by decide +kernel, hshownBefore, hshownAfter, fun hperm => ?_⟩
  have hdash := Identity.dash_mem_ofKey [.text "alice"]
  rw [Value.text.inj (List.singleton_perm_singleton.1 hperm)] at hdash
  exact absurd hdash (by decide)

end Table

end SearchTable
