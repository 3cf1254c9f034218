import SearchTable.Proofs.Table.Batching
import SearchTable.Proofs.Table.Reachable
/-!
# What an update leaves alone

An update that changes no key patches its matches: it sends the identity and one marker for every
change, and the store sets the marked fields of the document and keeps the others.  So every
document stays under its identity, with all its fields but the changed ones and the version
(`Reconcile.Keeps`).

Whether a write is a patch is seen by its markers alone.  A list of changes that is empty leaves
none, and the store takes the write for a whole document with no other field than the identity.
`update_keeps_iff` gives the exact condition: an update keeps what it does not assign if there are
changes, or if the documents that it reaches have nothing to lose (`Reconcile.IsBare`).
-/

namespace SearchTable

open Memory Document Reconcile

namespace Reconcile

variable {plan : Plan} {changes : Changes} {c c' c'' : Contents} {d : Document} {ds : List Document}
  {assigned : List String} {id : String} {w : World Memory}

/-! ## Kept fields -/

/-- Every document is still there under its identity, and its fields have the values that they had,
the assigned ones and the version apart. -/
def Keeps (assigned : List String) (before after : List Document) : Prop :=
  ∀ d ∈ before, ∃ e ∈ after, e.getText? idField = d.getText? idField ∧
    ∀ name ∉ assigned, name ≠ versionField → e.get? name = d.get? name

/-- A document of nothing but an identity and a version. -/
def IsBare (d : Document) : Prop :=
  ∀ name, name ≠ idField → name ≠ versionField → d.get? name = none

/-- What is found under an identity is still found there, with the fields that are not assigned. -/
def KeepsFound (assigned : List String) (c c' : Contents) : Prop :=
  ∀ id d, c.find id = some d → ∃ e, c'.find id = some e ∧
    ∀ name ∉ assigned, name ≠ versionField → e.get? name = d.get? name

theorem KeepsFound.refl (assigned : List String) (c : Contents) : KeepsFound assigned c c :=
  fun _ d hd => ⟨d, hd, fun _ _ _ => rfl⟩

theorem KeepsFound.trans (h : KeepsFound assigned c c') (h' : KeepsFound assigned c' c'') :
    KeepsFound assigned c c'' := by
  intro id d hd
  obtain ⟨e, he, hfields⟩ := h id d hd
  obtain ⟨e', he', hfields'⟩ := h' id e he
  exact ⟨e', he', fun name hname hversion =>
    (hfields' name hname hversion).trans (hfields name hname hversion)⟩

theorem getText?_of_find (h : c.find id = some d) : d.getText? idField = some id :=
  hasId_eq_true_iff.1 (List.find?_some h)

/-- In keyed collections documents are what is found under their identities. -/
theorem keeps_iff (hc : Keyed c.documents) (hc' : Keyed c'.documents) (hid : idField ∉ assigned) :
    Keeps assigned c.documents c'.documents ↔ KeepsFound assigned c c' := by
  constructor
  · intro h id d hd
    obtain ⟨e, he, hsame, hfields⟩ := h d (List.mem_of_find?_eq_some hd)
    exact ⟨e, hc'.find_eq he (hsame.trans (getText?_of_find hd)), hfields⟩
  · intro h d hd
    obtain ⟨e, he, hfields⟩ := h (oldId d) d (hc.find_eq hd (getText?_eq_oldId hc hd))
    exact ⟨e, List.mem_of_find?_eq_some he, getText?_congr (hfields idField hid (by decide)),
      hfields⟩

/-! ## One patch -/

theorem isPatch_insert_mark (d : Document) (name : String) (v : Stored) :
    isPatch (d.insert name v.mark) = true := by
  have hget : (d.insert name v.mark).get? name = some v.mark := by simp
  obtain ⟨before, after, hfields, -⟩ := List.lookup_eq_some_iff.1 hget
  simp [isPatch, hfields]

/-- With changes a patch has a marker. -/
theorem isPatch_patchDocument_of_ne_nil (h : changes ≠ []) (id : String) :
    isPatch (patchDocument id changes) = true := by
  obtain ⟨init, change, rfl⟩ := (List.eq_nil_or_concat changes).resolve_left h
  rw [List.concat_eq_append, patchDocument, List.foldl_append]
  exact isPatch_insert_mark _ _ _

theorem notMem_fields_patchDocument {name : String} (hname : name ∉ changes.map Prod.fst)
    (hid : name ≠ idField) (id : String) : name ∉ (patchDocument id changes).fields.map Prod.fst := by
  intro hmem
  obtain ⟨f, hf, rfl⟩ := List.mem_map.1 hmem
  rw [patchDocument_eq] at hf
  rcases mem_foldl_insert hf with hf | hf
  · obtain rfl : f = (idField, .text id) := by
      simpa [Document.insert, setField, Document.empty] using hf
    exact hid rfl
  · obtain ⟨change, hchange, rfl⟩ := List.mem_map.1 hf
    exact hname (List.mem_map_of_mem hchange)

theorem get?_withVersion {name : String} (h : name ≠ versionField) (version : Nat) (d : Document) :
    (withVersion version d).get? name = d.get? name := by
  rw [withVersion, get?_insert, if_neg h]

/-- What a write without changes leaves has no other field than the identity. -/
theorem isBare_writtenOver_nil (id : String) (o : Option Document) :
    IsBare (writtenOver (patchDocument id []) o) := by
  intro name hid _
  have hpatch : (patchDocument id []).get? name = none := by
    simp [patchDocument, hid]
  cases o with
  | some d =>
    have hwhole : isPatch (patchDocument id []) = false := rfl
    rwa [writtenOver, hwhole, if_neg Bool.false_ne_true]
  | none =>
    have hnone : name ∉ ([] : Changes).map Prod.fst := List.not_mem_nil
    have hname := notMem_fields_patchDocument hnone hid id
    rw [writtenOver, get?_applyFields_of_notMem hname, get?_empty]

theorem IsBare.withVersion (h : IsBare d) (version : Nat) : IsBare (withVersion version d) :=
  fun name hid hversion => (get?_withVersion hversion version d).trans (h name hid hversion)

/-- A patch keeps what it does not assign, if it has changes or the document has nothing to lose. -/
theorem keepsFound_accept_patchDocument (hid : idField ∉ changes.map Prod.fst)
    (h : changes ≠ [] ∨ ∀ d, c.find id = some d → IsBare d) :
    KeepsFound (changes.map Prod.fst) c (c.accept (patchDocument id changes)) := by
  have haddresses := addresses_patchDocument hid id
  intro other d hd
  rw [find_accept haddresses]
  by_cases hother : other = id
  · subst hother
    refine ⟨_, if_pos rfl, fun name hname hversion => ?_⟩
    rw [hd, get?_withVersion hversion]
    by_cases hnameId : name = idField
    · subst hnameId
      rw [getText?_eq_some_iff.1 (getText?_of_find hd)]
      have hwritten := getText?_written haddresses 0 d
      rw [written, getText?_withVersion] at hwritten
      exact getText?_eq_some_iff.1 hwritten
    · by_cases hnil : changes = []
      · subst hnil
        have hbare := (h.resolve_left (by simp)) d hd
        rw [isBare_writtenOver_nil other (some d) name hnameId hversion,
          hbare name hnameId hversion]
      · rw [writtenOver, if_pos (isPatch_patchDocument_of_ne_nil hnil other)]
        exact get?_applyFields_of_notMem (notMem_fields_patchDocument hname hnameId other) d
  · exact ⟨d, by rw [if_neg hother, hd], fun _ _ _ => rfl⟩

/-- A write without changes leaves bare what it writes, and the rest as it is. -/
theorem isBare_find_accept_nil {other : String}
    (h : other = id ∨ ∀ e, c.find other = some e → IsBare e) :
    ∀ e, (c.accept (patchDocument id [])).find other = some e → IsBare e := by
  intro e he
  rw [find_accept (addresses_patchDocument (by simp) id)] at he
  by_cases hother : other = id
  · rw [if_pos hother, Option.some.injEq] at he
    exact he ▸ (isBare_writtenOver_nil id _).withVersion _
  · rw [if_neg hother] at he
    exact h.resolve_left hother e he

/-! ## All patches -/

/-- The contents after every document of a list has been patched under its identity. -/
def patchAll (changes : Changes) (ds : List Document) (c : Contents) : Contents :=
  (ds.map fun d => patchDocument (oldId d) changes).foldl Contents.accept c

theorem patchAll_cons (d : Document) (ds : List Document) (c : Contents) :
    patchAll changes (d :: ds) c =
      patchAll changes ds (c.accept (patchDocument (oldId d) changes)) := rfl

theorem keyed_patchAll (hid : idField ∉ changes.map Prod.fst) (h : Keyed c.documents)
    (ds : List Document) : Keyed (patchAll changes ds c).documents := by
  induction ds generalizing c with
  | nil => exact h
  | cons d ds ih => exact ih (h.accept (addresses_patchDocument hid _))

theorem keepsFound_patchAll (hid : idField ∉ changes.map Prod.fst)
    (h : changes ≠ [] ∨ ∀ d ∈ ds, ∀ e, c.find (oldId d) = some e → IsBare e) :
    KeepsFound (changes.map Prod.fst) c (patchAll changes ds c) := by
  induction ds generalizing c with
  | nil => exact .refl _ c
  | cons d ds ih =>
    have hfirst : KeepsFound (changes.map Prod.fst) c
        (c.accept (patchDocument (oldId d) changes)) :=
      keepsFound_accept_patchDocument hid (h.imp_right fun hbare => hbare d List.mem_cons_self)
    refine hfirst.trans (ih ?_)
    rcases eq_or_ne changes [] with rfl | hne
    · have hbare := h.resolve_left (by simp)
      exact .inr fun d' hd' =>
        isBare_find_accept_nil (.inr (hbare d' (List.mem_cons_of_mem _ hd')))
    · exact .inl hne

/-- Without changes whatever is patched ends bare. -/
theorem isBare_find_patchAll_nil
    (h : (∃ d ∈ ds, oldId d = id) ∨ ∀ e, c.find id = some e → IsBare e) :
    ∀ e, (patchAll [] ds c).find id = some e → IsBare e := by
  induction ds generalizing c with
  | nil => exact h.resolve_left (by simp)
  | cons d ds ih =>
    rw [patchAll_cons]
    rcases h with ⟨d', hd', hsame⟩ | h
    · rcases List.mem_cons.1 hd' with rfl | hd'
      · exact ih (.inr (isBare_find_accept_nil (.inl hsame.symm)))
      · exact ih (.inl ⟨d', hd', hsame⟩)
    · exact ih (.inr (isBare_find_accept_nil (.inr h)))

/-- Patching documents of a keyed collection keeps the fields that are not assigned exactly when
there are changes or the documents have nothing to lose. -/
theorem keeps_patchAll_iff (hc : Keyed c.documents) (hid : idField ∉ changes.map Prod.fst)
    (hds : ∀ d ∈ ds, d ∈ c.documents) :
    Keeps (changes.map Prod.fst) c.documents (patchAll changes ds c).documents ↔
      changes ≠ [] ∨ ∀ d ∈ ds, IsBare d := by
  have hfind : ∀ d ∈ ds, c.find (oldId d) = some d := fun d hd =>
    hc.find_eq (hds d hd) (getText?_eq_oldId hc (hds d hd))
  rw [keeps_iff hc (keyed_patchAll hid hc ds) hid]
  constructor
  · intro h
    by_contra hlost
    rw [not_or, not_not] at hlost
    obtain ⟨rfl, hlost⟩ := hlost
    refine hlost fun d hd name hname hversion => ?_
    obtain ⟨e, he, hfields⟩ := h (oldId d) d (hfind d hd)
    have hbare : IsBare e := isBare_find_patchAll_nil (.inl ⟨d, hd, rfl⟩) e he
    rw [← hfields name (by simp) hversion]
    exact hbare name hname hversion
  · intro h
    refine keepsFound_patchAll hid (h.imp_right fun hbare d hd e he => ?_)
    rw [hfind d hd, Option.some.injEq] at he
    exact he ▸ hbare d hd

/-! ## One pair -/

/-- When no key can change, every match is staged as a patch. -/
theorem stage_of_rotating_nil (hrotating : plan.rotating = []) (changes : Changes) (d : Document) :
    stage plan changes d = ⟨patchDocument (oldId d) changes, none⟩ := by
  refine stage_of_eq ?_
  simp [newId, hrotating]

/-- Patches delete nothing, so groups of every size leave what the patches leave. -/
theorem sendAll_of_stays {ds : List Document}
    (hstays : ∀ d ∈ ds, newId plan changes d = oldId d) (batch : Nat) (c : Contents) :
    sendAll batch [] (ds.map (stage plan changes)) c = patchAll changes ds c := by
  have hstage : ds.map (stage plan changes) =
      ds.map fun d => ⟨patchDocument (oldId d) changes, none⟩ :=
    List.map_congr_left fun d hd => stage_of_eq (hstays d hd)
  have hindependent : ([] ++ ds.map (stage plan changes)).Pairwise Independent := by
    rw [hstage, List.nil_append, List.pairwise_map]
    exact List.pairwise_of_forall_mem_list fun _ _ _ _ id hid => by simp at hid
  have hdeletions : deletions (ds.map (stage plan changes)) = [] := by
    rw [hstage, deletions, List.filterMap_map]
    exact List.filterMap_eq_nil_iff.2 fun _ _ => rfl
  rw [sendAll_eq_applyGroup batch [] hindependent, List.nil_append, applyGroup, hdeletions,
    discard_nil, hstage, List.map_map]
  rfl

theorem sendAll_of_rotating_nil (hrotating : plan.rotating = []) (changes : Changes)
    (ds : List Document) (batch : Nat) (c : Contents) :
    sendAll batch [] (ds.map (stage plan changes)) c = patchAll changes ds c :=
  sendAll_of_stays (fun d _ => by simp [newId, hrotating]) batch c

theorem reached_sublist (c : Contents) (condition : Condition) (params : Bindings) :
    (reached c condition params).Sublist c.documents := by
  rw [reached]
  cases hcollected : collected c condition params with
  | error e => exact List.nil_sublist _
  | ok ds =>
    obtain ⟨q, rfl⟩ := exists_select_of_collected hcollected
    exact List.filter_sublist

theorem mem_of_mem_reached {condition : Condition} {params : Bindings}
    (h : d ∈ reached c condition params) : d ∈ c.documents :=
  (reached_sublist c condition params).subset h

/-- A pair that adds no record sends what it reaches, and touches nothing else. -/
theorem run_runPair (pair : Pair) (hinsert : pair.insert = none) (r : UpdateReport)
    (hopen : w.store.check = .ok ())
    (hcontents : w.store.collections.get? plan.collection = some c) (hc : Keyed c.documents)
    (condition : Condition) :
    ∃ result r', (runPair Memory.service plan condition pair).run ⟨w, r⟩ =
      (result, ⟨withContents plan w (sendAll plan.updateBatch []
        ((reached c condition pair.params).map (stage plan pair.changes)) c), r'⟩) := by
  rw [reached]
  cases hcollected : collected c condition pair.params with
  | error e =>
    refine ⟨.error e, r, ?_⟩
    rw [List.map_nil, sendAll, applyGroup_nil, withContents_self hcontents]
    exact runPair_memory_error r hopen hcontents hcollected
  | ok ds =>
    obtain ⟨q, rfl⟩ := exists_select_of_collected hcollected
    have hids : ∀ d ∈ c.select q, (d.get? idField).isSome = true := fun d hd =>
      isSome_get? hc (List.mem_of_mem_filter hd)
    obtain ⟨flushes, hrun⟩ := runPair_memory_of_found r hopen hcontents pair hcollected hids
      (.inl hinsert)
    exact ⟨.ok (), _, hrun⟩

/-- A pair that changes no key leaves the collection with every match patched. -/
theorem store_runPair_patch (hrotating : plan.rotating = []) (hopen : w.store.check = .ok ())
    (hcontents : w.store.collections.get? plan.collection = some c) (hc : Keyed c.documents)
    (changes : Changes) (condition : Condition) (params : Bindings) (r : UpdateReport) :
    ((runPair Memory.service plan condition ⟨params, changes, none⟩).run ⟨w, r⟩).2.world.store =
      w.store.setContents plan.collection
        (patchAll changes (reached c condition params) c) := by
  obtain ⟨result, r', hrun⟩ := run_runPair ⟨params, changes, none⟩ rfl r hopen hcontents hc condition
  rw [hrun, sendAll_of_rotating_nil hrotating]
  rfl

end Reconcile

/-! ## Assignments -/

namespace UpdateSet

variable {assignments : List (String × Expression)} {s : UpdateSet} {params : Bindings}
  {changes : Changes}

/-- A list that is mapped under unchanged names keeps its names. -/
theorem map_fst_of_mapM {α β : Type} {f : String → α → Except StoreError β}
    {xs : List (String × α)} {ys : List (String × β)}
    (h : xs.mapM (fun x => do .ok (x.1, ← f x.1 x.2)) = .ok ys) :
    ys.map Prod.fst = xs.map Prod.fst := by
  refine map_eq_of_mapM (fun x _ y hy => ?_) h
  obtain ⟨v, -, hv⟩ := bind_eq_ok_iff.1 hy
  rw [← Except.ok.inj hv]

theorem map_fst_compile (h : UpdateSet.compile assignments = .ok s) :
    s.assignments.map Prod.fst = assignments.map Prod.fst := by
  obtain ⟨compiled, hcompiled, h⟩ := bind_eq_ok_iff.1 h
  rw [← Except.ok.inj h]
  exact map_fst_of_mapM hcompiled

theorem map_fst_resolve (h : s.resolve params = .ok changes) :
    changes.map Prod.fst = s.assignments.map Prod.fst :=
  map_fst_of_mapM (f := fun field (v : AssignedValue) => v.resolve field params) h

end UpdateSet

namespace Table

variable {t : Table} {w : World Memory} {c : Contents} {assignments : List (String × Expression)}
  {s : UpdateSet} {params : Bindings} {changes : Changes}

/-- What a set of a table assigns are declared columns. -/
theorem declares_of_compileUpdateSet (hset : t.compileUpdateSet assignments = .ok s)
    (hresolve : s.resolve params = .ok changes) :
    ∀ name ∈ changes.map Prod.fst, t.layout.declares name = true := by
  intro name hname
  rw [compileUpdateSet] at hset
  split at hset
  · simp at hset
  · rename_i hfind
    rw [UpdateSet.map_fst_resolve hresolve, UpdateSet.map_fst_compile hset] at hname
    obtain ⟨a, ha, rfl⟩ := List.mem_map.1 hname
    simpa using List.find?_eq_none.1 hfind a ha

/-- Changes of other fields than the key's rotate no identity. -/
theorem rotatingKeys_of_notMem {l : Layout} {changes : List Changes}
    (hkey : ∀ k ∈ l.key.getD [], ∀ cs ∈ changes, k ∉ cs.map Prod.fst) :
    rotatingKeys l changes = [] := by
  cases changes with
  | nil => rfl
  | cons first others =>
    refine List.filter_eq_nil_iff.2 fun k hk => ?_
    simp only [List.any_eq_true, beq_iff_eq, not_exists, not_and]
    exact fun f hf hname => hkey k hk first List.mem_cons_self (hname ▸ List.mem_map_of_mem hf)

theorem rotatingKeys_eq_nil (hkey : ∀ k ∈ t.layout.key.getD [], k ∉ changes.map Prod.fst) :
    rotatingKeys t.layout [changes] = [] :=
  rotatingKeys_of_notMem fun k hk => List.forall_mem_singleton.2 (hkey k hk)

/-- The frame of an update: one that assigns no key keeps every document under its identity, with the
fields that it does not assign, exactly when it assigns something or the documents that it reaches
have nothing to lose. -/
theorem update_keeps_iff (hconnected : t.isConnected = true) (hopen : w.store.check = .ok ())
    (hcontents : w.store.collections.get? t.collection.name = some c) (hc : Keyed c.documents)
    (hid : t.layout.declares idField = false) (hset : t.compileUpdateSet assignments = .ok s)
    (hresolve : s.resolve params = .ok changes)
    (hkey : ∀ k ∈ t.layout.key.getD [], k ∉ changes.map Prod.fst)
    (condition : Condition) (bindings : Bindings) :
    Keeps (changes.map Prod.fst) c.documents
        ((t.update Memory.service condition [bindings] [changes] w).2.store.documents
          t.collection.name) ↔
      changes ≠ [] ∨ ∀ d ∈ reached c condition bindings, IsBare d := by
  have hidChanges : idField ∉ changes.map Prod.fst := fun hmem => by
    simp [declares_of_compileUpdateSet hset hresolve idField hmem] at hid
  have hrotating : (planFor t [changes]).rotating = [] := rotatingKeys_eq_nil hkey
  have hpair := store_runPair_patch hrotating hopen
    (show w.store.collections.get? (planFor t [changes]).collection = some c from hcontents) hc
    changes condition bindings .empty
  have hstore : (t.update Memory.service condition [bindings] [changes] w).2.store =
      w.store.setContents t.collection.name
        (patchAll changes (reached c condition bindings) c) := by
    rw [store_update, if_pos hconnected]
    refine Eq.trans ?_ hpair
    exact congrArg (fun step => (step.run ⟨w, .empty⟩).2.world.store)
      (runPairs_singleton Memory.service (planFor t [changes]) condition _)
  have hdocuments : (w.store.setContents t.collection.name
      (patchAll changes (reached c condition bindings) c)).documents t.collection.name =
        (patchAll changes (reached c condition bindings) c).documents := by
    simp [documents, get?_setContents]
  rw [hstore, hdocuments]
  exact keeps_patchAll_iff hc hidChanges fun d hd => mem_of_mem_reached hd

/-- A connected table of people, whose key is the name. -/
def peopleTable : Table :=
  { name := "people"
    layout := ⟨[⟨"name", .string⟩, ⟨"age", .int⟩, ⟨"city", .string⟩], some ["name"]⟩
    options := {}
    collection := ⟨"people", "", 1, 1, "", "", .ofKey none⟩
    connected := true
    schema := some (.ofKey none) }

/-- A collection with one person. -/
def peopleContents : Contents :=
  ⟨true, none, [⟨[("name", .text "alice"), ("age", .int32 30), ("city", .text "Oslo"),
    ("id", .text "1")]⟩], 1⟩

/-- A store with the collection of the table. -/
def peopleWorld : World Memory := ⟨Memory.empty.setContents "people" peopleContents, 0, []⟩

theorem update_keeps_peopleTable :
    let assignments : List (String × Expression) := [("age", .variable "a")]
    let set : UpdateSet := ⟨[("age", .placeholder "a")]⟩
    let params : Bindings := Dictionary.empty.insert "a" (.int 31)
    let changes : Changes := [("age", .int 31)]
    Keyed peopleContents.documents ∧ peopleTable.layout.declares idField = false ∧
      peopleTable.compileUpdateSet assignments = .ok set ∧ set.resolve params = .ok changes ∧
      (∀ k ∈ peopleTable.layout.key.getD [], k ∉ changes.map Prod.fst) ∧
      (Keeps (changes.map Prod.fst) peopleContents.documents
          ((peopleTable.update Memory.service .all [params] [changes] peopleWorld).2.store.documents
            peopleTable.collection.name) ↔
        changes ≠ [] ∨ ∀ d ∈ reached peopleContents .all params, IsBare d) := by
  intro assignments set params changes
  have hkeyed : Keyed peopleContents.documents := ⟨by decide +kernel, by decide +kernel⟩
  have hid : peopleTable.layout.declares idField = false := by decide +kernel
  have hset : peopleTable.compileUpdateSet assignments = .ok set := by decide +kernel
  have hresolve : set.resolve params = .ok changes := by decide +kernel
  have hkey : ∀ k ∈ peopleTable.layout.key.getD [], k ∉ changes.map Prod.fst := by decide +kernel
  exact ⟨hkeyed, hid, hset, hresolve, hkey,
    update_keeps_iff rfl rfl (get?_setContents _ _ _) hkeyed hid hset hresolve hkey .all params⟩

/-- An update that assigns nothing takes every other field from the person that it reaches. -/
theorem not_update_keeps_peopleTable :
    peopleTable.compileUpdateSet [] = .ok ⟨[]⟩ ∧ UpdateSet.resolve ⟨[]⟩ .empty = .ok [] ∧
      ¬ Keeps [] peopleContents.documents
        ((peopleTable.update Memory.service .all [.empty] [[]] peopleWorld).2.store.documents
          "people") := by
  refine ⟨rfl, rfl, fun hkeeps => ?_⟩
  have hafter : (peopleTable.update Memory.service .all [.empty] [[]] peopleWorld).2.store.documents
      "people" = [⟨[("id", .text "1"), ("_version_", .int64 2)]⟩] := by decide +kernel
  obtain ⟨e, he, -, hfields⟩ := hkeeps _ List.mem_cons_self
  rw [hafter, List.mem_singleton] at he
  subst he
  exact absurd (hfields "city" (by simp) (by decide)) (by decide +kernel)

end Table

end SearchTable
