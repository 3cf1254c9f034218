import SearchTable.Proofs.Failure
import SearchTable.Proofs.Store.Writes
import SearchTable.Table.Reconcile
/-!
# Updates over the store in memory

What carrying out one pair of an update does to the collection of its table, without the store
around it.  A match is *staged* as one write and, when its identity changes, one deletion.  A group
of staged matches first deletes, then writes (`applyGroup`); `sendAll` sends a list of them in
groups of bounded size, as carrying out a pair does.

`runPair_memory` says that carrying out a pair over a store in memory that is in reach is
`sendAll` on its collection, and what is reported.
-/

namespace SearchTable.Reconcile

open Memory

/-! ## Staged matches -/

/-- The write for one match, and the identity that it gives up. -/
structure Staged where
  write : Document
  deletion : Option String

/-- The identity of a match, as text. -/
def oldId (d : Document) : String := ((d.get? idField).map Stored.plain).getD ""

/-- The identity of a match after the changes. -/
def newId (plan : Plan) (changes : Changes) (d : Document) : String :=
  let keyChanges := changes.filter fun c => plan.rotating.contains c.1
  if keyChanges.isEmpty then oldId d else plan.layout.identityAfter d keyChanges

/-- A match as it is staged: a patch, or a rebuilt document and a deletion when the identity
changes. -/
def stage (plan : Plan) (changes : Changes) (d : Document) : Staged :=
  if newId plan changes d = oldId d then ⟨patchDocument (oldId d) changes, none⟩
  else ⟨rebuiltDocument d (newId plan changes d) changes, some (oldId d)⟩

/-- The identities that a list of staged matches gives up. -/
def deletions (xs : List Staged) : List String := xs.filterMap Staged.deletion

/-- A list of staged matches as it waits for the next group. -/
def pendingOf (xs : List Staged) : Pending := ⟨deletions xs, xs.map Staged.write, xs.length, 0⟩

variable {plan : Plan} {changes : Changes} {d : Document} {xs : List Staged}

theorem deletions_append (xs ys : List Staged) :
    deletions (xs ++ ys) = deletions xs ++ deletions ys :=
  List.filterMap_append

theorem documentId_eq (h : (d.get? idField).isSome = true) : documentId d = .ok (oldId d) := by
  obtain ⟨v, hv⟩ := Option.isSome_iff_exists.1 h
  simp [documentId, oldId, hv]

/-- Staging a match adds it to those that wait. -/
theorem stageMatch_eq (h : (d.get? idField).isSome = true) (xs : List Staged) :
    stageMatch plan changes (pendingOf xs) d = .ok (pendingOf (xs ++ [stage plan changes d])) := by
  simp only [stageMatch, documentId_eq h, bind, Except.bind]
  show (if newId plan changes d = oldId d then _ else _) = _
  by_cases hsame : newId plan changes d = oldId d
  · rw [if_pos hsame, stage, if_pos hsame]
    simp [pendingOf, Pending.addPatch, deletions]
  · rw [if_neg hsame, stage, if_neg hsame]
    simp only [pendingOf, Pending.addRebuilt, deletions, List.filterMap_append, List.map_append,
      List.length_append]
    rfl

theorem isSome_foldl_insert {name : String} (changes : Changes) {d : Document}
    (h : (d.get? name).isSome = true) :
    ((changes.foldl (fun d (name, v) => d.insert name v.toStored.mark) d).get? name).isSome =
      true := by
  induction changes generalizing d with
  | nil => exact h
  | cons change changes ih =>
    refine ih ?_
    rw [Document.get?_insert]
    split
    · rfl
    · exact h

/-- Whatever is staged has an identity to be written under. -/
theorem isSome_stage (plan : Plan) (changes : Changes) (d : Document) :
    ((stage plan changes d).write.get? idField).isSome = true := by
  rw [stage]
  split
  · exact isSome_foldl_insert changes (by simp)
  · simp [rebuiltDocument]

/-! ## Groups -/

/-- The contents after a group: deletions first, then writes. -/
def applyGroup (c : Contents) (xs : List Staged) : Contents :=
  (xs.map Staged.write).foldl Contents.accept (c.discard (deletions xs))

/-- The contents after staged matches have been sent; a group is sent as soon as it is full, and the
rest at the end. -/
def sendAll (batch : Nat) : (waiting : List Staged) → List Staged → Contents → Contents
  | waiting, [], c => applyGroup c waiting
  | waiting, x :: xs, c =>
    if batch ≤ waiting.length + 1 then sendAll batch [] xs (applyGroup c (waiting ++ [x]))
    else sendAll batch (waiting ++ [x]) xs c

theorem applyGroup_nil (c : Contents) : applyGroup c [] = c := discard_nil c

/-- The report with the matches of a list written and their identities deleted, and with the given
number of groups. -/
def reportOf (r : UpdateReport) (xs : List Staged) (flushes : Nat) : UpdateReport :=
  { r with
    patched := r.patched + xs.length
    deleted := r.deleted + (deletions xs).length
    flushes := flushes }

theorem reportOf_reportOf (r : UpdateReport) (xs ys : List Staged) (m n : Nat) :
    reportOf (reportOf r xs m) ys n = reportOf r (xs ++ ys) n := by
  simp [reportOf, deletions_append, Nat.add_assoc]

/-! ## Steps -/

section Steps

variable {σ α β : Type}

/-- A step that succeeds hands its result and its progress on. -/
theorem run_bind {x : Step σ α} {p p' : Progress σ} {a : α} (h : x.run p = (.ok a, p'))
    (f : α → Step σ β) : (x >>= f).run p = (f a).run p' := by
  simp only [ExceptT.run, bind, ExceptT.bind, ExceptT.mk, StateT.bind, ExceptT.bindCont] at h ⊢
  rw [h]

/-- A step that fails is the last one. -/
theorem run_bind_error {x : Step σ α} {p p' : Progress σ} {e : StoreError}
    (h : x.run p = (.error e, p')) (f : α → Step σ β) : (x >>= f).run p = (.error e, p') := by
  simp only [ExceptT.run, bind, ExceptT.bind, ExceptT.mk, StateT.bind, ExceptT.bindCont] at h ⊢
  rw [h]
  rfl

theorem run_act {x : Act σ (Except StoreError α)} {w w' : World σ} {result : Except StoreError α}
    (h : x w = (result, w')) (r : UpdateReport) : (act x).run ⟨w, r⟩ = (result, ⟨w', r⟩) := by
  unfold act
  simp only [ExceptT.run, ExceptT.mk, h]

theorem run_count (f : UpdateReport → UpdateReport) (w : World σ) (r : UpdateReport) :
    (count f).run ⟨w, r⟩ = (.ok (), ⟨w, f r⟩) := rfl

/-- When the document of a record can be built, only the supply of identities changes. -/
theorem run_buildInsert {record : Record} {p : Progress σ} {supply : Nat}
    (h : plan.layout.build p.world.supply record = .ok (d, supply)) :
    (act (buildInsert plan record)).run p =
      (.ok d, ⟨{ p.world with supply := supply }, p.report⟩) := by
  have hbuilt : buildInsert plan record p.world = (.ok d, { p.world with supply := supply }) := by
    simp only [buildInsert, bind, StateT.bind, get, getThe, MonadStateOf.get, StateT.get, pure, h]
    rfl
  exact run_act hbuilt p.report

/-- A list of one pair is carried out as the pair is. -/
theorem runPairs_singleton (service : Service σ) (plan : Plan) (condition : Condition)
    (pair : Pair) : runPairs service plan condition [pair] = runPair service plan condition pair := by
  rw [runPairs, runPairs, bind_pure_unit]

section Staging

variable (service : Service σ) (ds : List Document) (xs : List Staged) (f : Pending → Step σ α)
  (p : Progress σ)

/-- A match with an identity joins those that wait, and they are sent when they make up a batch. -/
theorem run_stageMatches_cons (h : (d.get? idField).isSome = true) :
    (stageMatches service plan changes (d :: ds) (pendingOf xs) >>= f).run p =
      if plan.updateBatch ≤ xs.length + 1 then
        (flush service plan (pendingOf (xs ++ [stage plan changes d])) >>= fun _ =>
          stageMatches service plan changes ds (pendingOf []) >>= f).run p
      else
        (stageMatches service plan changes ds (pendingOf (xs ++ [stage plan changes d])) >>= f).run
          p := by
  have hlength : (pendingOf (xs ++ [stage plan changes d])).documents.length = xs.length + 1 := by
    simp [pendingOf]
  have hstage : (stageMatches.liftExcept (stageMatch plan changes (pendingOf xs) d) :
      Step σ Pending).run p = (.ok (pendingOf (xs ++ [stage plan changes d])), p) := by
    rw [stageMatch_eq h]
    rfl
  rw [stageMatches, bind_assoc, run_bind hstage, hlength]
  by_cases hfull : plan.updateBatch ≤ xs.length + 1
  · rw [if_pos hfull, if_pos hfull, bind_assoc]
    rfl
  · rw [if_neg hfull, if_neg hfull]

/-- A match without an identity ends the staging. -/
theorem run_stageMatches_cons_error (h : (d.get? idField).isSome = false) :
    ∃ e, (stageMatches service plan changes (d :: ds) (pendingOf xs) >>= f).run p =
      (.error e, p) := by
  have hnone : d.get? idField = none := by simpa using h
  have hstage : (stageMatches.liftExcept (stageMatch plan changes (pendingOf xs) d) :
      Step σ Pending).run p = (.error (.table .missingId), p) := by
    simp only [stageMatch, documentId, hnone, bind, Except.bind]
    rfl
  refine ⟨.table .missingId, ?_⟩
  rw [stageMatches, bind_assoc, run_bind_error hstage]

end Staging

end Steps

/-! ## Over the store in memory -/

/-- The documents that satisfy a condition for the given values. -/
def collected (c : Contents) (condition : Condition) (params : Bindings) :
    Except StoreError (List Document) := do
  let text ← condition.resolve params
  let q ← Query.parse text
  .ok (c.select q)

theorem collected_eq_ok {c : Contents} {condition : Condition} {params : Bindings} {text : String}
    {q : Query.Node} (hresolve : condition.resolve params = .ok text)
    (hparse : Query.parse text = .ok q) : collected c condition params = .ok (c.select q) := by
  simp only [collected, hresolve, hparse, bind, Except.bind]

/-- The documents that an update reaches: those that match its condition, and none when the
condition cannot be resolved or read. -/
def reached (c : Contents) (condition : Condition) (params : Bindings) : List Document :=
  match collected c condition params with
  | .ok ds => ds
  | .error _ => []

theorem exists_select_of_collected {c : Contents} {condition : Condition} {params : Bindings}
    {ds : List Document} (h : collected c condition params = .ok ds) : ∃ q, ds = c.select q := by
  obtain ⟨text, -, h⟩ := bind_eq_ok_iff.1 h
  obtain ⟨q, -, h⟩ := bind_eq_ok_iff.1 h
  exact ⟨q, (Except.ok.inj h).symm⟩

section Memory

variable {w : World Memory} {c : Contents}

/-- The world with other contents in the collection of the plan. -/
def withContents (plan : Plan) (w : World Memory) (c : Contents) : World Memory :=
  { w with store := w.store.setContents plan.collection c }

theorem withContents_withContents (plan : Plan) (w : World Memory) (c c' : Contents) :
    withContents plan (withContents plan w c) c' = withContents plan w c' := by
  simp only [withContents, setContents_setContents]

theorem get?_withContents (plan : Plan) (w : World Memory) (c : Contents) :
    (withContents plan w c).store.collections.get? plan.collection = some c :=
  get?_setContents w.store plan.collection c

theorem withContents_self (hcontents : w.store.collections.get? plan.collection = some c) :
    withContents plan w c = w := by
  rw [withContents, setContents_self hcontents]

variable (r : UpdateReport) (hopen : w.store.check = .ok ())
  (hcontents : w.store.collections.get? plan.collection = some c)

include hopen hcontents

theorem sendDeletions_memory (ids : List String) :
    (sendDeletions Memory.service plan ids).run ⟨w, r⟩ =
      (.ok (), ⟨withContents plan w (c.discard ids),
        { r with deleted := r.deleted + ids.length }⟩) := by
  cases ids with
  | nil =>
    rw [discard_nil, withContents_self hcontents]
    rfl
  | cons id ids =>
    have hask : Act.ask Memory.service (.delete plan.collection (.ids (id :: ids)) plan.commitAsync)
        w = (.ok (), withContents plan w (c.discard (id :: ids))) := by
      simp only [Act.ask, Memory.service, answer, delete_eq hopen hcontents]
      rfl
    exact run_bind (run_act hask r) _

theorem sendDocuments_memory {ds : List Document}
    (hids : ∀ d ∈ ds, (d.get? idField).isSome = true) :
    (sendDocuments Memory.service plan ds).run ⟨w, r⟩ =
      (.ok (), ⟨withContents plan w (ds.foldl Contents.accept c), r⟩) := by
  cases ds with
  | nil =>
    rw [List.foldl_nil, withContents_self hcontents]
    rfl
  | cons d ds =>
    have hask : Act.ask Memory.service (.write plan.collection (d :: ds) plan.commitAsync) w =
        (.ok (), withContents plan w ((d :: ds).foldl Contents.accept c)) := by
      simp only [Act.ask, Memory.service, answer, write_eq hopen hcontents hids]
      rfl
    exact run_act hask r

/-- What waits is sent as a group. -/
theorem flush_memory (hids : ∀ x ∈ xs, (x.write.get? idField).isSome = true) :
    ∃ flushes, (flush Memory.service plan (pendingOf xs)).run ⟨w, r⟩ =
      (.ok (), ⟨withContents plan w (applyGroup c xs), reportOf r xs flushes⟩) := by
  cases xs with
  | nil =>
    refine ⟨r.flushes, ?_⟩
    rw [applyGroup_nil, withContents_self hcontents]
    rfl
  | cons x xs =>
    have hids' : ∀ d ∈ (x :: xs).map Staged.write, (d.get? idField).isSome = true := by
      simpa using hids
    have hdelete := sendDeletions_memory r hopen hcontents (deletions (x :: xs))
    have hwrite := sendDocuments_memory
      { r with deleted := r.deleted + (deletions (x :: xs)).length }
      (w := withContents plan w (c.discard (deletions (x :: xs)))) hopen
      (get?_withContents plan w _) hids'
    rw [withContents_withContents] at hwrite
    refine ⟨r.flushes + 1, ?_⟩
    have hne : (!(pendingOf (x :: xs)).isEmpty) = true := by simp [pendingOf, Pending.isEmpty]
    rw [flush, if_pos hne, pendingOf, run_bind hdelete, run_bind hwrite, run_count]
    rfl

/-- Staged matches that are sent in groups leave what `sendAll` says. -/
theorem stageMatches_memory (changes : Changes) {ds : List Document}
    (hds : ∀ d ∈ ds, (d.get? idField).isSome = true) (xs : List Staged)
    (hids : ∀ x ∈ xs, (x.write.get? idField).isSome = true) :
    ∃ flushes, (stageMatches Memory.service plan changes ds (pendingOf xs) >>=
        flush Memory.service plan).run ⟨w, r⟩ =
      (.ok (), ⟨withContents plan w
        (sendAll plan.updateBatch xs (ds.map (stage plan changes)) c),
        reportOf r (xs ++ ds.map (stage plan changes)) flushes⟩) := by
  induction ds generalizing xs w c r with
  | nil =>
    rw [List.map_nil, List.append_nil, sendAll]
    exact flush_memory r hopen hcontents hids
  | cons d ds ih =>
    have hd := hds d (by simp)
    have hds' : ∀ e ∈ ds, (e.get? idField).isSome = true := fun e he => hds e (by simp [he])
    have hids' : ∀ x ∈ xs ++ [stage plan changes d], (x.write.get? idField).isSome = true := by
      intro x hx
      rcases List.mem_append.1 hx with hx | hx
      · exact hids x hx
      · rw [List.mem_singleton.1 hx]
        exact isSome_stage plan changes d
    rw [run_stageMatches_cons _ _ _ _ _ hd, List.map_cons, sendAll]
    by_cases hfull : plan.updateBatch ≤ xs.length + 1
    · rw [if_pos hfull, if_pos hfull]
      obtain ⟨m, hflush⟩ := flush_memory r hopen hcontents hids'
      rw [run_bind hflush]
      obtain ⟨n, hrest⟩ := ih (reportOf r (xs ++ [stage plan changes d]) m)
        (w := withContents plan w (applyGroup c (xs ++ [stage plan changes d]))) hopen
        (get?_withContents plan w _) hds' [] (by simp)
      refine ⟨n, ?_⟩
      rw [withContents_withContents, reportOf_reportOf, List.nil_append, List.append_assoc] at hrest
      exact hrest
    · rw [if_neg hfull, if_neg hfull]
      obtain ⟨n, hrest⟩ := ih r hopen hcontents hds' _ hids'
      refine ⟨n, ?_⟩
      rw [List.append_assoc] at hrest
      exact hrest

omit r in
/-- The store answers what the contents say, and the world stays as it is. -/
theorem collectMatches_memory (condition : Condition) (params : Bindings) :
    collectMatches Memory.service plan condition params w = (collected c condition params, w) := by
  cases hresolve : condition.resolve params with
  | error e =>
    rw [collectMatches, collected, hresolve]
    rfl
  | ok text =>
    cases hparse : Query.parse text with
    | error e =>
      have hquery : ∀ offset limit,
          w.store.query plan.collection text offset limit = .error e := by
        intro offset limit
        simp only [query, hopen, hparse, bind, Except.bind]
      simp only [collectMatches, collected, hresolve, hparse, bind, Except.bind]
      exact Cursor.toList_make_error hquery plan.readBatch
    | ok q =>
      rw [collectMatches, collected_eq_ok hresolve hparse, hresolve]
      exact Cursor.toList_make hopen hcontents hparse plan.readBatch

/-- When the matches of a pair cannot be read, the pair ends there. -/
theorem runPair_memory_error {condition : Condition} {pair : Pair} {e : StoreError}
    (hcollected : collected c condition pair.params = .error e) :
    (runPair Memory.service plan condition pair).run ⟨w, r⟩ = (.error e, ⟨w, r⟩) := by
  have hcollect : collectMatches Memory.service plan condition pair.params w = (.error e, w) :=
    hcollected ▸ collectMatches_memory hopen hcontents condition pair.params
  exact run_bind_error (run_act hcollect r) _

/-- A pair that adds no record, or that has matches, sends its staged matches. -/
theorem runPair_memory_of_found {condition : Condition} (pair : Pair) {ds : List Document}
    (hcollected : collected c condition pair.params = .ok ds)
    (hids : ∀ d ∈ ds, (d.get? idField).isSome = true) (hfound : pair.insert = none ∨ ds ≠ []) :
    ∃ flushes, (runPair Memory.service plan condition pair).run ⟨w, r⟩ =
      (.ok (), ⟨withContents plan w
        (sendAll plan.updateBatch [] (ds.map (stage plan pair.changes)) c),
        reportOf { r with matched := r.matched + ds.length } (ds.map (stage plan pair.changes))
          flushes⟩) := by
  have hcollect : collectMatches Memory.service plan condition pair.params w = (.ok ds, w) :=
    hcollected ▸ collectMatches_memory hopen hcontents condition pair.params
  obtain ⟨n, hsent⟩ := stageMatches_memory
    { r with matched := r.matched + ds.length } hopen hcontents pair.changes hids [] (by simp)
  refine ⟨n, ?_⟩
  rw [runPair, run_bind (run_act hcollect r), run_bind (run_count _ w r)]
  rw [List.nil_append] at hsent
  refine Eq.trans ?_ hsent
  cases ds with
  | cons d ds => rfl
  | nil =>
    rw [hfound.resolve_right (by simp)]
    rfl

/-- Carrying out a pair that adds no record sends its staged matches. -/
theorem runPair_memory (changes : Changes) {condition : Condition} {params : Bindings}
    {ds : List Document} (hcollected : collected c condition params = .ok ds)
    (hids : ∀ d ∈ ds, (d.get? idField).isSome = true) :
    ∃ flushes, (runPair Memory.service plan condition ⟨params, changes, none⟩).run ⟨w, r⟩ =
      (.ok (), ⟨withContents plan w
        (sendAll plan.updateBatch [] (ds.map (stage plan changes)) c),
        reportOf { r with matched := r.matched + ds.length } (ds.map (stage plan changes))
          flushes⟩) :=
  runPair_memory_of_found r hopen hcontents ⟨params, changes, none⟩ hcollected hids (.inl rfl)

/-- A pair without matches writes the document of its record. -/
theorem runPair_memory_insert {condition : Condition} {params : Bindings} (changes : Changes)
    {record : Record} {supply : Nat} (hcollected : collected c condition params = .ok [])
    (hbuild : plan.layout.build w.supply record = .ok (d, supply))
    (hid : (d.get? idField).isSome = true) :
    (runPair Memory.service plan condition ⟨params, changes, some record⟩).run ⟨w, r⟩ =
      (.ok (), ⟨{ withContents plan w (c.accept d) with supply := supply },
        { r with inserted := r.inserted + 1, flushes := r.flushes + 1 }⟩) := by
  have hcollect : collectMatches Memory.service plan condition params w = (.ok [], w) :=
    hcollected ▸ collectMatches_memory hopen hcontents condition params
  have hbuilt : (act (buildInsert plan record)).run ⟨w, r⟩ =
      (.ok d, ⟨{ w with supply := supply }, r⟩) := run_buildInsert hbuild
  have hwrite : (sendDocuments Memory.service plan [d]).run ⟨{ w with supply := supply }, r⟩ =
      (.ok (), ⟨{ withContents plan w (c.accept d) with supply := supply }, r⟩) :=
    sendDocuments_memory (w := { w with supply := supply }) r hopen hcontents
      (List.forall_mem_singleton.2 hid)
  have hdelete : (sendDeletions Memory.service plan []).run ⟨{ w with supply := supply }, r⟩ =
      (.ok (), ⟨{ w with supply := supply }, r⟩) := rfl
  rw [runPair, run_bind (run_act hcollect r), run_bind (run_count _ w r)]
  show (act (buildInsert plan record) >>= fun d =>
    flush Memory.service plan (Pending.empty.addInsert d)).run ⟨w, r⟩ = _
  rw [run_bind hbuilt]
  show (sendDeletions Memory.service plan [] >>= fun _ =>
    sendDocuments Memory.service plan [d] >>= fun _ => count _).run _ = _
  rw [run_bind hdelete, run_bind hwrite, run_count]
  rfl

end Memory

/-! ## Calls -/

/-- The pairs of a call have its change lists, and its records if there are any. -/
theorem mem_of_makePairs {sets : List Bindings} {changes : List Changes}
    {inserts : Option (List Record)} {pairs : List Pair} {pair : Pair}
    (h : makePairs sets changes inserts = .ok pairs) (hpair : pair ∈ pairs) :
    pair.changes ∈ changes ∧ ∀ r ∈ pair.insert, ∃ records ∈ inserts, r ∈ records := by
  rw [makePairs.eq_def] at h
  split at h
  · cases h
  · cases inserts with
    | none =>
      obtain rfl := Except.ok.inj h
      obtain ⟨⟨s, cs⟩, hmem, rfl⟩ := List.mem_map.1 hpair
      exact ⟨(List.of_mem_zip hmem).2, by simp⟩
    | some records =>
      simp only at h
      split at h
      · cases h
      · obtain rfl := Except.ok.inj h
        obtain ⟨⟨⟨s, cs⟩, r⟩, hmem, rfl⟩ := List.mem_map.1 hpair
        obtain ⟨hpair, hr⟩ := List.of_mem_zip hmem
        exact ⟨(List.of_mem_zip hpair).2, by simpa using hr⟩

/-- The pairs of an update add no records. -/
theorem insert_of_makePairs {sets : List Bindings} {changes : List Changes} {pairs : List Pair}
    (h : makePairs sets changes none = .ok pairs) : ∀ pair ∈ pairs, pair.insert = none := by
  intro pair hpair
  refine Option.eq_none_iff_forall_not_mem.2 fun r hr => ?_
  obtain ⟨records, hrecords, -⟩ := (mem_of_makePairs h hpair).2 r hr
  simp at hrecords

/-- A call reports the progress of its pairs and whether they have failed; it adds to the log, and
leaves the rest of the world as the pairs do. -/
theorem reconcile_of_runPairs {σ : Type} {service : Service σ} {t : Table} {condition : Condition}
    {sets : List Bindings} {changes : List Changes} {inserts : Option (List Record)}
    {pairs : List Pair} {w w' : World σ} {r : UpdateReport} {result : Except StoreError Unit}
    (operation : String) (hconnected : t.isConnected = true)
    (hpairs : makePairs sets changes inserts = .ok pairs)
    (hrun : (runPairs service (planFor t changes) condition pairs).run ⟨w, .empty⟩ =
      (result, ⟨w', r⟩)) :
    ∃ log, t.reconcile service operation condition sets changes inserts w =
      (match result with
        | .ok _ => r
        | .error _ => { r with failed := true }, { w' with log := log }) := by
  have hall : runAll service t condition sets changes inserts w = ((result, r), w') := by
    simp only [runAll, hpairs, hrun]
  refine ⟨(t.reconcile service operation condition sets changes inserts w).2.log, ?_⟩
  simp only [Table.reconcile, Table.checkConnected_eq_ok hconnected, bind, StateT.bind, hall]
  cases result <;> rfl

/-- An update whose pairs succeed reports their progress, and adds to the log. -/
theorem update_of_runPairs {σ : Type} {service : Service σ} {t : Table} {condition : Condition}
    {sets : List Bindings} {changes : List Changes} {pairs : List Pair} {w w' : World σ}
    {r : UpdateReport} (hconnected : t.isConnected = true)
    (hpairs : makePairs sets changes none = .ok pairs)
    (hrun : (runPairs service (planFor t changes) condition pairs).run ⟨w, .empty⟩ =
      (.ok (), ⟨w', r⟩)) :
    ∃ log, t.update service condition sets changes w = (r, { w' with log := log }) :=
  reconcile_of_runPairs "update" hconnected hpairs hrun

/-- An update with one pair over a store in memory sends the staged matches, and reports them. -/
theorem update_memory {t : Table} {w : World Memory} {c : Contents} {condition : Condition}
    {params : Bindings} {text : String} {q : Query.Node} {changes : Changes}
    (hconnected : t.isConnected = true) (hopen : w.store.check = .ok ())
    (hcontents : w.store.collections.get? t.collection.name = some c)
    (hresolve : condition.resolve params = .ok text) (hparse : Query.parse text = .ok q)
    (hids : ∀ d ∈ c.select q, (d.get? idField).isSome = true) :
    ∃ flushes log, t.update Memory.service condition [params] [changes] w =
      (reportOf { UpdateReport.empty with matched := (c.select q).length }
          ((c.select q).map (stage (planFor t [changes]) changes)) flushes,
        { withContents (planFor t [changes]) w
            (sendAll t.options.updateBatchSize []
              ((c.select q).map (stage (planFor t [changes]) changes)) c) with
          log := log }) := by
  obtain ⟨flushes, hpair⟩ := runPair_memory UpdateReport.empty hopen
    (show w.store.collections.get? (planFor t [changes]).collection = some c from hcontents)
    changes (collected_eq_ok hresolve hparse) hids
  have hpairs : makePairs [params] [changes] none = .ok [⟨params, changes, none⟩] := rfl
  obtain ⟨log, hlog⟩ := update_of_runPairs hconnected hpairs (run_bind hpair _)
  refine ⟨flushes, log, hlog.trans ?_⟩
  have hmatched : UpdateReport.empty.matched + (c.select q).length = (c.select q).length :=
    Nat.zero_add _
  rw [hmatched]
  rfl

end SearchTable.Reconcile
