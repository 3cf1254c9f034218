import SearchTable.Proofs.Table.Frame
import SearchTable.Proofs.Table.Reading
/-!
# What a condition matches

A table meets the matches of a condition in four places.  A search pages through them lazily, the
question whether there is one asks for a single document and the number of all of them, and an
update reads them with a cursor of its own before it writes, with or without a record to add when
there is none.  Over the store in memory all of them see the documents that the query selects.

`Table.matches_agree` states this for one condition and one set of values: what the search yields
decides the answer to the question, the number of matches that an update reports, and whether an
upsert adds its record.
-/

namespace SearchTable

open Memory Document Layout Reconcile Condition

namespace Layout

variable {l : Layout} {r : Record}

/-- A record of the width of the table becomes a document with an identity. -/
theorem exists_build (hwidth : r.length = l.columns.length) (supply : Nat) :
    ∃ d supply', l.build supply r = .ok (d, supply') ∧ (d.get? idField).isSome = true := by
  have hchecked : l.checkWidth r = .ok () := if_pos hwidth
  simp only [build, hchecked, bind, Except.bind]
  by_cases hid : (fieldsOf l.columns r).contains idField = true
  · exact ⟨_, supply, if_pos hid, hid⟩
  · simp only [if_neg hid]
    cases l.key with
    | some names => exact ⟨_, supply, rfl, by simp⟩
    | none => exact ⟨_, supply + 1, rfl, by simp⟩

end Layout

namespace Reconcile

variable {σ α β : Type} {service : Service σ} {plan : Plan}

/-- The record of a pair that has matches plays no part. -/
theorem run_runPair_of_collected_cons {condition : Condition} {params : Bindings} {w w' : World σ}
    {d : Document} {ds : List Document}
    (hcollect : collectMatches service plan condition params w = (.ok (d :: ds), w'))
    (changes : Changes) (insert : Option Record) (r : UpdateReport) :
    (runPair service plan condition ⟨params, changes, insert⟩).run ⟨w, r⟩ =
      (runPair service plan condition ⟨params, changes, none⟩).run ⟨w, r⟩ := by
  rw [runPair, runPair, run_bind (run_act hcollect r), run_bind (run_act hcollect r)]

/-! ## What is counted

The matches of a pair are counted before the first of them is written, and an added record when it
is sent.  All other steps leave these two numbers alone, also the ones that fail. -/

/-- A step counts neither matches nor added records. -/
def Step.KeepsMatches (x : Step σ α) : Prop :=
  ∀ p, (x.run p).2.report.matched = p.report.matched ∧
    (x.run p).2.report.inserted = p.report.inserted

theorem Step.KeepsMatches.bind {x : Step σ α} {next : α → Step σ β} (h : x.KeepsMatches)
    (hnext : ∀ a, (next a).KeepsMatches) : Step.KeepsMatches (x >>= next) := by
  intro p
  obtain ⟨hmatched, hinserted⟩ := h p
  rcases hrun : x.run p with ⟨result, p'⟩
  rw [hrun] at hmatched hinserted
  cases result with
  | ok a =>
    rw [run_bind hrun]
    exact ⟨(hnext a p').1.trans hmatched, (hnext a p').2.trans hinserted⟩
  | error e =>
    rw [run_bind_error hrun]
    exact ⟨hmatched, hinserted⟩

theorem keepsMatches_pure (a : α) : Step.KeepsMatches (pure a : Step σ α) := fun _ => ⟨rfl, rfl⟩

theorem keepsMatches_act (a : Act σ (Except StoreError α)) : (act a).KeepsMatches :=
  fun _ => ⟨rfl, rfl⟩

/-- Sending a group without a new record. -/
theorem keepsMatches_flush {p : Pending} (h : p.inserted = 0) :
    (flush service plan p).KeepsMatches := by
  have hdelete : (sendDeletions service plan p.deletions).KeepsMatches := by
    unfold sendDeletions
    split
    · exact (keepsMatches_act _).bind fun _ _ => ⟨rfl, rfl⟩
    · exact keepsMatches_pure _
  have hwrite : (sendDocuments service plan p.documents).KeepsMatches := by
    unfold sendDocuments
    split
    · exact keepsMatches_act _
    · exact keepsMatches_pure _
  unfold flush
  split
  · exact hdelete.bind fun _ => hwrite.bind fun _ _ => ⟨rfl, by rw [h]; rfl⟩
  · exact keepsMatches_pure _

/-- Staging a match adds no record. -/
theorem inserted_of_stageMatch {changes : Changes} {p p' : Pending} {d : Document}
    (h : stageMatch plan changes p d = .ok p') : p'.inserted = p.inserted := by
  obtain ⟨old, -, h⟩ := bind_eq_ok_iff.1 h
  have hadded : ∀ new : String,
      (if new = old then Except.ok (p.addPatch (patchDocument old changes))
        else .ok (p.addRebuilt (rebuiltDocument d new changes) old)) =
          (.ok p' : Except StoreError Pending) → p'.inserted = p.inserted := by
    intro new h
    split at h <;> obtain rfl := Except.ok.inj h <;> rfl
  exact hadded _ h

/-- Sending matches in groups, up to the first one without an identity. -/
theorem keepsMatches_stageMatches (changes : Changes) (ds : List Document) {p : Pending}
    (h : p.inserted = 0) :
    Step.KeepsMatches (stageMatches service plan changes ds p >>= flush service plan) := by
  induction ds generalizing p with
  | nil => exact keepsMatches_flush h
  | cons d ds ih =>
    rw [stageMatches, bind_assoc]
    cases hstage : stageMatch plan changes p d with
    | error e => exact fun _ => ⟨rfl, rfl⟩
    | ok p' =>
      have hp' : p'.inserted = 0 := (inserted_of_stageMatch hstage).trans h
      show Step.KeepsMatches ((if plan.updateBatch ≤ p'.documents.length then _ else _) >>= _)
      split
      · rw [bind_assoc]
        exact (keepsMatches_flush hp').bind fun _ => ih rfl
      · exact ih hp'

/-- A pair that adds no record counts its matches, also when it fails behind them. -/
theorem report_runPair {condition : Condition} {params : Bindings} {w w' : World σ}
    {ds : List Document}
    (hcollect : collectMatches service plan condition params w = (.ok ds, w'))
    (changes : Changes) (r : UpdateReport) :
    let after := ((runPair service plan condition ⟨params, changes, none⟩).run ⟨w, r⟩).2.report
    after.matched = r.matched + ds.length ∧ after.inserted = r.inserted := by
  have hsends : Step.KeepsMatches (stageMatches service plan changes ds .empty >>=
      flush service plan) := keepsMatches_stageMatches changes ds rfl
  have hkept := hsends ⟨w', { r with matched := r.matched + ds.length }⟩
  rw [runPair, run_bind (run_act hcollect r), run_bind (run_count _ w' r)]
  cases ds <;> exact hkept

end Reconcile

namespace Table

variable {t : Table} {w : World Memory} {c : Contents} {condition : Condition} {params : Bindings}
  {text : String} {q : Query.Node}

section Calls

variable (hconnected : t.isConnected = true) (hopen : w.store.check = .ok ())
  (hcontents : w.store.collections.get? t.collection.name = some c)
  (hresolve : condition.resolve params = .ok text) (hparse : Query.parse text = .ok q)

include hconnected hopen hcontents hresolve hparse

/-- The one document that is asked for is there exactly when the query selects any. -/
theorem contains_memory : t.contains Memory.service params condition w =
    (.ok (decide (c.select q ≠ [])), w) := by
  have hask : Act.ask Memory.service (.query t.collection.name text 0 1) w =
      (.ok ⟨(c.select q).take 1, (c.select q).length⟩, w) := by
    simp only [Act.ask, Memory.service, answer, query_eq hopen hcontents hparse]
    rfl
  simp only [contains, bind, StateT.bind, resolveQuery_eq hconnected hresolve, hask]
  cases c.select q <;> rfl

omit hconnected in
theorem collectMatches_select (changes : Changes) :
    collectMatches Memory.service (planFor t [changes]) condition params w =
      (.ok (c.select q), w) := by
  rw [collectMatches_memory hopen
    (show w.store.collections.get? (planFor t [changes]).collection = some c from hcontents),
    collected_eq_ok hresolve hparse]

/-- An update of one pair reports the matches, also when it fails at one of them, and adds no
record. -/
theorem report_update (changes : Changes) :
    let report := (t.update Memory.service condition [params] [changes] w).1
    report.matched = (c.select q).length ∧ report.inserted = 0 := by
  intro report
  obtain ⟨hmatched, hinserted⟩ := report_runPair
    (collectMatches_select hopen hcontents hresolve hparse changes) changes .empty
  rw [show UpdateReport.empty.matched = 0 from rfl, Nat.zero_add] at hmatched
  rcases hrun : (runPair Memory.service (planFor t [changes]) condition
    ⟨params, changes, none⟩).run ⟨w, .empty⟩ with ⟨result, w', r⟩
  have hruns : (runPairs Memory.service (planFor t [changes]) condition
      [⟨params, changes, none⟩]).run ⟨w, .empty⟩ = (result, ⟨w', r⟩) := by
    rw [runPairs_singleton, hrun]
  obtain ⟨log, hupdate⟩ := reconcile_of_runPairs "update" hconnected
    (show makePairs [params] [changes] none = .ok [⟨params, changes, none⟩] from rfl) hruns
  rw [hrun] at hmatched hinserted
  rw [show report = _ from congrArg Prod.fst hupdate]
  cases result <;> exact ⟨hmatched, hinserted⟩

/-- An update of one pair succeeds when the matches have identities. -/
theorem failed_update (hids : ∀ d ∈ c.select q, (d.get? idField).isSome = true)
    (changes : Changes) :
    (t.update Memory.service condition [params] [changes] w).1.failed = false := by
  obtain ⟨flushes, log, hupdate⟩ := update_memory hconnected hopen hcontents hresolve hparse hids
  exact congrArg (fun out => out.1.failed) hupdate

/-- An upsert of one pair with matches reports and writes what an update does. -/
theorem updateOrAdd_of_select_ne_nil (hne : c.select q ≠ []) (changes : Changes)
    (record : Record) :
    let upsert := t.updateOrAdd Memory.service condition [params] [changes] [record] w
    let update := t.update Memory.service condition [params] [changes] w
    upsert.1 = update.1 ∧ upsert.2.store = update.2.store := by
  intro upsert update
  obtain ⟨d, ds, hds⟩ := List.exists_cons_of_ne_nil hne
  have hcollect := collectMatches_select hopen hcontents hresolve hparse changes
  rw [hds] at hcollect
  have hrun : ∀ insert, (runPairs Memory.service (planFor t [changes]) condition
      [⟨params, changes, insert⟩]).run ⟨w, .empty⟩ =
        (runPairs Memory.service (planFor t [changes]) condition
          [⟨params, changes, none⟩]).run ⟨w, .empty⟩ := fun insert => by
    rw [runPairs_singleton, runPairs_singleton,
      run_runPair_of_collected_cons hcollect changes insert]
  obtain ⟨log, hupsert⟩ := reconcile_of_runPairs "upsert" hconnected
    (show makePairs [params] [changes] (some [record]) = .ok [⟨params, changes, some record⟩] from
      rfl) (hrun (some record))
  obtain ⟨log', hupdate⟩ := reconcile_of_runPairs "update" hconnected
    (show makePairs [params] [changes] none = .ok [⟨params, changes, none⟩] from rfl) rfl
  exact ⟨(congrArg Prod.fst hupsert).trans (congrArg Prod.fst hupdate).symm,
    (congrArg (·.2.store) hupsert).trans (congrArg (·.2.store) hupdate).symm⟩

/-- An upsert of one pair without matches writes the document of its record, and nothing else. -/
theorem updateOrAdd_of_select_eq_nil (hnil : c.select q = []) (changes : Changes)
    {record : Record} {d : Document} {supply : Nat}
    (hbuild : t.layout.build w.supply record = .ok (d, supply))
    (hid : (d.get? idField).isSome = true) :
    let upsert := t.updateOrAdd Memory.service condition [params] [changes] [record] w
    upsert.1 = ⟨0, 0, 1, 0, 1, false⟩ ∧
      upsert.2.store = w.store.setContents t.collection.name (c.accept d) := by
  intro upsert
  let plan := planFor t [changes]
  have hrun : (runPair Memory.service plan condition ⟨params, changes, some record⟩).run
      ⟨w, .empty⟩ = (.ok (), ⟨{ withContents plan w (c.accept d) with supply := supply },
        { UpdateReport.empty with inserted := 1, flushes := 1 }⟩) :=
    runPair_memory_insert .empty hopen hcontents changes (hnil ▸ collected_eq_ok hresolve hparse)
      hbuild hid
  obtain ⟨log, hupsert⟩ := reconcile_of_runPairs "upsert" hconnected
    (show makePairs [params] [changes] (some [record]) = .ok [⟨params, changes, some record⟩] from
      rfl) (run_bind hrun _)
  exact ⟨congrArg Prod.fst hupsert, congrArg (·.2.store) hupsert⟩

end Calls

/-- A search yields the records of the documents that satisfy the condition, in storage order.
There is one exactly when the table says so, an update reports as many matches, and so does an
upsert of one pair, which adds its record exactly when there is none, and does what the update does
otherwise.  Both succeed when the matches have identities. -/
theorem matches_agree (hconnected : t.isConnected = true) (hopen : w.store.check = .ok ())
    (hcontents : w.store.collections.get? t.collection.name = some c)
    (hresolve : condition.resolve params = .ok text) (hparse : Query.parse text = .ok q) :
    let records := (c.documents.filter fun d => q.holds d).map (readRecord t.layout.columns)
    (∃ cursor, t.find params condition w = (.ok cursor, w) ∧
      cursor.Yields Memory.service w records) ∧
    t.contains Memory.service params condition w = (.ok (decide (records ≠ [])), w) ∧
    ∀ (changes : Changes) (record : Record), record.length = t.layout.columns.length →
      let update := t.update Memory.service condition [params] [changes] w
      let upsert := t.updateOrAdd Memory.service condition [params] [changes] [record] w
      update.1.matched = records.length ∧ upsert.1.matched = records.length ∧
      upsert.1.inserted = (if records = [] then 1 else 0) ∧
      (records = [] → ∃ d supply, t.layout.build w.supply record = .ok (d, supply) ∧
        upsert.2.store = w.store.setContents t.collection.name (c.accept d)) ∧
      (records ≠ [] → upsert.2.store = update.2.store) ∧
      ((∀ d ∈ c.documents, q.holds d = true → (d.get? idField).isSome = true) →
        update.1.failed = false ∧ upsert.1.failed = false) := by
  intro records
  have hempty : records = [] ↔ c.select q = [] := List.map_eq_nil_iff
  refine ⟨yields_find_select hconnected hopen hcontents hresolve hparse, ?_, ?_⟩
  · rw [contains_memory hconnected hopen hcontents hresolve hparse]
    exact congrArg (fun b => (Except.ok b, w)) (decide_eq_decide.2 (not_congr hempty.symm))
  · intro changes record hwidth update upsert
    obtain ⟨hmatched, hinserted⟩ :=
      report_update hconnected hopen hcontents hresolve hparse changes
    have hlength : update.1.matched = records.length := hmatched.trans (List.length_map _).symm
    have hsucceeds : (∀ d ∈ c.documents, q.holds d = true → (d.get? idField).isSome = true) →
        update.1.failed = false := fun hids =>
      failed_update hconnected hopen hcontents hresolve hparse
        (fun d hd => hids d (List.mem_filter.1 hd).1 (List.mem_filter.1 hd).2) changes
    by_cases hnil : c.select q = []
    · obtain ⟨d, supply, hbuild, hid⟩ := exists_build hwidth w.supply
      obtain ⟨hreport, hstore⟩ := updateOrAdd_of_select_eq_nil hconnected hopen hcontents hresolve
        hparse hnil changes hbuild hid
      have hrecords : records = [] := hempty.2 hnil
      refine ⟨hlength, ?_, ?_, fun _ => ⟨d, supply, hbuild, hstore⟩,
        fun hne => absurd hrecords hne,
        fun hids => ⟨hsucceeds hids, congrArg UpdateReport.failed hreport⟩⟩
      · rw [hreport, hrecords]
        rfl
      · rw [hreport, if_pos hrecords]
    · obtain ⟨hreport, hstore⟩ := updateOrAdd_of_select_ne_nil hconnected hopen hcontents hresolve
        hparse hnil changes record
      have hrecords : records ≠ [] := fun h => hnil (hempty.1 h)
      rw [hreport, if_neg hrecords]
      exact ⟨hlength, hlength, hinserted, fun h => absurd h hrecords, fun _ => hstore,
        fun hids => ⟨hsucceeds hids, hsucceeds hids⟩⟩

/-- Nobody is called bob, so an upsert adds his record behind the one of alice. -/
theorem matches_agree_peopleTable :
    let condition := compile (.compare .equal (.field "name" .string) (.variable "who"))
    let params : Bindings := .ofList [("who", .text "bob")]
    let query := "(name:\"bob\")"
    let node : Query.Node := .term "name" "bob"
    let record : Record := [.text "bob", .int 40, .null]
    let upsert := peopleTable.updateOrAdd Memory.service condition [params] [[("age", .int 41)]]
      [record] peopleWorld
    condition.resolve params = .ok query ∧ Query.parse query = .ok node ∧
      record.length = peopleTable.layout.columns.length ∧
      (∀ d ∈ peopleContents.documents, node.holds d = true → (d.get? idField).isSome = true) ∧
      peopleTable.contains Memory.service params condition peopleWorld = (.ok false, peopleWorld) ∧
      upsert.1.matched = 0 ∧ upsert.1.inserted = 1 ∧ upsert.1.failed = false ∧
      upsert.2.store = peopleWorld.store.setContents "people"
        { peopleContents with
          documents := peopleContents.documents ++
            [⟨[("name", .text "bob"), ("age", .int32 40),
              ("id", .text "ab079eaf-9050-3dff-b716-253a1032b5a1"), ("_version_", .int64 2)]⟩]
          accepted := 2 } := by
  intro condition params query node record upsert
  have hresolve : condition.resolve params = .ok query := by decide +kernel
  have hparse : Query.parse query = .ok node := by cbv
  have hids : ∀ d ∈ peopleContents.documents, node.holds d = true →
      (d.get? idField).isSome = true := by decide +kernel
  have hnone : peopleContents.documents.filter (fun d => node.holds d) = [] := by decide +kernel
  have hcontents : peopleWorld.store.collections.get? peopleTable.collection.name =
      some peopleContents := get?_setContents _ _ _
  obtain ⟨-, hcontains, hwrites⟩ := matches_agree rfl rfl hcontents hresolve hparse
  obtain ⟨-, hmatched, hinserted, hadded, -, hsucceeds⟩ := hwrites [("age", .int 41)] record rfl
  rw [hnone] at hcontains hmatched hinserted hadded
  obtain ⟨d, supply, hbuild, hstore⟩ := hadded rfl
  have hbob : peopleTable.layout.build peopleWorld.supply record =
      .ok (⟨[("name", .text "bob"), ("age", .int32 40),
        ("id", .text "ab079eaf-9050-3dff-b716-253a1032b5a1")]⟩, 0) := by decide +kernel
  obtain ⟨rfl, -⟩ := Prod.mk.inj (Except.ok.inj (hbuild.symm.trans hbob))
  refine ⟨hresolve, hparse, rfl, hids, hcontains, hmatched, hinserted, (hsucceeds hids).2,
    hstore.trans ?_⟩
  exact congrArg (peopleWorld.store.setContents "people") (by decide +kernel)

end Table

end SearchTable
