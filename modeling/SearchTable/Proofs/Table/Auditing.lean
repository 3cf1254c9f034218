import SearchTable.Proofs.Table.Frame
/-!
# Audit records of calls that fail

A call that changes records reports whether it has failed, and leaves entries in the log.  Whatever
the store answers, the entries of its parts are lines (`AddsLines`), and the one audit record of the
call comes behind them, with the mark of the report in it (`audits_audited`).

That record is missing in one case.  A deletion and an update ask first whether the table is
connected, and end there if it is not, with a line and without a record; an addition asks the same,
but writes its record all the same.  So a call that has failed has been audited exactly when the
table is connected or the call is an addition (`failure_audited_iff`).
-/

namespace SearchTable

/-! ## Entries -/

namespace Log

/-- Whether an entry is an audit record. -/
def Entry.isAudit : Entry → Bool
  | .audit .. => true
  | .line .. => false

/-- The details of the audit records that the entries hold for an operation on a collection. -/
def audits (operation collection : String) (entries : List Entry) : List (List (String × Json)) :=
  entries.filterMap fun
    | .audit o c detail => if o = operation ∧ c = collection then some detail else none
    | .line .. => none

/-- There is exactly one audit record of an operation on a collection, and it says that the
operation has failed. -/
def AuditsFailure (operation collection : String) (entries : List Entry) : Prop :=
  ∃ detail, audits operation collection entries = [detail] ∧
    detail.lookup "failed" = some (.bool true)

variable {operation collection : String} {lines : List Entry}

theorem audits_of_lines (h : ∀ entry ∈ lines, entry.isAudit = false) :
    audits operation collection lines = [] := by
  unfold audits
  rw [List.filterMap_eq_nil_iff]
  intro entry hentry
  cases entry with
  | line level text => rfl
  | audit o c detail => exact absurd (h _ hentry) (by simp [Entry.isAudit])

theorem auditsFailure_append_audit (h : ∀ entry ∈ lines, entry.isAudit = false)
    {detail : List (String × Json)} (hdetail : detail.lookup "failed" = some (.bool true)) :
    AuditsFailure operation collection (lines ++ [.audit operation collection detail]) := by
  refine ⟨detail, ?_, hdetail⟩
  have hlast : audits operation collection [.audit operation collection detail] = [detail] := by
    simp [audits]
  rw [audits, List.filterMap_append, ← audits, ← audits, audits_of_lines h, hlast, List.nil_append]

theorem not_auditsFailure_of_lines (h : ∀ entry ∈ lines, entry.isAudit = false) :
    ¬ AuditsFailure operation collection lines := by
  rintro ⟨detail, hdetail, -⟩
  rw [audits_of_lines h] at hdetail
  cases hdetail

end Log

/-! ## Computations that add lines -/

section Lines

variable {σ τ α β : Type} {log : τ → List Log.Entry}

/-- A computation adds nothing to the log but lines. -/
def AddsLines (log : τ → List Log.Entry) (act : StateM τ α) : Prop :=
  ∀ s, ∃ lines, log (act s).2 = log s ++ lines ∧ ∀ entry ∈ lines, entry.isAudit = false

theorem addsLines_of_log_eq {act : StateM τ α} (h : ∀ s, log (act s).2 = log s) :
    AddsLines log act := fun s =>
  ⟨[], by rw [h, List.append_nil], by simp⟩

theorem addsLines_pure (a : α) : AddsLines log (pure a : StateM τ α) :=
  addsLines_of_log_eq fun _ => rfl

theorem AddsLines.bind {act : StateM τ α} {next : α → StateM τ β} (h : AddsLines log act)
    (hnext : ∀ a, AddsLines log (next a)) : AddsLines log (act >>= next) := by
  intro s
  obtain ⟨lines, hlog, hlines⟩ := h s
  obtain ⟨lines', hlog', hlines'⟩ := hnext (act s).1 (act s).2
  refine ⟨lines ++ lines', ?_, ?_⟩
  · show log (next (act s).1 (act s).2).2 = _
    rw [hlog', hlog, List.append_assoc]
  · intro entry hentry
    exact (List.mem_append.1 hentry).elim (hlines entry) (hlines' entry)

theorem addsLines_ask (service : Service σ) (r : Request) :
    AddsLines World.log (Act.ask service r) :=
  addsLines_of_log_eq fun _ => rfl

theorem addsLines_complain (text : String) :
    AddsLines World.log (Act.complain text : Act σ Unit) := fun _ =>
  ⟨[.line .error text], rfl, by simp [Log.Entry.isAudit]⟩

/-- Carries out a computation and leaves a record of its result. -/
def Act.audited (act : Act σ α) (record : α → Log.Entry) : Act σ α := do
  let a ← act
  Act.report (record a)
  return a

/-- A computation leaves lines and, behind them, one audit record, which says whether its result is
a failure. -/
def Audits (act : Act σ α) (operation collection : String) (failed : α → Bool) : Prop :=
  ∀ w, ∃ lines detail,
    (act w).2.log = w.log ++ (lines ++ [.audit operation collection detail]) ∧
      (∀ entry ∈ lines, entry.isAudit = false) ∧
      detail.lookup "failed" = some (.bool (failed (act w).1))

theorem audits_audited {act : Act σ α} (h : AddsLines World.log act) {operation collection : String}
    {failed : α → Bool} (detail : α → List (String × Json))
    (hdetail : ∀ a, (detail a).lookup "failed" = some (.bool (failed a))) :
    Audits (act.audited fun a => .audit operation collection (detail a)) operation collection
      failed := by
  intro w
  obtain ⟨lines, hlog, hlines⟩ := h w
  refine ⟨lines, detail (act w).1, ?_, hlines, hdetail _⟩
  show (act w).2.log ++ [.audit operation collection (detail (act w).1)] = _
  rw [hlog, List.append_assoc]

end Lines

variable {σ α β : Type} (service : Service σ)

/-! ## Cursors -/

namespace Cursor

theorem addsLines_hasNext (c : Cursor) : AddsLines World.log (c.hasNext service) := by
  have hrefill : AddsLines World.log (c.refill service) := by
    unfold refill
    refine (addsLines_ask service _).bind fun answer => ?_
    cases answer <;> exact addsLines_pure _
  unfold hasNext
  split
  · exact addsLines_pure _
  · split
    · exact addsLines_pure _
    · refine hrefill.bind fun refilled => ?_
      obtain ⟨result, c⟩ := refilled
      cases result <;> exact addsLines_pure _

theorem addsLines_next (c : Cursor) : AddsLines World.log (c.next service) := by
  unfold next
  refine (addsLines_hasNext service c).bind fun given => ?_
  obtain ⟨result, c⟩ := given
  rcases result with e | _ | _ <;> exact addsLines_pure _

theorem addsLines_drain (fuel : Nat) (c : Cursor) :
    AddsLines World.log (drain service fuel c) := by
  induction fuel generalizing c with
  | zero => exact addsLines_pure _
  | succ fuel ih =>
    unfold drain
    refine (addsLines_next service c).bind fun given => ?_
    obtain ⟨result, c⟩ := given
    rcases result with e | _ | d
    · exact addsLines_pure _
    · exact addsLines_pure _
    · refine (ih c).bind fun rest => ?_
      cases rest <;> exact addsLines_pure _

end Cursor

/-! ## Updates -/

namespace Reconcile

/-- A step of an update adds nothing to the log but lines. -/
def Step.AddsLines (x : Step σ α) : Prop :=
  SearchTable.AddsLines (fun p : Progress σ => p.world.log) x.run

theorem addsLines_pure_step (a : α) : Step.AddsLines (pure a : Step σ α) :=
  addsLines_of_log_eq fun _ => rfl

theorem Step.AddsLines.bind {x : Step σ α} {next : α → Step σ β} (h : x.AddsLines)
    (hnext : ∀ a, (next a).AddsLines) : Step.AddsLines (x >>= next) := by
  unfold Step.AddsLines
  rw [ExceptT.run_bind]
  refine SearchTable.AddsLines.bind h fun result => ?_
  cases result with
  | ok a => exact hnext a
  | error e => exact addsLines_pure _

theorem addsLines_act {a : Act σ (Except StoreError α)} (h : SearchTable.AddsLines World.log a) :
    (act a).AddsLines := fun p => h p.world

theorem addsLines_count (f : UpdateReport → UpdateReport) : (count f : Step σ Unit).AddsLines :=
  addsLines_of_log_eq fun _ => rfl

variable (plan : Plan) (condition : Condition)

theorem addsLines_sendDeletions (ids : List String) :
    (sendDeletions service plan ids).AddsLines := by
  unfold sendDeletions
  split
  · exact (addsLines_act (addsLines_ask service _)).bind fun _ => addsLines_count _
  · exact addsLines_pure_step _

theorem addsLines_sendDocuments (ds : List Document) :
    (sendDocuments service plan ds).AddsLines := by
  unfold sendDocuments
  split
  · exact addsLines_act (addsLines_ask service _)
  · exact addsLines_pure_step _

theorem addsLines_flush (p : Pending) : (flush service plan p).AddsLines := by
  unfold flush
  split
  · exact (addsLines_sendDeletions service plan _).bind fun _ =>
      (addsLines_sendDocuments service plan _).bind fun _ => addsLines_count _
  · exact addsLines_pure_step _

theorem addsLines_stageMatches (changes : Changes) (ds : List Document) (p : Pending) :
    (stageMatches service plan changes ds p).AddsLines := by
  induction ds generalizing p with
  | nil => exact addsLines_pure_step _
  | cons d ds ih =>
    unfold stageMatches
    have hstage : (stageMatches.liftExcept (stageMatch plan changes p d) :
        Step σ Pending).AddsLines := addsLines_of_log_eq fun _ => rfl
    refine hstage.bind fun p => ?_
    split
    · exact (addsLines_flush service plan p).bind fun _ => ih _
    · exact ih p

theorem addsLines_collectMatches (params : Bindings) :
    SearchTable.AddsLines World.log (collectMatches service plan condition params) := by
  unfold collectMatches
  split
  · exact addsLines_pure _
  · intro w
    exact Cursor.addsLines_drain service _ _ w

theorem addsLines_buildInsert (r : Record) :
    SearchTable.AddsLines World.log (buildInsert plan r : Act σ (Except StoreError Document)) := by
  refine addsLines_of_log_eq fun w => ?_
  simp only [buildInsert, bind, StateT.bind, get, getThe, MonadStateOf.get, StateT.get, pure]
  cases plan.layout.build w.supply r <;> rfl

theorem addsLines_runPair (pair : Pair) : (runPair service plan condition pair).AddsLines := by
  unfold runPair
  refine (addsLines_act (addsLines_collectMatches service plan condition _)).bind fun found => ?_
  refine (addsLines_count _).bind fun _ => ?_
  refine (addsLines_stageMatches service plan _ found _).bind fun p => ?_
  split
  · exact (addsLines_act (addsLines_buildInsert plan _)).bind fun _ =>
      addsLines_flush service plan _
  · exact addsLines_flush service plan _

theorem addsLines_runPairs (pairs : List Pair) :
    (runPairs service plan condition pairs).AddsLines := by
  induction pairs with
  | nil => exact addsLines_pure_step _
  | cons pair pairs ih => exact (addsLines_runPair service plan condition pair).bind fun _ => ih

theorem addsLines_runAll (t : Table) (sets : List Bindings) (changes : List Changes)
    (inserts : Option (List Record)) :
    SearchTable.AddsLines World.log (runAll service t condition sets changes inserts) := by
  intro w
  unfold runAll
  split
  · exact ⟨[], by simp, by simp⟩
  · rename_i pairs _
    exact addsLines_runPairs service (planFor t changes) condition pairs ⟨w, .empty⟩

end Reconcile

/-! ## Calls -/

namespace Table

open Log

variable (t : Table) (condition : Condition) (sets : List Bindings)

theorem addsLines_writeRecords (records : List Record) :
    AddsLines World.log (t.writeRecords service records) := by
  refine addsLines_of_log_eq fun w => ?_
  simp only [writeRecords, bind, StateT.bind, get, getThe, MonadStateOf.get, StateT.get, pure]
  cases t.buildRecords w.supply records <;> rfl

theorem addsLines_deleteEach (report : DeleteReport) :
    AddsLines World.log (t.deleteEach service condition sets report) := by
  induction sets generalizing report with
  | nil => exact addsLines_pure _
  | cons params sets ih =>
    have hone : AddsLines World.log (t.deleteOne service condition params) := by
      unfold deleteOne
      split
      · exact addsLines_pure _
      · exact addsLines_ask service _
    unfold deleteEach
    refine hone.bind fun result => ?_
    cases result with
    | ok _ => exact ih _
    | error e => exact (addsLines_complain _).bind fun _ => ih _

/-- Writes records, and reports how it went. -/
def attemptAdd (records : List Record) : Act σ InsertReport := do
  match ← t.writeRecords service records with
  | .ok () => return ⟨records.length, false⟩
  | .error e =>
    Act.complain (failureLine
      ("add of " ++ countText records.length ++ " records to " ++ t.collection.name) e)
    return ⟨0, true⟩

/-- Carries out the pairs of an update, and reports how it went. -/
def attemptReconcile (operation : String) (changes : List Changes)
    (inserts : Option (List Record)) : Act σ UpdateReport := do
  match ← Reconcile.runAll service t condition sets changes inserts with
  | (.ok (), report) => return report
  | (.error e, report) =>
    Act.complain (operation ++ " on " ++ t.collection.name ++ " failed after " ++
      countText report.flushes ++ " flushes: " ++ e.message)
    return { report with failed := true }

theorem addsLines_attemptAdd (records : List Record) :
    AddsLines World.log (t.attemptAdd service records) := by
  unfold attemptAdd
  refine (addsLines_writeRecords service t records).bind fun result => ?_
  cases result with
  | ok _ => exact addsLines_pure _
  | error e => exact (addsLines_complain _).bind fun _ => addsLines_pure _

theorem addsLines_attemptReconcile (operation : String) (changes : List Changes)
    (inserts : Option (List Record)) :
    AddsLines World.log
      (t.attemptReconcile service condition sets operation changes inserts) := by
  unfold attemptReconcile
  refine (Reconcile.addsLines_runAll service condition t sets changes inserts).bind fun result => ?_
  obtain ⟨outcome, report⟩ := result
  cases outcome with
  | ok _ => exact addsLines_pure _
  | error e => exact (addsLines_complain _).bind fun _ => addsLines_pure _

theorem add_eq_audited {records : List Record} (h : records ≠ []) :
    t.add service records = (t.attemptAdd service records).audited fun report =>
      .audit "insert" t.collection.name
        [("failed", .bool report.failed), ("records", .ofNat records.length)] := by
  funext w
  have hempty : records.isEmpty = false := by simpa using h
  -- the branches of `add` each end in the report, so the two sides meet only branch by branch
  simp only [add, attemptAdd, Act.audited, hempty, Bool.false_eq_true, if_false, bind, StateT.bind]
  cases t.writeRecords service records w with
  | mk result w' => cases result <;> rfl

theorem delete_eq_audited (h : t.isConnected = true) :
    t.delete service condition sets =
      (t.deleteEach service condition sets ⟨0, false⟩).audited fun report =>
        .audit "delete" t.collection.name [("condition", .text condition.query),
          ("failed", .bool report.failed), ("requests", .ofNat report.requests)] := by
  simp only [delete, checkConnected_eq_ok h, Act.audited]

theorem reconcile_eq_audited (h : t.isConnected = true) (operation : String)
    (changes : List Changes) (inserts : Option (List Record)) :
    t.reconcile service operation condition sets changes inserts =
      (t.attemptReconcile service condition sets operation changes inserts).audited fun report =>
        .audit operation t.collection.name
          [("condition", .text condition.query), ("deleted", .ofNat report.deleted),
            ("failed", .bool report.failed), ("inserted", .ofNat report.inserted),
            ("matched", .ofNat report.matched), ("patched", .ofNat report.patched)] := by
  funext w
  simp only [reconcile, attemptReconcile, checkConnected_eq_ok h, Act.audited, bind, StateT.bind]
  cases Reconcile.runAll service t condition sets changes inserts w with
  | mk result w' =>
    obtain ⟨outcome, report⟩ := result
    cases outcome <;> rfl

/-- Records that are added are audited on every table. -/
theorem audits_add {records : List Record} (h : records ≠ []) :
    Audits (t.add service records) "insert" t.collection.name InsertReport.failed := by
  rw [add_eq_audited service t h]
  exact audits_audited (addsLines_attemptAdd service t records) _ fun _ => rfl

theorem audits_delete (h : t.isConnected = true) :
    Audits (t.delete service condition sets) "delete" t.collection.name DeleteReport.failed := by
  rw [delete_eq_audited service t condition sets h]
  exact audits_audited (addsLines_deleteEach service t condition sets _) _ fun _ => rfl

theorem audits_reconcile (h : t.isConnected = true) (operation : String) (changes : List Changes)
    (inserts : Option (List Record)) :
    Audits (t.reconcile service operation condition sets changes inserts) operation
      t.collection.name UpdateReport.failed := by
  rw [reconcile_eq_audited service t condition sets h]
  exact audits_audited
    (addsLines_attemptReconcile service t condition sets operation changes inserts) _ fun _ => rfl

/-! ### Tables that are not connected -/

theorem delete_of_unconnected (h : t.isConnected = false) :
    (∀ w, (t.delete service condition sets w).1.failed = true) ∧
      AddsLines World.log (t.delete service condition sets) := by
  simp only [delete, checkConnected_eq_error h]
  exact ⟨fun _ => rfl, (addsLines_complain _).bind fun _ => addsLines_pure _⟩

theorem reconcile_of_unconnected (h : t.isConnected = false) (operation : String)
    (changes : List Changes) (inserts : Option (List Record)) :
    (∀ w, (t.reconcile service operation condition sets changes inserts w).1.failed = true) ∧
      AddsLines World.log (t.reconcile service operation condition sets changes inserts) := by
  simp only [reconcile, checkConnected_eq_error h]
  exact ⟨fun _ => rfl, (addsLines_complain _).bind fun _ => addsLines_pure _⟩

end Table

/-! ## Every call that changes records -/

/-- A call that changes records. -/
inductive Mutation where
  | add (records : List Record)
  | delete (condition : Condition) (sets : List Bindings)
  | update (condition : Condition) (sets : List Bindings) (changes : List Changes)
  | updateOrAdd (condition : Condition) (sets : List Bindings) (changes : List Changes)
      (records : List Record)

namespace Mutation

/-- What a call returns. -/
abbrev Report : Mutation → Type
  | add _ => InsertReport
  | delete _ _ => DeleteReport
  | update _ _ _ => UpdateReport
  | updateOrAdd _ _ _ _ => UpdateReport

/-- Carries out a call on a table. -/
def run (service : Service σ) (t : Table) : (m : Mutation) → Act σ m.Report
  | add records => t.add service records
  | delete condition sets => t.delete service condition sets
  | update condition sets changes => t.update service condition sets changes
  | updateOrAdd condition sets changes records =>
    t.updateOrAdd service condition sets changes records

/-- Whether a report says that the call has failed. -/
def failed : (m : Mutation) → m.Report → Bool
  | add _ => InsertReport.failed
  | delete _ _ => DeleteReport.failed
  | update _ _ _ => UpdateReport.failed
  | updateOrAdd _ _ _ _ => UpdateReport.failed

/-- The name of a call in its audit record. -/
def operation : Mutation → String
  | add _ => "insert"
  | delete _ _ => "delete"
  | update _ _ _ => "update"
  | updateOrAdd _ _ _ _ => "upsert"

/-- Whether a call adds records only. -/
def isAddition : Mutation → Bool
  | add _ => true
  | _ => false

variable {t : Table} {m : Mutation}

/-- A call on a connected table is audited, and an addition is on every table; only an addition of
no records is not, which never fails. -/
theorem audits_run (h : t.isConnected = true ∨ m.isAddition = true) :
    Audits (m.run service t) m.operation t.collection.name m.failed ∨
      (∀ w, m.failed (m.run service t w).1 = false) ∧ AddsLines World.log (m.run service t) := by
  cases m with
  | add records =>
    cases records with
    | nil => exact .inr ⟨fun _ => rfl, addsLines_pure _⟩
    | cons r records => exact .inl (t.audits_add service (List.cons_ne_nil r records))
  | delete condition sets =>
    exact .inl (t.audits_delete service condition sets (h.resolve_right Bool.false_ne_true))
  | update condition sets changes =>
    exact .inl (t.audits_reconcile service condition sets (h.resolve_right Bool.false_ne_true)
      "update" changes none)
  | updateOrAdd condition sets changes records =>
    exact .inl (t.audits_reconcile service condition sets (h.resolve_right Bool.false_ne_true)
      "upsert" changes (some records))

/-- On a table that is not connected every other call fails, and leaves no record. -/
theorem not_audited_of_unconnected (h : t.isConnected = false) (hm : m.isAddition = false)
    (w : World σ) :
    m.failed (m.run service t w).1 = true ∧
      ∃ entries, (m.run service t w).2.log = w.log ++ entries ∧
        ¬ Log.AuditsFailure m.operation t.collection.name entries := by
  have hrun : (∀ w, m.failed (m.run service t w).1 = true) ∧
      AddsLines World.log (m.run service t) := by
    cases m with
    | add records => cases hm
    | delete condition sets => exact t.delete_of_unconnected service condition sets h
    | update condition sets changes =>
      exact t.reconcile_of_unconnected service condition sets h "update" changes none
    | updateOrAdd condition sets changes records =>
      exact t.reconcile_of_unconnected service condition sets h "upsert" changes (some records)
  obtain ⟨lines, hlog, hlines⟩ := hrun.2 w
  exact ⟨hrun.1 w, lines, hlog, Log.not_auditsFailure_of_lines hlines⟩

end Mutation

namespace Table

/-- Whatever the store answers, a call that changes records and fails leaves exactly one audit
record of it, with the mark of a failure, if and only if the table is connected or the call is an
addition.  On a table that is not connected every other call fails. -/
theorem failure_audited_iff (t : Table) (m : Mutation) (w : World σ) :
    let out := m.run service t w
    ∃ entries, out.2.log = w.log ++ entries ∧
      (m.failed out.1 = true →
        (Log.AuditsFailure m.operation t.collection.name entries ↔
          t.isConnected = true ∨ m.isAddition = true)) ∧
      (t.isConnected = false → m.isAddition = false → m.failed out.1 = true) := by
  intro out
  by_cases h : t.isConnected = true ∨ m.isAddition = true
  · have hnot : t.isConnected = false → m.isAddition = false → m.failed out.1 = true :=
      fun hconnected haddition => by simp [hconnected, haddition] at h
    obtain haudits | ⟨hsucceeds, hadds⟩ := m.audits_run service h
    · obtain ⟨lines, detail, hlog, hlines, hdetail⟩ := haudits w
      refine ⟨_, hlog, fun hfailed => iff_of_true ?_ h, hnot⟩
      rw [hfailed] at hdetail
      exact Log.auditsFailure_append_audit hlines hdetail
    · obtain ⟨lines, hlog, -⟩ := hadds w
      refine ⟨lines, hlog, fun hfailed => ?_, hnot⟩
      rw [hsucceeds w] at hfailed
      cases hfailed
  · -- the early return, ahead of the record
    have hunconnected : t.isConnected = false ∧ m.isAddition = false := by simpa using h
    obtain ⟨hfails, entries, hlog, hnot⟩ :=
      m.not_audited_of_unconnected service hunconnected.1 hunconnected.2 w
    exact ⟨entries, hlog, fun _ => iff_of_false hnot h, fun _ _ => hfails⟩

/-- The table of people before its first connect. -/
def unconnectedPeople : Table := { peopleTable with connected := false }

/-- While the store is out of reach, an update of a connected table fails at its first page, and an
addition to a table that is not connected fails before it asks for anything.  Both are audited. -/
theorem failure_audited_peopleTable :
    let w : World Memory := ⟨{ peopleWorld.store with available := false }, 0, []⟩
    let update : Mutation := .update .all [.empty] [[("age", .int 31)]]
    let addition : Mutation := .add [[.text "bob", .int 40, .text "Rome"]]
    let updated := update.run Memory.service peopleTable w
    let added := addition.run Memory.service unconnectedPeople w
    update.failed updated.1 = true ∧ Log.AuditsFailure "update" "people" updated.2.log ∧
      addition.failed added.1 = true ∧ Log.AuditsFailure "insert" "people" added.2.log := by
  intro w update addition updated added
  have hupdated : update.failed updated.1 = true := by decide +kernel
  have hadded : addition.failed added.1 = true := by decide +kernel
  obtain ⟨entries, hlog, haudited, -⟩ := failure_audited_iff Memory.service peopleTable update w
  obtain ⟨entries', hlog', haudited', -⟩ :=
    failure_audited_iff Memory.service unconnectedPeople addition w
  refine ⟨hupdated, ?_, hadded, ?_⟩
  · rw [hlog]
    exact (haudited hupdated).2 (.inl rfl)
  · rw [hlog']
    exact (haudited' hadded).2 (.inr rfl)

/-- On a table that is not connected a deletion and both updates fail without an audit record. -/
theorem not_failure_audited_unconnectedPeople :
    let deletion : Mutation := .delete .all [.empty]
    let update : Mutation := .update .all [.empty] [[("age", .int 31)]]
    let upsert : Mutation := .updateOrAdd .all [.empty] [[("age", .int 31)]]
      [[.text "bob", .int 40, .text "Rome"]]
    let deleted := deletion.run Memory.service unconnectedPeople peopleWorld
    let updated := update.run Memory.service unconnectedPeople peopleWorld
    let upserted := upsert.run Memory.service unconnectedPeople peopleWorld
    (deletion.failed deleted.1 = true ∧ ¬ Log.AuditsFailure "delete" "people" deleted.2.log) ∧
      (update.failed updated.1 = true ∧ ¬ Log.AuditsFailure "update" "people" updated.2.log) ∧
      (upsert.failed upserted.1 = true ∧ ¬ Log.AuditsFailure "upsert" "people" upserted.2.log) := by
  intro deletion update upsert deleted updated upserted
  have hfails : ∀ m : Mutation, m.isAddition = false →
      let out := m.run Memory.service unconnectedPeople peopleWorld
      m.failed out.1 = true ∧ ¬ Log.AuditsFailure m.operation "people" out.2.log := by
    intro m hm out
    obtain ⟨hfailed, entries, hlog, hnot⟩ := m.not_audited_of_unconnected Memory.service
      (t := unconnectedPeople) rfl hm peopleWorld
    refine ⟨hfailed, ?_⟩
    rw [hlog]
    exact hnot
  exact ⟨hfails deletion rfl, hfails update rfl, hfails upsert rfl⟩

end Table

end SearchTable
