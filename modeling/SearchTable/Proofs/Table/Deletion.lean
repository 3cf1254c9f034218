import SearchTable.Proofs.Table.Matches
/-!
# Deleting by a condition

A deletion is made for one set of values after the other.  A set that leaves a placeholder without
a value, or whose query cannot be read, is reported and passed over; every other one filters the
collection that the sets before it have left.

`deleteEach_memory` follows the sets by induction: what is left is the collection filtered once, by
what none of them takes.  As that does not depend on the order of the sets, nor on those that are
passed over, `Table.delete_exact` says so of whole calls.
-/

namespace SearchTable

open Memory Condition

namespace Condition

variable {condition : Condition} {params : Bindings} {q : Query.Node}

/-- The query of a condition for the given values, if it can be resolved and read. -/
def node? (condition : Condition) (params : Bindings) : Option Query.Node :=
  ((condition.resolve params).bind Query.parse).toOption

/-- Whether there is no query for the given values that holds of a document. -/
def spares (condition : Condition) (params : Bindings) (d : Document) : Bool :=
  (condition.node? params).all fun q => !q.holds d

theorem node?_eq_some_iff : condition.node? params = some q ↔
    ∃ text, condition.resolve params = .ok text ∧ Query.parse text = .ok q := by
  rw [node?]
  cases condition.resolve params with
  | error e => simp [Except.bind, Except.toOption]
  | ok text => cases hparse : Query.parse text <;> simp [Except.bind, Except.toOption, hparse]

end Condition

namespace Memory

/-- The contents with the documents that a condition spares for all of several sets of values. -/
def Contents.without (c : Contents) (condition : Condition) (sets : List Bindings) : Contents :=
  { c with documents := c.documents.filter fun d => sets.all (condition.spares · d) }

variable {c : Contents} {condition : Condition} {params : Bindings} {sets : List Bindings}

theorem without_nil (c : Contents) (condition : Condition) : c.without condition [] = c := by
  simp [Contents.without]

/-- The sets of values act one after the other. -/
theorem without_cons (c : Contents) (condition : Condition) (params : Bindings)
    (sets : List Bindings) :
    c.without condition (params :: sets) =
      (c.without condition [params]).without condition sets := by
  simp [Contents.without, Bool.and_comm]

/-- A set of values without a query changes nothing. -/
theorem without_singleton_of_none (h : condition.node? params = none) (c : Contents) :
    c.without condition [params] = c := by
  simp [Contents.without, Condition.spares, h]

theorem without_perm {sets' : List Bindings} (h : sets.Perm sets') (c : Contents)
    (condition : Condition) : c.without condition sets = c.without condition sets' := by
  simp only [Contents.without, h.all_eq]

/-- What the query of one of the sets of values holds of is gone. -/
theorem select_without (hparams : params ∈ sets) {q : Query.Node}
    (hq : condition.node? params = some q) (c : Contents) :
    (c.without condition sets).select q = [] := by
  refine List.filter_eq_nil_iff.2 fun d hd hholds => ?_
  have hspares := List.all_eq_true.1 (List.mem_filter.1 hd).2 params hparams
  simp [Condition.spares, hq, hholds] at hspares

end Memory

namespace Table

variable {t : Table} {w : World Memory} {c : Contents} {condition : Condition} {params : Bindings}

/-! ## One set of values -/

section One

variable (hopen : w.store.check = .ok ())
  (hcontents : w.store.collections.get? t.collection.name = some c)

include hopen hcontents

/-- A deletion whose query can be read takes what the query holds of. -/
theorem deleteOne_of_some {q : Query.Node} (hq : condition.node? params = some q) :
    t.deleteOne Memory.service condition params w =
      (.ok (), { w with
        store := w.store.setContents t.collection.name (c.without condition [params]) }) := by
  obtain ⟨text, hresolve, hparse⟩ := Condition.node?_eq_some_iff.1 hq
  have hwithout : c.without condition [params] =
      { c with documents := c.documents.filter fun d => !q.holds d } := by
    simp [Contents.without, Condition.spares, hq]
  have hdelete : w.store.delete t.collection.name (.query text) =
      (.ok (), w.store.setContents t.collection.name (c.without condition [params])) := by
    simp only [Memory.delete, hopen, contents_eq_ok_iff.2 hcontents, hparse, bind, Except.bind,
      hwithout]
  simp only [deleteOne, hresolve, Act.ask, Memory.service, answer, hdelete]
  rfl

/-- A deletion without a query changes nothing. -/
theorem deleteOne_of_none (hq : condition.node? params = none) :
    ∃ e, t.deleteOne Memory.service condition params w = (.error e, w) := by
  cases hresolve : condition.resolve params with
  | error e => exact ⟨e, by simp only [deleteOne, hresolve]; rfl⟩
  | ok text =>
    cases hparse : Query.parse text with
    | ok q => simp [Condition.node?_eq_some_iff.2 ⟨text, hresolve, hparse⟩] at hq
    | error e =>
      have hdelete : w.store.delete t.collection.name (.query text) = (.error e, w.store) := by
        simp only [Memory.delete, hopen, contents_eq_ok_iff.2 hcontents, hparse, bind, Except.bind]
      refine ⟨e, ?_⟩
      simp only [deleteOne, hresolve, Act.ask, Memory.service, answer, hdelete]
      rfl

end One

/-! ## Several sets of values -/

section Several

variable {σ : Type} {service : Service σ} {v v' : World σ}

/-- A deletion that is done is counted. -/
theorem deleteEach_cons_of_ok (h : t.deleteOne service condition params v = (.ok (), v'))
    (sets : List Bindings) (report : DeleteReport) :
    t.deleteEach service condition (params :: sets) report v =
      t.deleteEach service condition sets { report with requests := report.requests + 1 } v' := by
  simp only [deleteEach, bind, StateT.bind, h]

/-- A deletion that fails is noted in the report and the log. -/
theorem deleteEach_cons_of_error {e : StoreError}
    (h : t.deleteOne service condition params v = (.error e, v'))
    (sets : List Bindings) (report : DeleteReport) :
    ∃ log, t.deleteEach service condition (params :: sets) report v =
      t.deleteEach service condition sets { report with failed := true }
        { v' with log := log } := by
  simp only [deleteEach, bind, StateT.bind, h]
  exact ⟨_, rfl⟩

end Several

/-- The sets are counted by whether they have a query, and what all of them spare is left. -/
theorem deleteEach_memory (hopen : w.store.check = .ok ())
    (hcontents : w.store.collections.get? t.collection.name = some c) (condition : Condition)
    (sets : List Bindings) (report : DeleteReport) :
    ∃ log, t.deleteEach Memory.service condition sets report w =
      (⟨report.requests + sets.countP fun params => (condition.node? params).isSome,
          report.failed || sets.any fun params => (condition.node? params).isNone⟩,
        { w with
          store := w.store.setContents t.collection.name (c.without condition sets)
          log := log }) := by
  induction sets generalizing w c report with
  | nil =>
    refine ⟨w.log, ?_⟩
    rw [without_nil, setContents_self hcontents]
    simp [deleteEach]
    rfl
  | cons params sets ih =>
    rw [without_cons]
    cases hq : condition.node? params with
    | some q =>
      rw [deleteEach_cons_of_ok (deleteOne_of_some hopen hcontents hq)]
      obtain ⟨log, hrest⟩ := ih (w := { w with
        store := w.store.setContents t.collection.name (c.without condition [params]) }) hopen
        (get?_setContents _ _ _) { report with requests := report.requests + 1 }
      refine ⟨log, hrest.trans ?_⟩
      simp only [List.countP_cons, List.any_cons, hq, setContents_setContents]
      simp [Nat.add_assoc, Nat.add_comm]
    | none =>
      obtain ⟨e, hone⟩ := deleteOne_of_none hopen hcontents hq
      obtain ⟨log, hfirst⟩ := deleteEach_cons_of_error hone sets report
      obtain ⟨log', hrest⟩ := ih (w := { w with log := log }) hopen hcontents
        { report with failed := true }
      rw [without_singleton_of_none hq]
      refine ⟨log', hfirst.trans (hrest.trans ?_)⟩
      simp [hq]

/-! ## Calls -/

section Calls

variable (hconnected : t.isConnected = true) (hopen : w.store.check = .ok ())
  (hcontents : w.store.collections.get? t.collection.name = some c)

include hconnected hopen hcontents

theorem delete_memory (condition : Condition) (sets : List Bindings) :
    ∃ log, t.delete Memory.service condition sets w =
      (⟨sets.countP fun params => (condition.node? params).isSome,
          sets.any fun params => (condition.node? params).isNone⟩,
        { w with
          store := w.store.setContents t.collection.name (c.without condition sets)
          log := log }) := by
  obtain ⟨log, heach⟩ := deleteEach_memory hopen hcontents condition sets ⟨0, false⟩
  rw [Nat.zero_add, Bool.false_or] at heach
  simp only [delete, checkConnected_eq_ok hconnected, bind, StateT.bind, heach]
  exact ⟨_, rfl⟩

/-- A deletion leaves the documents that match for none of its sets of values, in their order and
unchanged.  It counts the sets that have a query, and fails exactly when another one is among them.
The order of the sets plays no part, and no set that has a query matches anything afterwards. -/
theorem delete_exact (condition : Condition) (sets : List Bindings) :
    let out := t.delete Memory.service condition sets w
    let kept := c.documents.filter fun d => sets.all fun params => condition.spares params d
    out.2.store = w.store.setContents t.collection.name { c with documents := kept } ∧
    out.1.requests = sets.countP (fun params => (condition.node? params).isSome) ∧
    (out.1.failed = true ↔ ∃ params ∈ sets, condition.node? params = none) ∧
    (∀ sets', sets'.Perm sets →
      (t.delete Memory.service condition sets' w).1 = out.1 ∧
      (t.delete Memory.service condition sets' w).2.store = out.2.store) ∧
    ∀ params ∈ sets, condition.node? params ≠ none →
      t.contains Memory.service params condition out.2 = (.ok false, out.2) := by
  intro out kept
  obtain ⟨log, hout⟩ := delete_memory hconnected hopen hcontents condition sets
  refine ⟨?_, ?_, ?_, fun sets' hperm => ?_, fun params hparams hq => ?_⟩
  · simp only [out, hout]
    rfl
  · simp only [out, hout]
  · simp [out, hout]
  · obtain ⟨log', hout'⟩ := delete_memory hconnected hopen hcontents condition sets'
    simp only [out, hout, hout', hperm.countP_eq, hperm.any_eq, without_perm hperm, and_self]
  · obtain ⟨q, hq⟩ := Option.ne_none_iff_exists'.1 hq
    obtain ⟨text, hresolve, hparse⟩ := Condition.node?_eq_some_iff.1 hq
    have hopen' : out.2.store.check = .ok () := by
      simp only [out, hout]
      exact hopen
    have hcontents' : out.2.store.collections.get? t.collection.name =
        some (c.without condition sets) := by
      simp only [out, hout, get?_setContents]
    rw [contains_memory hconnected hopen' hcontents' hresolve hparse,
      select_without hparams hq c]
    rfl

end Calls

theorem delete_exact_peopleTable :
    let condition := compile (.compare .greaterEqual (.field "name" .string) (.variable "who"))
    let sets : List Bindings :=
      [.ofList [("who", .text "")], .empty, .ofList [("who", .text "al")]]
    let out := peopleTable.delete Memory.service condition sets peopleWorld
    out.1.requests = 1 ∧ out.1.failed = true ∧
      out.2.store = peopleWorld.store.setContents "people" { peopleContents with documents := [] } ∧
      peopleTable.contains Memory.service (.ofList [("who", .text "al")]) condition out.2 =
        (.ok false, out.2) := by
  intro condition sets out
  obtain ⟨hstore, hrequests, hfailed, -, hcontains⟩ :=
    delete_exact (t := peopleTable) (w := peopleWorld) rfl rfl (get?_setContents _ _ _) condition
      sets
  have hcount : sets.countP (fun params => (condition.node? params).isSome) = 1 := by
    decide +kernel
  have hunbound : condition.node? .empty = none := Option.isNone_iff_eq_none.1 (by decide +kernel)
  have hread : (condition.node? (.ofList [("who", .text "al")])).isSome = true := by decide +kernel
  have hkept : peopleContents.documents.filter
      (fun d => sets.all fun params => condition.spares params d) = [] := by decide +kernel
  rw [hkept] at hstore
  exact ⟨hrequests.trans hcount, hfailed.2 ⟨.empty, by simp [sets], hunbound⟩, hstore,
    hcontains _ (by simp [sets]) (Option.isSome_iff_ne_none.1 hread)⟩

end Table

end SearchTable
