import SearchTable.Proofs.Failure
import SearchTable.Proofs.Store.Writes
/-!
# Requests that fail

A request to the store in memory fails in one of two ways (`Fails`).  Either it is refused, and then
nothing has been changed at all: the store is closed or out of reach, the collection is not there,
or the query cannot be read (`Refusal`).  Or it is a write that has come to a document without an
identity; then the documents before that one have been written, and those behind it have never been
looked at (`Cuts`).

`store_of_failure` says what that leaves in the store.  For whole runs it means that failures leave
no traces of their own: a run ends in the store that a run of successful requests ends in, which are
the same ones with some left out and some writes cut short (`exists_succeeding_run`).
-/

namespace SearchTable

namespace Request

/-- The collection that has to be there for a request. -/
def target? : Request → Option String
  | syncSchema name .. | write name .. | delete name .. | query name .. => some name
  | ensure _ | close => none

/-- The query text that comes with a request. -/
def text? : Request → Option String
  | delete _ (.query text) _ | query _ text .. => some text
  | _ => none

end Request

namespace Memory

variable {m m' : Memory} {name : String} {r : Request} {e : StoreError} {c c' : Contents}
  {x : Document} {xs before : List Document} {reason : String}

/-! ## Writing several documents -/

/-- The reason for which a document cannot be written. -/
def missingId : String := "document without '" ++ idField ++ "'"

theorem put_eq_error_iff : c.put x = .error reason ↔ x.get? idField = none ∧ reason = missingId := by
  cases hid : x.get? idField with
  | none =>
    have hput : c.put x = .error missingId := by
      rw [Contents.put, hid]
      rfl
    rw [hput, Except.error.injEq, eq_comm, and_iff_right rfl]
  | some v =>
    rw [Contents.put, hid]
    constructor
    · intro h
      cases h
    · intro h
      cases h.1

/-- Documents that can all be written are written before others. -/
theorem putAll_append (h : c.putAll before = (none, c')) (xs : List Document) :
    c.putAll (before ++ xs) = c'.putAll xs := by
  induction before generalizing c with
  | nil =>
    obtain rfl : c = c' := congrArg Prod.snd h
    rfl
  | cons d ds ih =>
    rw [List.cons_append, Contents.putAll]
    rw [Contents.putAll] at h
    cases hput : c.put d with
    | ok c₁ =>
      rw [hput] at h
      exact ih h
    | error reason => simp [hput] at h

/-- Writing fails at the first document that cannot be written, and has written those before it. -/
theorem exists_of_putAll_error (h : c.putAll xs = (some reason, c')) :
    ∃ before x after, xs = before ++ x :: after ∧ c.putAll before = (none, c') ∧
      c'.put x = .error reason := by
  induction xs generalizing c with
  | nil => simp [Contents.putAll] at h
  | cons d ds ih =>
    rw [Contents.putAll] at h
    cases hput : c.put d with
    | ok c₁ =>
      rw [hput] at h
      obtain ⟨before, x, after, rfl, hbefore, hx⟩ := ih h
      refine ⟨d :: before, x, after, rfl, ?_, hx⟩
      rw [Contents.putAll, hput]
      exact hbefore
    | error reason' =>
      rw [hput] at h
      obtain ⟨hreason, rfl⟩ := Prod.mk.inj h
      obtain rfl := Option.some.inj hreason
      exact ⟨[], d, ds, rfl, rfl, hput⟩

/-! ## The ways of failing -/

/-- Why a request is refused. -/
inductive Refusal (m : Memory) : Request → StoreError → Prop
  | closed {r : Request} (h : m.closed = true) :
      Refusal m r (.connectionUnavailable .clientClosed)
  | unreachable {r : Request} (h : m.available = false) :
      Refusal m r (.connectionUnavailable .unreachable)
  | missing {r : Request} {name : String} (hname : r.target? = some name)
      (h : m.collections.get? name = none) :
      Refusal m r (.connectionUnavailable (.missingCollection name))
  /-- A collection that has a schema, but has not been created, counts as missing for a new one. -/
  | uncreated {name : String} {s : Schema} {merge : Bool} {c : Contents}
      (hc : m.collections.get? name = some c) (h : c.created = false) :
      Refusal m (.syncSchema name s merge) (.connectionUnavailable (.missingCollection name))
  | unreadable {r : Request} {text : String} {e : StoreError} (htext : r.text? = some text)
      (h : Query.parse text = .error e) : Refusal m r e

/-- A write of some documents, and of one that has no identity, stops behind the former ones. -/
structure Cuts (m : Memory) (name : String) (before : List Document) (x : Document) (m' : Memory) :
    Prop where
  isOpen : m.check = .ok ()
  written : ∃ c c', m.collections.get? name = some c ∧ c.putAll before = (none, c') ∧
    m' = m.setContents name c'
  noId : x.get? idField = none

/-- The ways in which a request fails, with the store that is left. -/
inductive Fails (m : Memory) : Request → StoreError → Memory → Prop
  | refused {r : Request} {e : StoreError} (h : Refusal m r e) : Fails m r e m
  | cut {name : String} {before : List Document} {x : Document} {m' : Memory}
      (h : Cuts m name before x m') (after : List Document) (async : Bool) :
      Fails m (.write name (before ++ x :: after) async) (.operation name "insert" missingId) m'

/-- The documents before the one without an identity can be written by themselves. -/
theorem Cuts.answer_before (h : Cuts m name before x m') (async : Bool) :
    answer (.write name before async) m = (.ok (), m') := by
  obtain ⟨c, c', hc, hbefore, rfl⟩ := h.written
  show m.write name before = _
  simp only [write, h.isOpen, contents_eq_ok_iff.2 hc, bind, Except.bind, hbefore]
  rfl

/-- The document without an identity ends the write, whatever stands behind it. -/
theorem Cuts.answer_append (h : Cuts m name before x m') (after : List Document) (async : Bool) :
    answer (.write name (before ++ x :: after) async) m =
      (.error (.operation name "insert" missingId), m') := by
  obtain ⟨c, c', hc, hbefore, rfl⟩ := h.written
  have hstop : c.putAll (before ++ x :: after) = (some missingId, c') := by
    rw [putAll_append hbefore, Contents.putAll, put_eq_error_iff.2 ⟨h.noId, rfl⟩]
  show m.write name (before ++ x :: after) = _
  simp only [write, h.isOpen, contents_eq_ok_iff.2 hc, bind, Except.bind, hstop]
  rfl

/-! ## What fails -/

theorem refusal_of_check (h : m.check = .error e) (r : Request) : Refusal m r e := by
  unfold check at h
  split at h
  · rename_i hclosed
    obtain rfl := Except.error.inj h
    exact .closed hclosed
  · split at h
    · rename_i havailable
      obtain rfl := Except.error.inj h
      exact .unreachable (by simpa using havailable)
    · cases h

theorem refusal_of_contents (hname : r.target? = some name) (h : m.contents name = .error e) :
    Refusal m r e := by
  unfold contents at h
  split at h
  · cases h
  · rename_i hnone
    obtain rfl := Except.error.inj h
    exact .missing hname hnone

theorem refusal_of_query {text : String} {offset limit : Nat}
    (h : m.query name text offset limit = .error e) :
    Refusal m (.query name text offset limit) e := by
  obtain hcheck | ⟨_, -, h⟩ := bind_eq_error_iff.1 h
  · exact refusal_of_check hcheck _
  obtain hparse | ⟨q, -, h⟩ := bind_eq_error_iff.1 h
  · exact .unreadable rfl hparse
  obtain hcontents | ⟨c, -, h⟩ := bind_eq_error_iff.1 h
  · exact refusal_of_contents rfl hcontents
  · cases h

theorem refusal_of_ensure {collection : Collection}
    (h : m.ensure collection = (.error e, m')) : Refusal m (.ensure collection) e ∧ m' = m := by
  unfold ensure at h
  split at h
  · rename_i hcheck
    obtain ⟨he, rfl⟩ := Prod.mk.inj h
    obtain rfl := Except.error.inj he
    exact ⟨refusal_of_check hcheck _, rfl⟩
  · cases h

theorem refusal_of_syncSchema {s : Schema} {merge : Bool}
    (h : m.syncSchema name s merge = (.error e, m')) :
    Refusal m (.syncSchema name s merge) e ∧ m' = m := by
  simp only [syncSchema] at h
  split at h
  · rename_i htarget
    obtain ⟨he, rfl⟩ := Prod.mk.inj h
    obtain rfl := Except.error.inj he
    refine ⟨?_, rfl⟩
    obtain hcheck | ⟨_, -, htarget⟩ := bind_eq_error_iff.1 htarget
    · exact refusal_of_check hcheck _
    obtain hcontents | ⟨c, hc, htarget⟩ := bind_eq_error_iff.1 htarget
    · exact refusal_of_contents rfl hcontents
    split at htarget
    · cases htarget
    · rename_i hcreated
      obtain rfl := Except.error.inj htarget
      exact .uncreated (contents_eq_ok_iff.1 hc) (by simpa using hcreated)
  · cases h

theorem refusal_of_delete {target : DeleteTarget} (async : Bool)
    (h : m.delete name target = (.error e, m')) :
    Refusal m (.delete name target async) e ∧ m' = m := by
  simp only [delete] at h
  split at h
  · rename_i hkept
    obtain ⟨he, rfl⟩ := Prod.mk.inj h
    obtain rfl := Except.error.inj he
    refine ⟨?_, rfl⟩
    obtain hcheck | ⟨_, -, hkept⟩ := bind_eq_error_iff.1 hkept
    · exact refusal_of_check hcheck _
    obtain hcontents | ⟨c, -, hkept⟩ := bind_eq_error_iff.1 hkept
    · exact refusal_of_contents rfl hcontents
    cases target with
    | ids ids => cases hkept
    | query text =>
      obtain hparse | ⟨q, -, hkept⟩ := bind_eq_error_iff.1 hkept
      · exact .unreadable rfl hparse
      · cases hkept
  · cases h

/-- A write that gets at its collection fails only in the middle of the documents. -/
theorem fails_of_write (async : Bool) (h : m.write name xs = (.error e, m')) :
    Fails m (.write name xs async) e m' := by
  simp only [write] at h
  split at h
  · rename_i hopened
    obtain ⟨he, rfl⟩ := Prod.mk.inj h
    obtain rfl := Except.error.inj he
    obtain hcheck | ⟨_, -, hcontents⟩ := bind_eq_error_iff.1 hopened
    · exact .refused (refusal_of_check hcheck _)
    · exact .refused (refusal_of_contents rfl hcontents)
  · rename_i c hopened
    obtain ⟨_, hcheck, hcontents⟩ := bind_eq_ok_iff.1 hopened
    obtain ⟨hresult, rfl⟩ := Prod.mk.inj h
    cases hput : c.putAll xs with
    | mk failure c' =>
      rw [hput] at hresult
      cases failure with
      | none => cases hresult
      | some reason =>
        obtain rfl := Except.error.inj hresult
        obtain ⟨before, x, after, rfl, hbefore, hx⟩ := exists_of_putAll_error hput
        obtain ⟨hid, rfl⟩ := put_eq_error_iff.1 hx
        exact .cut ⟨hcheck, ⟨c, c', contents_eq_ok_iff.1 hcontents, hbefore, rfl⟩, hid⟩ after async

/-- Every failure is one of these. -/
theorem fails_of_answer (h : answer r m = (.error e, m')) : Fails m r e m' := by
  cases r with
  | ensure collection =>
    obtain ⟨hrefusal, rfl⟩ := refusal_of_ensure h
    exact .refused hrefusal
  | syncSchema name s merge =>
    obtain ⟨hrefusal, rfl⟩ := refusal_of_syncSchema h
    exact .refused hrefusal
  | write name xs async => exact fails_of_write async h
  | delete name target async =>
    obtain ⟨hrefusal, rfl⟩ := refusal_of_delete async h
    exact .refused hrefusal
  | query name text offset limit =>
    obtain ⟨hquery, rfl⟩ := Prod.mk.inj h
    exact .refused (refusal_of_query hquery)
  | close => cases h

/-- A request that fails for another reason than a document without an identity has changed nothing.
A write that has come to such a document leaves what a write of the documents before it leaves, and
does so whatever documents follow. -/
theorem store_of_failure (h : answer r m = (.error e, m')) :
    Refusal m r e ∧ m' = m ∨
      ∃ name before x after async, r = .write name (before ++ x :: after) async ∧
        x.get? idField = none ∧ e = .operation name "insert" missingId ∧
        answer (.write name before async) m = (.ok (), m') ∧
        ∀ later, answer (.write name (before ++ x :: later) async) m = (.error e, m') := by
  cases fails_of_answer h with
  | refused hrefusal => exact .inl ⟨hrefusal, rfl⟩
  | @cut name before x _ hcut after async =>
    exact .inr ⟨name, before, x, after, async, rfl, hcut.noId, rfl, hcut.answer_before async,
      fun later => hcut.answer_append later async⟩

/-- A store with one document, which has been written first. -/
def oneDocument : Memory :=
  empty.setContents "people" ⟨true, none, [⟨[("id", .text "a"), ("_version_", .int64 1)]⟩], 1⟩

/-- Of three documents the second one has no identity, so the third one is not written. -/
theorem store_of_failure_oneDocument :
    let r := Request.write "people" [⟨[("id", .text "b")]⟩, ⟨[]⟩, ⟨[("id", .text "c")]⟩] true
    ∃ e m', answer r oneDocument = (.error e, m') ∧
      m'.collections.get? "people" = some ⟨true, none,
        [⟨[("id", .text "a"), ("_version_", .int64 1)]⟩,
          ⟨[("id", .text "b"), ("_version_", .int64 2)]⟩], 2⟩ ∧
      (Refusal oneDocument r e ∧ m' = oneDocument ∨
        ∃ name before x after async, r = .write name (before ++ x :: after) async ∧
          x.get? idField = none ∧ e = .operation name "insert" missingId ∧
          answer (.write name before async) oneDocument = (.ok (), m') ∧
          ∀ later, answer (.write name (before ++ x :: later) async) oneDocument =
            (.error e, m')) := by
  intro r
  exact ⟨_, _, rfl, by decide +kernel, store_of_failure rfl⟩

/-! ## Runs -/

/-- The store after requests, however they are answered. -/
def afterAll (m : Memory) (rs : List Request) : Memory := rs.foldl (fun m r => (answer r m).2) m

/-- Requests that are put one after the other all succeed. -/
inductive Succeeds : Memory → List Request → Prop
  | nil (m : Memory) : Succeeds m []
  | cons {m m' : Memory} {r : Request} {a : r.Answer} {rs : List Request}
      (h : answer r m = (.ok a, m')) (hrest : Succeeds m' rs) : Succeeds m (r :: rs)

/-- A request, or a write of its first documents. -/
inductive IsPart : Request → Request → Prop
  | whole (r : Request) : IsPart r r
  | cut (name : String) (before after : List Document) (async : Bool) :
      IsPart (.write name before async) (.write name (before ++ after) async)

theorem afterAll_cons {result : Except StoreError r.Answer} (h : answer r m = (result, m'))
    (rs : List Request) : afterAll m (r :: rs) = afterAll m' rs := by
  rw [afterAll, List.foldl_cons, h]
  rfl

/-- What requests leave, successful ones would have left as well: some of them are left out, and some
writes end earlier. -/
theorem exists_succeeding_run (m : Memory) (rs : List Request) :
    ∃ rs', List.SublistForall₂ IsPart rs' rs ∧ Succeeds m rs' ∧ afterAll m rs' = afterAll m rs := by
  induction rs generalizing m with
  | nil => exact ⟨[], .nil, .nil m, rfl⟩
  | cons r rs ih =>
    obtain ⟨rs', hparts, hsucceeds, hafter⟩ := ih (answer r m).2
    cases hanswer : answer r m with
    | mk result m' =>
      rw [hanswer] at hsucceeds hafter
      cases result with
      | ok a =>
        refine ⟨r :: rs', .cons (.whole r) hparts, .cons hanswer hsucceeds, ?_⟩
        rw [afterAll_cons hanswer, afterAll_cons hanswer, hafter]
      | error e =>
        rw [afterAll_cons hanswer]
        cases fails_of_answer hanswer with
        | refused _ => exact ⟨rs', .cons_right hparts, hsucceeds, hafter⟩
        | @cut name before x _ hcut after async =>
          have hbefore := hcut.answer_before async
          refine ⟨.write name before async :: rs', .cons (.cut name before _ async) hparts,
            .cons hbefore hsucceeds, ?_⟩
          rw [afterAll_cons hbefore, hafter]

end Memory

end SearchTable
