import SearchTable.Proofs.Store.Uses
/-!
# Paged and unpaged reading

A cursor is used any number of times, in any order, over a store in memory whose requests fail as
planned.  The documents that it delivers are the matches of its query in storage order, none of them
skipped or repeated, and a request that has failed is made again by the next use that needs its page
(`readsUnpaged_runAll`).

`After` is the invariant of a run.  As long as no step has failed, it says what is left and how many
pages have been received; from the end on, or the error of a step, the cursor is spent, and every
use after that is silent.
-/

namespace SearchTable.Cursor

open Memory

variable {σ : Type} {found rest : List Document} {c : Cursor}

/-! ## Replies one after the other -/

/-- The documents that are delivered by replies. -/
def deliveredBy (replies : List Reply) : List Document := replies.filterMap Reply.delivered

/-- Whether some reply says that there is nothing more. -/
def ended (replies : List Reply) : Bool := replies.any Reply.isEnd

/-- Whether some reply is the error of a step, after which there is nothing more. -/
def closed (replies : List Reply) : Bool := replies.any Reply.isLast

/-- The matches that are left after replies. -/
def left (found : List Document) (replies : List Reply) : List Document :=
  if closed replies then [] else found.drop (deliveredBy replies).length

section Replies

variable {replies : List Reply} {r : Reply} {u : Use}

theorem deliveredBy_append (replies : List Reply) (r : Reply) :
    deliveredBy (replies ++ [r]) = deliveredBy replies ++ r.delivered.toList := by
  rw [deliveredBy, List.filterMap_append, deliveredBy]
  cases h : r.delivered <;> simp [h]

@[simp] theorem ended_append (replies : List Reply) (r : Reply) :
    ended (replies ++ [r]) = (ended replies || r.isEnd) := by
  simp [ended]

@[simp] theorem closed_append (replies : List Reply) (r : Reply) :
    closed (replies ++ [r]) = (closed replies || r.isLast) := by
  simp [closed]

@[simp] theorem isEnd_answer (rest : List Document) (u : Use) :
    (u.answer rest).isEnd = rest.isEmpty := by
  cases u <;> cases rest <;> rfl

@[simp] theorem isLast_answer (rest : List Document) (u : Use) : (u.answer rest).isLast = false := by
  cases u <;> cases rest <;> rfl

@[simp] theorem isError_answer (rest : List Document) (u : Use) :
    (u.answer rest).isError = false := by
  cases u <;> cases rest <;> rfl

@[simp] theorem delivered_answer_nil (u : Use) : (u.answer []).delivered = none := by
  cases u <;> rfl

@[simp] theorem delivered_failure (e : StoreError) (u : Use) : (u.failure e).delivered = none := by
  cases u <;> rfl

@[simp] theorem isEnd_failure (e : StoreError) (u : Use) : (u.failure e).isEnd = false := by
  cases u <;> rfl

@[simp] theorem isError_failure (e : StoreError) (u : Use) : (u.failure e).isError = true := by
  cases u <;> rfl

@[simp] theorem isLast_failure (e : StoreError) (u : Use) :
    (u.failure e).isLast = decide (u = .step) := by
  cases u <;> rfl

/-- A use that is answered delivers the first of what is left, or nothing. -/
theorem append_leaves (rest : List Document) (u : Use) :
    (u.answer rest).delivered.toList ++ u.leaves rest = rest := by
  cases u <;> cases rest <;> rfl

theorem deliveredBy_append_leaves (h : deliveredBy replies ++ rest = found) (u : Use) :
    deliveredBy (replies ++ [u.answer rest]) ++ u.leaves rest = found := by
  rw [deliveredBy_append, List.append_assoc, append_leaves, h]

/-- What is left is what follows the delivered documents. -/
theorem drop_deliveredBy (h : deliveredBy replies ++ rest = found) :
    found.drop (deliveredBy replies).length = rest := by
  rw [← h, List.drop_left]

theorem left_of_closed (h : closed replies = true) : left found replies = [] := by
  rw [left, if_pos h]

theorem left_of_not_closed (h : closed replies = false) :
    left found replies = found.drop (deliveredBy replies).length := by
  rw [left, if_neg (by simp [h])]

end Replies

/-! ## The invariant -/

section After

variable {contents : Contents} {q : Query.Node} {name text : String} {batch : Nat}
  {failures : Nat → Option StoreError} {start w w' w'' : World (Unreliable Memory)}
  {replies : List Reply} {c' c'' : Cursor}

theorem Continues.trans {rest' : List Document} {calls calls' : List Call}
    (h : Continues found c c' w w' rest) (h' : Continues found c' c'' w' w'' rest')
    (hcalls : w'.store.calls = w.store.calls ++ calls)
    (hcalls' : w''.store.calls = w'.store.calls ++ calls') :
    Continues found c c'' w w'' rest' where
  stands := h'.stands
  collection := h'.collection.trans h.collection
  query := h'.query.trans h.query
  batch := h'.batch.trans h.batch
  refills := by
    rw [h'.refills, h.refills, Unreliable.callsSince_append hcalls hcalls',
      Unreliable.callsSince_eq hcalls, Unreliable.callsSince_eq hcalls', List.countP_append,
      Nat.add_assoc]

/-- A cursor and the world after uses that have given some replies. -/
structure After (found : List Document) (name text : String) (batch : Nat)
    (start : World (Unreliable Memory)) (replies : List Reply) (c : Cursor)
    (w : World (Unreliable Memory)) : Prop where
  store_eq : w.store.store = start.store.store
  calls : w.store.calls = start.store.calls ++ Unreliable.callsSince start w
  failures : (Unreliable.callsSince start w).countP (!·.succeeded) = replies.countP Reply.isError
  delivered : deliveredBy replies <+: found
  continues : closed replies = false →
    Continues found (make name text batch) c start w (found.drop (deliveredBy replies).length)
  spent : (ended replies || closed replies) = true → Spent c

theorem after_make (found : List Document) (name text : String) (batch : Nat)
    (start : World (Unreliable Memory)) :
    After found name text batch start [] (make name text batch) start where
  store_eq := rfl
  calls := by rw [Unreliable.callsSince_self, List.append_nil]
  failures := by rw [Unreliable.callsSince_self]; rfl
  delivered := List.nil_prefix
  continues _ := ⟨stands_make found name text batch, rfl, rfl, rfl, by
    rw [Unreliable.callsSince_self]; rfl⟩
  spent h := by simp [ended, closed] at h

/-- The replies so far and what is left make up the matches. -/
theorem After.append_drop (h : After found name text batch start replies c w) :
    deliveredBy replies ++ found.drop (deliveredBy replies).length = found :=
  (List.prefix_iff_eq_append.1 h.delivered)

/-- After the error of a step the cursor makes no request any more. -/
theorem After.append_of_closed (h : After found name text batch start replies c w)
    (hclosed : closed replies = true) (u : Use) :
    After found name text batch start (replies ++ [u.answer []]) { c with state := .exhausted } w
    where
  store_eq := h.store_eq
  calls := h.calls
  failures := by simp [h.failures]
  delivered := by simpa [deliveredBy_append] using h.delivered
  continues hopen := by simp [hclosed] at hopen
  spent _ :=
    have hspent := h.spent (by simp [hclosed])
    ⟨hspent.buffer, hspent.lastPage⟩

/-- A use of a cursor that is not closed keeps the invariant. -/
theorem After.append (h : After found name text batch start replies c w)
    (hclosed : closed replies = false) {u : Use} {o : Option StoreError} {page : Request}
    (hasks : Asks failures page w o w')
    (hused : Used found c c' w w' (found.drop (deliveredBy replies).length) u o)
    (hspent : ended replies = true → Spent c') :
    After found name text batch start
      (replies ++ [u.reply (found.drop (deliveredBy replies).length) o]) c' w' := by
  obtain ⟨calls, hcalls, hcount⟩ := hasks.calls
  have hsince := Unreliable.callsSince_append h.calls hcalls
  have hcontinues := h.continues hclosed
  have hall := h.append_drop
  generalize hrest : found.drop (deliveredBy replies).length = rest at *
  have hstore : w'.store.store = start.store.store := hasks.store_eq.trans h.store_eq
  have hcallsEq : w'.store.calls = start.store.calls ++ Unreliable.callsSince start w' := by
    rw [hsince, hcalls, h.calls, List.append_assoc]
  cases o with
  | none =>
    have hdelivered := deliveredBy_append_leaves hall u
    refine ⟨hstore, hcallsEq, ?_, ⟨_, hdelivered⟩, fun _ => ?_, fun hend => ?_⟩
    · rw [hsince, List.countP_append, h.failures, hcount]
      simp [Use.reply]
    · rw [Use.reply, drop_deliveredBy hdelivered]
      exact hcontinues.trans (hused.answered rfl) h.calls hcalls
    · simp only [Use.reply, ended_append, closed_append, isEnd_answer, isLast_answer, hclosed,
        Bool.or_false, Bool.or_eq_true, List.isEmpty_iff] at hend
      exact hend.elim hspent (hused.ended rfl)
  | some e =>
    have hdelivered : deliveredBy (replies ++ [u.failure e]) = deliveredBy replies := by
      simp [deliveredBy_append]
    refine ⟨hstore, hcallsEq, ?_, ?_, fun hopen => ?_, fun hend => ?_⟩
    · rw [hsince, List.countP_append, h.failures, hcount]
      simp [Use.reply]
    · exact hdelivered.symm ▸ h.delivered
    · have hu : u ≠ .step := by simpa [Use.reply, hclosed] using hopen
      rw [Use.reply, hdelivered, hrest]
      exact hcontinues.trans (hused.failed (by simp) hu) h.calls hcalls
    · simp only [Use.reply, ended_append, closed_append, isEnd_failure, isLast_failure, hclosed,
        Bool.or_false, Bool.false_or, Bool.or_eq_true, decide_eq_true_eq] at hend
      exact hend.elim hspent (hused.closed (by simp))

/-- A cursor that has come to the end has received all pages. -/
theorem After.succeeded_eq (h : After found name text batch start replies c w)
    (hend : ended replies = true) (hclosed : closed replies = false) :
    (Unreliable.callsSince start w).countP Call.succeeded =
      max 1 (found.length ⌈/⌉ max 1 batch) := by
  have hcontinues := h.continues hclosed
  have hlast := hcontinues.stands.pages.last (h.spent (by simp [hend])).lastPage
  rw [hcontinues.refills, hcontinues.batch] at hlast
  simpa [make] using hlast

variable (hopen : start.store.store.check = .ok ())
  (hcontents : start.store.store.collections.get? name = some contents)
  (hparse : Query.parse text = .ok q)

include hopen hcontents hparse

/-- One use more. -/
theorem After.use (h : After (contents.select q) name text batch start replies c w)
    (failures : Nat → Option StoreError) (u : Use) :
    ∃ o c' w', u.run (Unreliable.service Memory.service failures) c w =
        ((u.reply (left (contents.select q) replies) o, c'), w') ∧
      Asks failures (.query name text (deliveredBy replies).length (max 1 batch)) w o w' ∧
      After (contents.select q) name text batch start
        (replies ++ [u.reply (left (contents.select q) replies) o]) c' w' := by
  by_cases hclosed : closed replies = true
  · rw [left_of_closed hclosed]
    exact ⟨none, _, w, (h.spent (by simp [hclosed])).run _ w u, .nothing,
      h.append_of_closed hclosed u⟩
  · have hclosed : closed replies = false := by simpa using hclosed
    rw [left_of_not_closed hclosed]
    have hcontinues := h.continues hclosed
    have hk := h.delivered.length_le
    obtain ⟨o, c', w', hrun, hasks, hused⟩ := run_unreliable failures
      (h.store_eq ▸ hopen) (by rw [hcontinues.collection, h.store_eq]; exact hcontents)
      (by rw [hcontinues.query]; exact hparse) hcontinues.stands u
    rw [hcontinues.collection, hcontinues.query, hcontinues.batch,
      hcontinues.stands.position_eq hk] at hasks
    refine ⟨o, c', w', hrun, hasks, h.append hclosed hasks hused fun hend => ?_⟩
    have hspent := h.spent (by simp [hend])
    have hquiet := hspent.run (Unreliable.service Memory.service failures) w u
    obtain ⟨-, rfl⟩ := Prod.mk.inj (Prod.mk.inj (hrun.symm.trans hquiet)).1
    exact ⟨hspent.buffer, hspent.lastPage⟩

/-- Any number of uses more. -/
theorem After.runAll (h : After (contents.select q) name text batch start replies c w)
    (us : List Use) :
    After (contents.select q) name text batch start
      (replies ++ (runAll (Unreliable.service Memory.service failures) c us w).1.1)
      (runAll (Unreliable.service Memory.service failures) c us w).1.2
      (runAll (Unreliable.service Memory.service failures) c us w).2 := by
  induction us generalizing replies c w with
  | nil => simpa [Cursor.runAll, pure, StateT.pure] using h
  | cons u us ih =>
    obtain ⟨o, c', w', hrun, -, hafter⟩ := h.use hopen hcontents hparse failures u
    have hrest := ih hafter
    rw [List.append_assoc, List.singleton_append] at hrest
    have hcons : Cursor.runAll (Unreliable.service Memory.service failures) c (u :: us) w =
        ((u.reply (left (contents.select q) replies) o ::
            (Cursor.runAll (Unreliable.service Memory.service failures) c' us w').1.1,
          (Cursor.runAll (Unreliable.service Memory.service failures) c' us w').1.2),
          (Cursor.runAll (Unreliable.service Memory.service failures) c' us w').2) := by
      simp only [Cursor.runAll, bind, StateT.bind, hrun]
      rfl
    rw [hcons]
    exact hrest

/-- Without failures a cursor that is drained delivers what is left. -/
theorem After.drain (h : After (contents.select q) name text batch start replies c w)
    (hnone : ∀ n, failures n = none) (hclosed : closed replies = false)
    (herrors : replies.countP Reply.isError = 0) {fuel : Nat}
    (hfuel : (left (contents.select q) replies).length < fuel) :
    ∃ replies' c' w', drain (Unreliable.service Memory.service failures) fuel c w =
        (.ok (left (contents.select q) replies), w') ∧
      After (contents.select q) name text batch start replies' c' w' ∧
      ended replies' = true ∧ closed replies' = false ∧ replies'.countP Reply.isError = 0 := by
  induction fuel generalizing replies c w with
  | zero => omega
  | succ fuel ih =>
    obtain ⟨o, c', w', hrun, hasks, hafter⟩ :=
      h.use hopen hcontents hparse failures .next
    obtain rfl : o = none := by
      cases hasks with
      | nothing => rfl
      | page _ => rfl
      | failure hfails => simp [hnone] at hfails
    have hnext := next_of_run hrun
    have hclosed' : closed (replies ++ [Use.next.answer (left (contents.select q) replies)]) =
        false := by simp [hclosed]
    have herrors' : (replies ++ [Use.next.answer (left (contents.select q) replies)]).countP
        Reply.isError = 0 := by simp [herrors]
    cases hleft : left (contents.select q) replies with
    | nil =>
      rw [hleft] at hnext hafter hclosed' herrors'
      refine ⟨_, c', w', ?_, hafter, by simp [Use.reply], hclosed', herrors'⟩
      simp only [Cursor.drain, bind, StateT.bind, hnext]
      rfl
    | cons d ds =>
      have hrest : left (contents.select q)
          (replies ++ [Use.next.answer (left (contents.select q) replies)]) = ds := by
        rw [left_of_not_closed hclosed', left_of_not_closed hclosed,
          drop_deliveredBy (deliveredBy_append_leaves h.append_drop .next),
          ← left_of_not_closed hclosed, hleft]
        rfl
      obtain ⟨replies', c'', w'', hdrain, hlast⟩ := ih hafter hclosed' herrors' (by
        rw [hleft, List.length_cons] at hfuel
        rw [Use.reply, hrest]
        omega)
      refine ⟨replies', c'', w'', ?_, hlast⟩
      rw [Use.reply, hrest] at hdrain
      rw [hleft] at hnext
      simp only [Cursor.drain, bind, StateT.bind, hnext, List.head?_cons, hdrain]
      rfl

end After

/-! ## The paged reading and the unpaged one -/

section Unpaged

variable {contents : Contents} {q : Query.Node} {name text : String}
  {start : World (Unreliable Memory)}

/-- A cursor that has given some replies delivers the matches `found` as if it had them all at
once. -/
structure ReadsUnpaged (found : List Document) (name text : String) (batch : Nat)
    (failures : Nat → Option StoreError) (start : World (Unreliable Memory)) (replies : List Reply)
    (c : Cursor) (w : World (Unreliable Memory)) : Prop where
  /-- None of the matches is skipped, repeated or out of order. -/
  delivered : deliveredBy replies <+: found
  /-- Any use comes next: it answers from what is left, after at most one request, for the page at
  the first match that has not been delivered; or that request fails as planned, and so does the
  use. -/
  next : ∀ u : Use, ∃ o,
    (u.run (Unreliable.service Memory.service failures) c w).1.1 = u.reply (left found replies) o ∧
      Asks failures (.query name text (deliveredBy replies).length (max 1 batch)) w o
        (u.run (Unreliable.service Memory.service failures) c w).2
  /-- Behind the end, or the error of a step, there is nothing more, and nothing is asked for. -/
  done : (ended replies || closed replies) = true → ∀ u : Use,
    (u.run (Unreliable.service Memory.service failures) c w).1.1 = u.answer [] ∧
      (u.run (Unreliable.service Memory.service failures) c w).2 = w
  /-- Every request that has failed was reported, and nothing else was. -/
  failures : (Unreliable.callsSince start w).countP (!·.succeeded) = replies.countP Reply.isError
  /-- At the end every page has been received once. -/
  pages : ended replies = true → closed replies = false →
    (Unreliable.callsSince start w).countP Call.succeeded =
      max 1 (found.length ⌈/⌉ max 1 batch)

theorem After.readsUnpaged {batch : Nat} {failures : Nat → Option StoreError}
    {w : World (Unreliable Memory)} {replies : List Reply}
    (h : After (contents.select q) name text batch start replies c w)
    (hopen : start.store.store.check = .ok ())
    (hcontents : start.store.store.collections.get? name = some contents)
    (hparse : Query.parse text = .ok q) :
    ReadsUnpaged (contents.select q) name text batch failures start replies c w where
  delivered := h.delivered
  next u := by
    obtain ⟨o, c', w', hrun, hasks, -⟩ := h.use hopen hcontents hparse failures u
    exact ⟨o, by rw [hrun], by rw [hrun]; exact hasks⟩
  done hend u := by
    rw [(h.spent hend).run]
    exact ⟨rfl, rfl⟩
  failures := h.failures
  pages := h.succeeded_eq

/-- Paged reading equals the unpaged query under any use, for every batch size and every pattern of
failing requests.  Without failures, reading to the end takes one request for every page, and one
when nothing matches. -/
theorem readsUnpaged_runAll (hopen : start.store.store.check = .ok ())
    (hcontents : start.store.store.collections.get? name = some contents)
    (hparse : Query.parse text = .ok q) (batch : Nat) (failures : Nat → Option StoreError) :
    (∀ us, ReadsUnpaged (contents.select q) name text batch failures start
      (runAll (Unreliable.service Memory.service failures) (make name text batch) us start).1.1
      (runAll (Unreliable.service Memory.service failures) (make name text batch) us start).1.2
      (runAll (Unreliable.service Memory.service failures) (make name text batch) us start).2) ∧
    ((∀ n, failures n = none) → ∃ w,
      (make name text batch).toList (Unreliable.service Memory.service failures) start =
        (.ok (contents.select q), w) ∧
      (Unreliable.callsSince start w).length =
        max 1 ((contents.select q).length ⌈/⌉ max 1 batch)) := by
  have hafter := after_make (contents.select q) name text batch start
  refine ⟨fun us => ?_, fun hnone => ?_⟩
  · exact (hafter.runAll hopen hcontents hparse us).readsUnpaged hopen hcontents hparse
  · have hlength := (length_select_le contents q).trans (length_documents_le_size hcontents)
    have hleft : left (contents.select q) [] = contents.select q := rfl
    obtain ⟨replies, c', w, hdrain, hlast, hend, hclosed, herrors⟩ :=
      hafter.drain hopen hcontents hparse hnone rfl rfl (Nat.lt_succ_of_le (hleft ▸ hlength))
    refine ⟨w, hdrain, ?_⟩
    rw [List.length_eq_countP_add_countP Call.succeeded, hlast.succeeded_eq hend hclosed]
    have hnoFailures := hlast.failures.trans herrors
    simpa using hnoFailures

/-- Three documents. -/
def threeDocuments : Contents :=
  ⟨true, none, [⟨[("id", .text "1")]⟩, ⟨[("id", .text "2")]⟩, ⟨[("id", .text "3")]⟩], 3⟩

/-- A store that holds the documents and fails its second request. -/
theorem readsUnpaged_threeDocuments :
    let start : World (Unreliable Memory) :=
      ⟨⟨Memory.empty.setContents "numbers" threeDocuments, []⟩, 0, []⟩
    let failures : Nat → Option StoreError := fun n =>
      if n = 1 then some (.unboundPlaceholder "down") else none
    let us : List Use := [.next, .next, .hasNext, .next, .step, .step]
    start.store.store.check = .ok () ∧
      start.store.store.collections.get? "numbers" = some threeDocuments ∧
      Query.parse matchAll = .ok .all ∧
      ReadsUnpaged threeDocuments.documents "numbers" matchAll 2 failures start
        (runAll (Unreliable.service Memory.service failures) (make "numbers" matchAll 2) us
          start).1.1
        (runAll (Unreliable.service Memory.service failures) (make "numbers" matchAll 2) us
          start).1.2
        (runAll (Unreliable.service Memory.service failures) (make "numbers" matchAll 2) us
          start).2 := by
  intro start failures us
  have hcontents : start.store.store.collections.get? "numbers" = some threeDocuments :=
    rfl
  have hparse : Query.parse matchAll = .ok .all := rfl
  exact ⟨rfl, hcontents, hparse, (readsUnpaged_runAll rfl hcontents hparse 2 failures).1 us⟩

end Unpaged

end SearchTable.Cursor
