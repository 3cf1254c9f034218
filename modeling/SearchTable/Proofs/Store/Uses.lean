import SearchTable.Proofs.Store.Paging
import SearchTable.Proofs.Store.Unreliable
/-!
# Cursors over stores that fail

A cursor is used in three ways: one asks whether there is another document, takes the next one, or
steps to it as a loop does, which ends with the first error.  Over a store in memory whose requests
fail as planned, `run_unreliable` gives the outcome of every use: it answers from what is left, after
one request at most, or it fails with its request.

`Stands` is what a use preserves.  Beside what is left to be delivered it holds how far the pages
reach that have been received (`Pages`), because the end is known by the last page alone, which may
be short, or empty, or just reach the number of matches.
-/

namespace SearchTable.Cursor

open Memory

variable {σ : Type} {service : Service σ} {found rest : List Document} {c : Cursor}

/-! ## Uses and replies -/

/-- The ways to use a cursor. -/
inductive Use where
  | hasNext
  | next
  | step
  deriving DecidableEq, Repr

/-- What a use gives. -/
inductive Reply where
  | more (result : Except StoreError Bool)
  | document (result : Except StoreError (Option Document))
  | item (result : Option (Except StoreError Document))

namespace Reply

/-- The document that is delivered. -/
def delivered : Reply → Option Document
  | .document (.ok d) => d
  | .item (some (.ok d)) => some d
  | _ => none

/-- Whether it says that there is nothing more. -/
def isEnd : Reply → Bool
  | .more (.ok b) => !b
  | .document (.ok d) => d.isNone
  | .item d => d.isNone
  | _ => false

/-- Whether it is an error. -/
def isError : Reply → Bool
  | .more (.error _) => true
  | .document (.error _) => true
  | .item (some (.error _)) => true
  | _ => false

/-- Whether it is an error of a step, after which there is nothing more. -/
def isLast : Reply → Bool
  | .item (some (.error _)) => true
  | _ => false

end Reply

namespace Use

/-- Uses a cursor. -/
def run (service : Service σ) (c : Cursor) : Use → Act σ (Reply × Cursor)
  | .hasNext => do
    let (result, c) ← c.hasNext service
    return (.more result, c)
  | .next => do
    let (result, c) ← c.next service
    return (.document result, c)
  | .step => do
    let (result, c) ← c.step service
    return (.item result, c)

/-- The reply of a use when some documents are left. -/
def answer (rest : List Document) : Use → Reply
  | .hasNext => .more (.ok !rest.isEmpty)
  | .next => .document (.ok rest.head?)
  | .step => .item (rest.head?.map .ok)

/-- The reply of a use whose request fails. -/
def failure (e : StoreError) : Use → Reply
  | .hasNext => .more (.error e)
  | .next => .document (.error e)
  | .step => .item (some (.error e))

/-- What is left after a use that has not failed. -/
def leaves (rest : List Document) : Use → List Document
  | .hasNext => rest
  | _ => rest.tail

end Use

/-- Uses a cursor one time after the other. -/
def runAll (service : Service σ) : Cursor → List Use → Act σ (List Reply × Cursor)
  | c, [] => return ([], c)
  | c, u :: us => do
    let (reply, c) ← u.run service c
    let (replies, c) ← runAll service c us
    return (reply :: replies, c)

section AnyStore

variable {w w' : World σ}

theorem next_of_run {result : Except StoreError (Option Document)} {c' : Cursor}
    (h : Use.next.run service c w = ((.document result, c'), w')) :
    c.next service w = ((result, c'), w') := by
  cases hnext : c.next service w with
  | mk given w₁ =>
    simp only [Use.run, bind, StateT.bind, hnext] at h
    obtain ⟨hgiven, rfl⟩ := Prod.mk.inj h
    obtain ⟨hreply, rfl⟩ := Prod.mk.inj hgiven
    rw [← Reply.document.inj hreply]

end AnyStore

/-! ## Pages -/

/-- How far the pages reach that a cursor has received: it has received all of them exactly when it
has received the last one. -/
structure Pages (found : List Document) (c : Cursor) : Prop where
  offset_eq : c.offset = min found.length (c.refills * c.batch)
  before_last : c.lastPage = false → c.refills = 0 ∨ c.refills * c.batch < found.length
  last : c.lastPage = true → c.refills = max 1 (found.length ⌈/⌉ c.batch)
  exhausted : c.state = .exhausted → c.lastPage = true

/-- The number of the page that reaches the end is the number of pages. -/
theorem max_one_ceilDiv_eq {n batch r : Nat} (hpos : 0 < batch) (hbefore : r = 0 ∨ r * batch < n)
    (hreach : n ≤ (r + 1) * batch) : max 1 (n ⌈/⌉ batch) = r + 1 := by
  have hle : n ⌈/⌉ batch ≤ r + 1 := by
    rw [ceilDiv_le_iff_le_mul hpos]
    exact hreach.trans_eq (Nat.mul_comm _ _)
  have hlt : r = 0 ∨ r < n ⌈/⌉ batch := hbefore.imp_right fun h => not_le.1 fun hle' => by
    rw [ceilDiv_le_iff_le_mul hpos, Nat.mul_comm] at hle'
    omega
  omega

theorem pages_make (found : List Document) (collection query : String) (batch : Nat) :
    Pages found (make collection query batch) := by
  constructor <;> simp [make]

theorem Pages.receive (h : Pages found c) (hpos : 0 < c.batch) (hlast : c.lastPage = false) :
    Pages found (c.receive (c.nextPage found)) := by
  have hbefore := h.before_last hlast
  have hlength : ((found.drop c.offset).take c.batch).length =
      min c.batch (found.length - c.offset) := by simp
  have hoffset : c.offset = c.refills * c.batch := by
    rw [h.offset_eq]
    rcases hbefore with hzero | hlt
    · simp [hzero]
    · omega
  have hsucc : (c.refills + 1) * c.batch = c.refills * c.batch + c.batch := Nat.succ_mul _ _
  have hle : c.refills * c.batch ≤ found.length := by
    rcases hbefore with hzero | hlt
    · simp [hzero]
    · omega
  refine ⟨?_, fun hmore => ?_, fun hend => ?_, fun hstate => ?_⟩
  · simp only [Cursor.receive, nextPage, hlength, hsucc]
    omega
  · simp only [Cursor.receive, nextPage, hlength, Bool.or_eq_false_iff, decide_eq_false_iff_not] at hmore
    simp only [Cursor.receive, nextPage, hsucc]
    omega
  · simp only [Cursor.receive, nextPage, hlength, Bool.or_eq_true, decide_eq_true_eq] at hend
    refine (max_one_ceilDiv_eq hpos hbefore ?_).symm
    rw [hsucc]
    omega
  · simp only [Cursor.receive, nextPage, hlength, Bool.or_eq_true, decide_eq_true_eq] at hstate ⊢
    split at hstate
    · omega
    · simp at hstate

theorem Pages.take (h : Pages found c) : Pages found c.take.2 := by
  rw [Cursor.take]
  split
  · exact h
  · refine ⟨h.offset_eq, h.before_last, h.last, fun hstate => ?_⟩
    simp only at hstate ⊢
    split at hstate
    · exact h.exhausted hstate
    · split at hstate
      · assumption
      · simp at hstate

/-- What a cursor reads, what it has still to deliver, and how far its pages reach. -/
structure Stands (found : List Document) (c : Cursor) (rest : List Document) : Prop where
  reads : Reads found c rest
  pages : Pages found c

theorem stands_make (found : List Document) (collection query : String) (batch : Nat) :
    Stands found (make collection query batch) found :=
  ⟨reads_make found collection query batch, pages_make found collection query batch⟩

/-- The number of documents that a cursor has delivered. -/
def position (c : Cursor) : Nat := c.offset - c.buffer.length

theorem Stands.position_eq {k : Nat} (h : Stands found c (found.drop k)) (hk : k ≤ found.length) :
    c.position = k := by
  have hlength := congrArg List.length h.reads.rest_eq
  have hoffset : c.offset ≤ found.length := h.pages.offset_eq ▸ min_le_left _ _
  rw [List.length_append, List.length_drop, List.length_drop] at hlength
  rw [position]
  omega

/-- A cursor that has delivered the last page. -/
structure Spent (c : Cursor) : Prop where
  buffer : c.buffer = []
  lastPage : c.lastPage = true

/-- A cursor that knows whether there is another document holds it, or is spent. -/
structure Ready (c : Cursor) (rest : List Document) : Prop where
  holds : rest ≠ [] → c.buffer ≠ []
  spent : rest = [] → Spent c

/-- With a page received, a cursor knows whether there is another document. -/
theorem Stands.receive (h : Stands found c rest) (hbuffer : c.buffer = [])
    (hmore : c.lastPage = false) :
    Stands found (c.receive (c.nextPage found)) rest ∧ Ready (c.receive (c.nextPage found)) rest ∧
      (c.nextPage found).documents.isEmpty = rest.isEmpty := by
  have hempty := h.reads.isEmpty_nextPage hbuffer
  have hpage : (c.nextPage found).documents = [] ↔ rest = [] := by
    rw [← List.isEmpty_iff, hempty, List.isEmpty_iff]
  refine ⟨⟨h.reads.receive hbuffer, h.pages.receive h.reads.batch_pos hmore⟩,
    ⟨fun hne hnil => hne (hpage.1 hnil), fun hrest => ⟨hpage.2 hrest, ?_⟩⟩, hempty⟩
  simp [Cursor.receive, hpage.2 hrest, h.reads.batch_pos]

/-- A spent cursor says that there is nothing more, and makes no request. -/
theorem Spent.run (h : Spent c) (service : Service σ) (w : World σ) (u : Use) :
    u.run service c w = ((u.answer [], { c with state := .exhausted }), w) := by
  have hnext := hasNext_of_end service w h.buffer (.inl h.lastPage)
  cases u with
  | hasNext =>
    simp only [Use.run, bind, StateT.bind, hnext]
    rfl
  | next =>
    simp only [Use.run, next, bind, StateT.bind, hnext]
    rfl
  | step =>
    simp only [Use.run, step, next, bind, StateT.bind, hnext]
    rfl

/-! ## One use over a store that fails as planned -/

/-- What a use does beside its reply: nothing, or one request for a page, which fails if that is
planned. -/
inductive Asks (failures : Nat → Option StoreError) (page : Request) (w : World (Unreliable σ)) :
    Option StoreError → World (Unreliable σ) → Prop
  | nothing : Asks failures page w none w
  | page (h : failures w.store.calls.length = none) :
      Asks failures page w none (Unreliable.record w ⟨page, true⟩)
  | failure {e : StoreError} (h : failures w.store.calls.length = some e) :
      Asks failures page w (some e) (Unreliable.record w ⟨page, false⟩)

/-- The reply of a use when some documents are left and its request may have failed. -/
def Use.reply (rest : List Document) (u : Use) : Option StoreError → Reply
  | none => u.answer rest
  | some e => u.failure e

section Memory

variable {w : World (Unreliable Memory)} {failures : Nat → Option StoreError}
  {contents : Contents} {q : Query.Node}

/-- A cursor after a use: it reads the same matches, and has received the pages that it has asked
for since. -/
structure Continues (found : List Document) (c c' : Cursor) (w w' : World (Unreliable Memory))
    (rest : List Document) : Prop where
  stands : Stands found c' rest
  collection : c'.collection = c.collection
  query : c'.query = c.query
  batch : c'.batch = c.batch
  refills : c'.refills = c.refills + (Unreliable.callsSince w w').countP Call.succeeded

variable (failures) (hopen : w.store.store.check = .ok ())
  (hcontents : w.store.store.collections.get? c.collection = some contents)
  (hparse : Query.parse c.query = .ok q)

include hopen hcontents hparse

/-- A cursor asks for a page exactly when it has nothing to deliver and has not seen the last
page. -/
theorem hasNext_unreliable (h : Stands (contents.select q) c rest) :
    (∃ c' w', c.hasNext (Unreliable.service Memory.service failures) w =
        ((.ok !rest.isEmpty, c'), w') ∧
      Asks failures (.query c.collection c.query c.position c.batch) w none w' ∧
      Continues (contents.select q) c c' w w' rest ∧ Ready c' rest) ∨
    (∃ e, failures w.store.calls.length = some e ∧ c.buffer = [] ∧
      c.hasNext (Unreliable.service Memory.service failures) w =
        ((.error e, { c with state := .fetching }),
          Unreliable.record w ⟨.query c.collection c.query c.position c.batch, false⟩)) := by
  by_cases hbuffer : c.buffer = []
  · by_cases hlast : c.lastPage = true
    · have hdone : (contents.select q).drop c.offset = [] := h.reads.last (.inl hlast)
      have hrest : rest = [] := by rw [h.reads.rest_eq, hbuffer, hdone]; rfl
      subst hrest
      have hstands : Stands (contents.select q) { c with state := .exhausted } [] :=
        ⟨⟨h.reads.batch_pos, h.reads.rest_eq, fun _ => hdone⟩,
          ⟨h.pages.offset_eq, h.pages.before_last, h.pages.last, fun _ => hlast⟩⟩
      exact .inl ⟨_, w, hasNext_of_end _ w hbuffer (.inl hlast), .nothing,
        ⟨hstands, rfl, rfl, rfl, by simp [Unreliable.callsSince_self]⟩, by simp,
        fun _ => ⟨hbuffer, hlast⟩⟩
    · have hmore : c.lastPage = false := by simpa using hlast
      have hstate : c.state ≠ .exhausted := fun hstate => hlast (h.pages.exhausted hstate)
      have hposition : c.position = c.offset := by simp [position, hbuffer]
      rw [hposition]
      cases hfails : failures w.store.calls.length with
      | some e =>
        have hask := Unreliable.ask_of_failure Memory.service hfails
          (.query c.collection c.query c.offset c.batch)
        exact .inr ⟨e, rfl, hbuffer, hasNext_of_error hbuffer hmore hstate hask⟩
      | none =>
        have hanswer : Memory.service.answer (.query c.collection c.query c.offset c.batch)
            w.store.store = (.ok (c.nextPage (contents.select q)), w.store.store) :=
          congrArg (Prod.mk · w.store.store) (query_eq hopen hcontents hparse c.offset c.batch)
        have hnext := hasNext_of_page hbuffer hmore hstate (Unreliable.ask_of_none hfails hanswer)
        obtain ⟨hstands, hready, hempty⟩ := h.receive hbuffer hmore
        refine .inl ⟨_, _, ?_, .page hfails, ⟨hstands, rfl, rfl, rfl, ?_⟩, hready⟩
        · rw [hnext, hempty]
          rfl
        · rw [Unreliable.callsSince_eq rfl]
          rfl
  · have hrest : rest ≠ [] := by simp [h.reads.rest_eq, hbuffer]
    have hnext := hasNext_of_buffer (Unreliable.service Memory.service failures) w hbuffer
    have hmore : (!rest.isEmpty) = true := by simpa using hrest
    exact .inl ⟨c, w, by rw [hnext, hmore], .nothing,
      ⟨h, rfl, rfl, rfl, by simp [Unreliable.callsSince_self]⟩, fun _ => hbuffer,
      fun hnil => absurd hnil hrest⟩

end Memory

/-! ## Answers and failures -/

section Replies

variable {w w' : World (Unreliable Memory)} {service : Service (Unreliable Memory)} {c₁ : Cursor}

/-- A cursor that knows what comes next delivers it. -/
theorem Ready.next (h : Continues found c c₁ w w' rest) (hready : Ready c₁ rest)
    (hnext : c.hasNext service w = ((.ok !rest.isEmpty, c₁), w')) :
    ∃ c', c.next service w = ((.ok rest.head?, c'), w') ∧ Continues found c c' w w' rest.tail ∧
      (rest = [] → Spent c') := by
  cases rest with
  | nil =>
    refine ⟨c₁, ?_, h, hready.spent⟩
    simp only [Cursor.next, bind, StateT.bind, hnext]
    rfl
  | cons d ds =>
    obtain ⟨e, es, hbuffer⟩ := List.exists_cons_of_ne_nil (hready.holds (by simp))
    obtain ⟨c₂, htake, hreads, hcollection, hquery⟩ := h.stands.reads.take hbuffer
    have hrest := h.stands.reads.rest_eq
    rw [hbuffer, List.cons_append, List.cons.injEq] at hrest
    obtain ⟨rfl, hrest⟩ := hrest
    have hc₂ : c₁.take.2 = c₂ := congrArg Prod.snd htake
    have hsame : c₁.take.2.batch = c₁.batch ∧ c₁.take.2.refills = c₁.refills := by
      simp [Cursor.take, hbuffer]
    rw [hc₂] at hsame
    refine ⟨c₂, ?_, ⟨⟨?_, hc₂ ▸ h.stands.pages.take⟩, hcollection.trans h.collection,
      hquery.trans h.query, hsame.1.trans h.batch, hsame.2.trans h.refills⟩, by simp⟩
    · simp only [Cursor.next, bind, StateT.bind, hnext, List.isEmpty_cons, Bool.not_false, htake]
      rfl
    · rw [List.tail_cons, hrest]
      exact hreads

/-- A use that is answered gives what comes next. -/
theorem Ready.run (h : Continues found c c₁ w w' rest) (hready : Ready c₁ rest)
    (hnext : c.hasNext service w = ((.ok !rest.isEmpty, c₁), w')) (u : Use) :
    ∃ c', u.run service c w = ((u.answer rest, c'), w') ∧
      Continues found c c' w w' (u.leaves rest) ∧ (rest = [] → Spent c') := by
  obtain ⟨c₂, hdocument, hcontinues, hspent⟩ := Ready.next h hready hnext
  cases u with
  | hasNext =>
    refine ⟨c₁, ?_, h, hready.spent⟩
    simp only [Use.run, bind, StateT.bind, hnext]
    rfl
  | next =>
    refine ⟨c₂, ?_, hcontinues, hspent⟩
    simp only [Use.run, bind, StateT.bind, hdocument]
    rfl
  | step =>
    refine ⟨c₂, ?_, hcontinues, hspent⟩
    simp only [Use.run, Cursor.step, bind, StateT.bind, hdocument]
    rfl

/-- A use whose request fails gives the error; a step ends the reading with it. -/
theorem run_of_error {e : StoreError} (hnext : c.hasNext service w = ((.error e, c₁), w'))
    (u : Use) : ∃ c', u.run service c w = ((u.failure e, c'), w') ∧
      c' = if u = .step then { c₁ with state := .exhausted, lastPage := true } else c₁ := by
  have hdocument : c.next service w = ((.error e, c₁), w') := by
    simp only [Cursor.next, bind, StateT.bind, hnext]
    rfl
  refine ⟨_, ?_, rfl⟩
  cases u with
  | hasNext =>
    simp only [Use.run, bind, StateT.bind, hnext]
    rfl
  | next =>
    simp only [Use.run, bind, StateT.bind, hdocument]
    rfl
  | step =>
    simp only [Use.run, Cursor.step, bind, StateT.bind, hdocument]
    rfl

end Replies

/-! ## The outcome of one use -/

section Outcome

variable {w w' : World (Unreliable Memory)} {failures : Nat → Option StoreError}
  {page : Request} {o : Option StoreError}

theorem Asks.store_eq (h : Asks failures page w o w') : w'.store.store = w.store.store := by
  cases h <;> rfl

/-- A use makes at most one call, and the call fails exactly when the use does. -/
theorem Asks.calls (h : Asks failures page w o w') :
    ∃ calls, w'.store.calls = w.store.calls ++ calls ∧
      calls.countP (!·.succeeded) = o.toList.length := by
  cases h with
  | nothing => exact ⟨[], (List.append_nil _).symm, rfl⟩
  | page _ => exact ⟨[⟨page, true⟩], rfl, rfl⟩
  | failure _ => exact ⟨[⟨page, false⟩], rfl, rfl⟩

/-- Beside its reply, a use leaves the cursor with what it has not delivered; the error of a step
leaves it spent. -/
structure Used (found : List Document) (c c' : Cursor) (w w' : World (Unreliable Memory))
    (rest : List Document) (u : Use) (o : Option StoreError) : Prop where
  answered : o = none → Continues found c c' w w' (u.leaves rest)
  ended : o = none → rest = [] → Spent c'
  failed : o ≠ none → u ≠ .step → Continues found c c' w w' rest
  closed : o ≠ none → u = .step → Spent c'

theorem run_unreliable (failures : Nat → Option StoreError) {contents : Contents} {q : Query.Node}
    (hopen : w.store.store.check = .ok ())
    (hcontents : w.store.store.collections.get? c.collection = some contents)
    (hparse : Query.parse c.query = .ok q) (h : Stands (contents.select q) c rest) (u : Use) :
    ∃ o c' w', u.run (Unreliable.service Memory.service failures) c w = ((u.reply rest o, c'), w') ∧
      Asks failures (.query c.collection c.query c.position c.batch) w o w' ∧
      Used (contents.select q) c c' w w' rest u o := by
  rcases hasNext_unreliable failures hopen hcontents hparse h with
    ⟨c₁, w', hnext, hasks, hcontinues, hready⟩ | ⟨e, hfails, hbuffer, hnext⟩
  · obtain ⟨c', hrun, hrest, hspent⟩ := Ready.run hcontinues hready hnext u
    exact ⟨none, c', w', hrun, hasks, fun _ => hrest, fun _ => hspent, fun h => absurd rfl h,
      fun h => absurd rfl h⟩
  · obtain ⟨c', hrun, rfl⟩ := run_of_error hnext u
    have hrefills : c.refills = c.refills + (Unreliable.callsSince w (Unreliable.record w
        ⟨.query c.collection c.query c.position c.batch, false⟩)).countP Call.succeeded := by
      rw [Unreliable.callsSince_eq rfl]
      rfl
    have hstands : Stands (contents.select q) { c with state := .fetching } rest := by
      refine ⟨⟨h.reads.batch_pos, h.reads.rest_eq, ?_⟩, h.pages.offset_eq, h.pages.before_last,
        h.pages.last, by simp⟩
      rintro (hlast | ⟨hstate, -⟩)
      · exact h.reads.last (.inl hlast)
      · simp at hstate
    refine ⟨some e, _, _, hrun, .failure hfails, by simp, by simp, fun _ hu => ?_, fun _ hu => ?_⟩
    · rw [if_neg hu]
      exact ⟨hstands, rfl, rfl, rfl, hrefills⟩
    · rw [if_pos hu]
      exact ⟨hbuffer, rfl⟩

end Outcome

end SearchTable.Cursor
