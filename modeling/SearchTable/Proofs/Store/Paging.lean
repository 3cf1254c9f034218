import Mathlib
import SearchTable.Cursor
import SearchTable.Store.Memory
/-!
# Reading all pages

A cursor over the store in memory delivers every match of its query in storage order, whatever its
batch size (`toList_make`).  `Reads found c rest` is the invariant: `c` reads the matches `found`,
and `rest` is what it has not delivered yet, the buffer and the matches from its offset on.
-/

namespace SearchTable

/-! ## Answers of the store in memory -/

namespace Memory

variable {m : Memory} {name : String} {c : Contents}

theorem contents_eq_ok_iff : m.contents name = .ok c ↔ m.collections.get? name = some c := by
  rw [contents]
  split <;> simp_all

/-- A page of the matches of a query. -/
theorem query_eq {text : String} {q : Query.Node} (hopen : m.check = .ok ())
    (hcontents : m.collections.get? name = some c) (hparse : Query.parse text = .ok q)
    (offset limit : Nat) :
    m.query name text offset limit =
      .ok ⟨((c.select q).drop offset).take limit, (c.select q).length⟩ := by
  simp only [query, hopen, hparse, contents_eq_ok_iff.2 hcontents, bind, Except.bind]

/-- No collection holds more documents than the store. -/
theorem length_documents_le_size (hcontents : m.collections.get? name = some c) :
    c.documents.length ≤ m.size := by
  have hmem : (name, c) ∈ m.collections.entries := by
    obtain ⟨before, after, heq, -⟩ := List.lookup_eq_some_iff.1 hcontents
    rw [heq]
    simp
  rw [size, List.length_flatMap]
  exact List.single_le_sum (by simp) _ (List.mem_map_of_mem hmem)

theorem length_select_le (c : Contents) (q : Query.Node) :
    (c.select q).length ≤ c.documents.length :=
  List.length_filter_le _ _

end Memory

namespace Cursor

open Memory

/-! ## The invariant -/

/-- The cursor reads the matches `found` and has still to deliver `rest`. -/
structure Reads (found : List Document) (c : Cursor) (rest : List Document) : Prop where
  batch_pos : 0 < c.batch
  rest_eq : rest = c.buffer ++ found.drop c.offset
  /-- After the last page nothing is left in the store. -/
  last : c.lastPage = true ∨ c.state = .exhausted ∧ c.buffer = [] → found.drop c.offset = []

variable {found rest : List Document} {c : Cursor} {d : Document}

theorem reads_make (found : List Document) (collection query : String) (batch : Nat) :
    Reads found (make collection query batch) found := by
  refine ⟨?_, rfl, ?_⟩
  · simp only [make]
    omega
  · simp [make]

/-- The page that a cursor asks for next. -/
def nextPage (found : List Document) (c : Cursor) : Page :=
  ⟨(found.drop c.offset).take c.batch, found.length⟩

/-- The page is empty only when nothing is left. -/
theorem Reads.isEmpty_nextPage (h : Reads found c rest) (hbuffer : c.buffer = []) :
    (c.nextPage found).documents.isEmpty = rest.isEmpty := by
  have hpage : (c.nextPage found).documents = [] ↔ rest = [] := by
    rw [h.rest_eq, hbuffer, List.nil_append, nextPage, List.take_eq_nil_iff]
    exact or_iff_right h.batch_pos.ne'
  exact Bool.eq_iff_iff.2 (by simpa only [List.isEmpty_iff] using hpage)

/-- Receiving the page at its offset, a cursor keeps what it has to deliver. -/
theorem Reads.receive (h : Reads found c rest) (hbuffer : c.buffer = []) :
    Reads found (c.receive (c.nextPage found)) rest := by
  have hpos := h.batch_pos
  have hlength : ((found.drop c.offset).take c.batch).length =
      min c.batch (found.length - c.offset) := by simp
  refine ⟨hpos, ?_, ?_⟩
  · have hpage := List.prefix_iff_eq_append.1 (List.take_prefix c.batch (found.drop c.offset))
    rw [h.rest_eq, hbuffer, List.nil_append]
    simp only [Cursor.receive, nextPage]
    rw [← List.drop_drop, hpage]
  · intro hlast
    refine List.drop_of_length_le ?_
    simp only [Cursor.receive, nextPage, hlength, Bool.or_eq_true, decide_eq_true_eq] at hlast ⊢
    rcases hlast with (hlast | hlast) | ⟨-, hempty⟩
    · omega
    · omega
    · have hzero := congrArg List.length hempty
      simp only [hlength, List.length_nil] at hzero
      omega

/-- Taking a document out of the buffer delivers it. -/
theorem Reads.take (h : Reads found c rest) {ds : List Document} (hbuffer : c.buffer = d :: ds) :
    ∃ c', c.take = (some d, c') ∧ Reads found c' (ds ++ found.drop c.offset) ∧
      c'.collection = c.collection ∧ c'.query = c.query := by
  refine ⟨c.take.2, ?_, ⟨?_, ?_, ?_⟩, ?_, ?_⟩
  · simp [Cursor.take, hbuffer]
  · simpa [Cursor.take, hbuffer] using h.batch_pos
  · simp [Cursor.take, hbuffer]
  · simp only [Cursor.take, hbuffer]
    rintro (hlast | ⟨hstate, hempty⟩)
    · exact h.last (.inl hlast)
    · by_cases hlast : c.lastPage = true
      · exact h.last (.inl hlast)
      · simp [hlast, hempty] at hstate
  · simp [Cursor.take, hbuffer]
  · simp [Cursor.take, hbuffer]

/-! ## Steps over any store -/

section AnyStore

variable {σ : Type} {service : Service σ} {w w' : World σ}

/-- A cursor that holds documents says so without a request. -/
theorem hasNext_of_buffer (service : Service σ) (w : World σ) (hbuffer : c.buffer ≠ []) :
    c.hasNext service w = ((.ok true, c), w) := by
  have hfull : (!c.buffer.isEmpty) = true := by simpa using hbuffer
  simp only [hasNext, hfull, if_true]
  rfl

/-- A cursor at the end says so without a request. -/
theorem hasNext_of_end (service : Service σ) (w : World σ) (hbuffer : c.buffer = [])
    (hend : c.lastPage = true ∨ c.state = .exhausted) :
    c.hasNext service w = ((.ok false, { c with state := .exhausted }), w) := by
  have hdone : (c.lastPage || decide (c.state = .exhausted)) = true := by simpa using hend
  simp only [hasNext, hbuffer, hdone, List.isEmpty_nil, Bool.not_true, Bool.false_eq_true, if_false,
    if_true]
  rfl

/-- A cursor without documents before the last page asks for a page. -/
theorem hasNext_of_page (hbuffer : c.buffer = []) (hlast : c.lastPage = false)
    (hstate : c.state ≠ .exhausted) {page : Page}
    (hask : Act.ask service (.query c.collection c.query c.offset c.batch) w = (.ok page, w')) :
    c.hasNext service w = ((.ok !page.documents.isEmpty, c.receive page), w') := by
  simp only [hasNext, refill, hbuffer, hlast, hstate, decide_false, List.isEmpty_nil, Bool.not_true,
    Bool.false_eq_true, Bool.or_self, if_false, bind, StateT.bind, hask]
  rfl

/-- When its request fails, a cursor stays where it is. -/
theorem hasNext_of_error (hbuffer : c.buffer = []) (hlast : c.lastPage = false)
    (hstate : c.state ≠ .exhausted) {e : StoreError}
    (hask : Act.ask service (.query c.collection c.query c.offset c.batch) w = (.error e, w')) :
    c.hasNext service w = ((.error e, { c with state := .fetching }), w') := by
  simp only [hasNext, refill, hbuffer, hlast, hstate, decide_false, List.isEmpty_nil, Bool.not_true,
    Bool.false_eq_true, Bool.or_self, if_false, bind, StateT.bind, hask]
  rfl

end AnyStore

/-! ## Steps over the store in memory -/

section Memory

variable {w : World Memory} {contents : Contents} {q : Query.Node}
  (hopen : w.store.check = .ok ())
  (hcontents : w.store.collections.get? c.collection = some contents)
  (hparse : Query.parse c.query = .ok q)

include hopen hcontents hparse

/-- A cursor knows whether there is another match, and holds it then. -/
theorem hasNext_memory (h : Reads (contents.select q) c rest) :
    ∃ c', c.hasNext Memory.service w = ((.ok !rest.isEmpty, c'), w) ∧
      Reads (contents.select q) c' rest ∧ c'.buffer.isEmpty = rest.isEmpty ∧
        c'.collection = c.collection ∧ c'.query = c.query := by
  by_cases hbuffer : c.buffer = []
  · by_cases hend : c.lastPage = true ∨ c.state = .exhausted
    · have hdone : (contents.select q).drop c.offset = [] :=
        h.last (hend.imp_right fun hstate => ⟨hstate, hbuffer⟩)
      obtain rfl : rest = [] := by rw [h.rest_eq, hbuffer, hdone]; rfl
      exact ⟨_, hasNext_of_end _ w hbuffer hend, ⟨h.batch_pos, h.rest_eq, fun _ => hdone⟩,
        by simp [hbuffer], rfl, rfl⟩
    · rw [not_or, Bool.not_eq_true] at hend
      have hanswer : Memory.service.answer (.query c.collection c.query c.offset c.batch) w.store =
          (.ok (c.nextPage (contents.select q)), w.store) :=
        congrArg (Prod.mk · w.store) (query_eq hopen hcontents hparse c.offset c.batch)
      have hask : Act.ask Memory.service (.query c.collection c.query c.offset c.batch) w =
          (.ok (c.nextPage (contents.select q)), w) := by
        simp only [Act.ask, hanswer]
      have hempty := h.isEmpty_nextPage hbuffer
      exact ⟨_, hempty ▸ hasNext_of_page hbuffer hend.1 hend.2 hask, h.receive hbuffer, hempty, rfl,
        rfl⟩
  · have hempty : c.buffer.isEmpty = false := by simpa using hbuffer
    have hrest : rest.isEmpty = false := by simp [h.rest_eq, hbuffer]
    exact ⟨c, by rw [hasNext_of_buffer _ w hbuffer, hrest]; rfl, h, hempty.trans hrest.symm, rfl,
      rfl⟩

/-- What a cursor has to deliver next is delivered next, and the world stays as it is. -/
theorem next_memory (h : Reads (contents.select q) c rest) :
    ∃ c', c.next Memory.service w = ((.ok rest.head?, c'), w) ∧
      Reads (contents.select q) c' rest.tail ∧ c'.collection = c.collection ∧
        c'.query = c.query := by
  obtain ⟨c₁, hnext, hreads, hempty, hname, hquery⟩ := hasNext_memory hopen hcontents hparse h
  cases hbuffer : c₁.buffer with
  | nil =>
    have hrest : rest = [] := by simpa [hbuffer] using hempty
    subst hrest
    refine ⟨c₁, ?_, hreads, hname, hquery⟩
    simp only [next, bind, StateT.bind, hnext]
    rfl
  | cons d ds =>
    obtain ⟨c₂, htake, hreads', hname', hquery'⟩ := hreads.take hbuffer
    have hrest : rest = d :: (ds ++ (contents.select q).drop c₁.offset) := by
      rw [hreads.rest_eq, hbuffer, List.cons_append]
    subst hrest
    refine ⟨c₂, ?_, hreads', hname'.trans hname, hquery'.trans hquery⟩
    simp only [next, bind, StateT.bind, hnext, List.isEmpty_cons, Bool.not_false, htake]
    rfl

end Memory

/-- A cursor reads to the end when there is enough fuel. -/
theorem drain_memory {w : World Memory} {contents : Contents} {q : Query.Node}
    (hopen : w.store.check = .ok ()) {fuel : Nat}
    (hcontents : w.store.collections.get? c.collection = some contents)
    (hparse : Query.parse c.query = .ok q) (h : Reads (contents.select q) c rest)
    (hfuel : rest.length < fuel) : drain Memory.service fuel c w = (.ok rest, w) := by
  induction fuel generalizing c rest with
  | zero => omega
  | succ fuel ih =>
    obtain ⟨c', hnext, hreads, hname, hquery⟩ := next_memory hopen hcontents hparse h
    cases rest with
    | nil =>
      simp only [drain, bind, StateT.bind, hnext, List.head?_nil]
      rfl
    | cons d ds =>
      have hdrain : drain Memory.service fuel c' w = (.ok ds, w) :=
        ih (hname ▸ hcontents) (hquery ▸ hparse) hreads (by simpa using hfuel)
      simp only [drain, bind, StateT.bind, hnext, List.head?_cons, hdrain]
      rfl

/-- Reading all pages of a query gives its matches in storage order. -/
theorem toList_make {w : World Memory} {name text : String} {contents : Contents} {q : Query.Node}
    (hopen : w.store.check = .ok ()) (hcontents : w.store.collections.get? name = some contents)
    (hparse : Query.parse text = .ok q) (batch : Nat) :
    (make name text batch).toList Memory.service w = (.ok (contents.select q), w) := by
  have hlength := (length_select_le contents q).trans (length_documents_le_size hcontents)
  exact drain_memory hopen hcontents hparse (reads_make _ name text batch)
    (Nat.lt_succ_of_le hlength)

/-- When the store refuses the query, so does the cursor, and the world stays as it is. -/
theorem toList_make_error {w : World Memory} {name text : String} {e : StoreError}
    (hquery : ∀ offset limit, w.store.query name text offset limit = .error e) (batch : Nat) :
    (make name text batch).toList Memory.service w = (.error e, w) := by
  have hnext : (make name text batch).next Memory.service w =
      ((.error e, { make name text batch with state := .fetching }), w) := by
    have hask : Act.ask Memory.service (.query (make name text batch).collection
        (make name text batch).query (make name text batch).offset (make name text batch).batch) w =
        (.error e, w) := by
      simp only [Act.ask, Memory.service, answer]
      exact congrArg (Prod.mk · w) (hquery _ _)
    have hhasNext := hasNext_of_error (c := make name text batch) rfl rfl (by simp [make]) hask
    simp only [next, bind, StateT.bind, hhasNext]
    rfl
  show drain Memory.service (w.store.size + 1) (make name text batch) w = _
  simp only [drain, bind, StateT.bind, hnext]
  rfl

end Cursor

end SearchTable
