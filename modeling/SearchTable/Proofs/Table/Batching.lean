import SearchTable.Proofs.Table.Reachable
/-!
# Updates and the sizes of their batches

A group of staged matches deletes first and writes then, so it matters which matches share a group:
a write under an identity that a later match gives up survives in one group with that match, and is
deleted again when it has been sent before.

When no write touches an identity that a later match gives up, groups of every size leave what one
group leaves (`sendAll_eq_applyGroup`).  In a keyed collection the exact condition is `Settled`: an
identity that is written and then given up is written once more.  Seen from one identity, what a
list of staged matches leaves is then settled by the writes behind its deletion
(`found_sendAll_of_deleted`).  The collections that a table comes to by adding and updating are
ordinary, so the exact condition applies to every update of theirs
(`Table.Reachable.batchIndependent_iff`).
-/

namespace SearchTable.Reconcile

open Memory

variable {c : Contents} {batch : Nat} {waiting xs : List Staged} {id : String}

/-! ## Groups that can be joined -/

/-- The first write touches no identity that the second match gives up. -/
def Independent (x y : Staged) : Prop := ∀ id ∈ y.deletion, ¬ Touches x.write id

/-- Two groups in a row do what one group does, if no write of the first one touches an identity
that the second one gives up. -/
theorem applyGroup_applyGroup {xs ys : List Staged}
    (h : ∀ x ∈ xs, ∀ y ∈ ys, Independent x y) (c : Contents) :
    applyGroup (applyGroup c xs) ys = applyGroup c (xs ++ ys) := by
  have hfree : ∀ d ∈ xs.map Staged.write, ∀ id ∈ deletions ys, ¬ Touches d id := by
    intro d hd id hid
    obtain ⟨x, hx, rfl⟩ := List.mem_map.1 hd
    obtain ⟨y, hy, hyid⟩ := List.mem_filterMap.1 hid
    exact h x hx y hy id hyid
  rw [applyGroup, applyGroup, foldl_accept_discard hfree, discard_discard, applyGroup, List.map_append,
    List.foldl_append, deletions_append]

/-- Independent matches leave the same in groups of every size. -/
theorem sendAll_eq_applyGroup (batch : Nat) (waiting : List Staged) {xs : List Staged}
    (h : (waiting ++ xs).Pairwise Independent) (c : Contents) :
    sendAll batch waiting xs c = applyGroup c (waiting ++ xs) := by
  induction xs generalizing waiting c with
  | nil => rw [sendAll, List.append_nil]
  | cons x xs ih =>
    have happend : waiting ++ x :: xs = waiting ++ [x] ++ xs := by simp
    rw [happend] at h ⊢
    rw [sendAll]
    split
    · obtain ⟨-, hxs, hcross⟩ := List.pairwise_append.1 h
      rw [ih [] hxs, List.nil_append, applyGroup_applyGroup hcross]
    · exact ih (waiting ++ [x]) h c

/-- A batch that is not filled is one group. -/
theorem sendAll_of_lt (h : waiting.length + xs.length < batch) (c : Contents) :
    sendAll batch waiting xs c = applyGroup c (waiting ++ xs) := by
  induction xs generalizing waiting with
  | nil => rw [sendAll, List.append_nil]
  | cons x xs ih =>
    rw [List.length_cons] at h
    rw [sendAll, if_neg (by omega), ih (by simp; omega), List.append_assoc, List.singleton_append]

/-- In batches of one match every match is a group of its own. -/
theorem sendAll_one_append (xs ys : List Staged) (c : Contents) :
    sendAll 1 [] (xs ++ ys) c = sendAll 1 [] ys (sendAll 1 [] xs c) := by
  induction xs generalizing c with
  | nil => rw [List.nil_append, sendAll, applyGroup_nil]
  | cons x xs ih =>
    rw [List.cons_append, sendAll, if_pos (by simp), ih, sendAll, if_pos (by simp)]

/-! ## One identity -/

/-- What is found under an identity, up to its version. -/
def found (c : Contents) (id : String) : Option Document := (c.find id).map unversioned

/-- What is found under an identity after one write. -/
def leaves (id : String) (o : Option Document) (x : Staged) : Option Document :=
  if x.target = id then some (unversioned (writtenOver x.write o)) else o

theorem unversioned_writtenOver (x : Document) (o : Option Document) :
    unversioned (writtenOver x (o.map unversioned)) = unversioned (writtenOver x o) := by
  cases o with
  | none => rfl
  | some d =>
    simp only [Option.map_some, writtenOver]
    split
    · rw [unversioned_applyFields, unversioned_applyFields, unversioned, unversioned,
      Document.erase_erase_self]
    · rfl

theorem found_accept {x : Staged} (h : x.IsAddressed) (c : Contents) (id : String) :
    found (c.accept x.write) id = leaves id (found c id) x := by
  rw [found, find_accept h, leaves]
  by_cases hid : x.target = id
  · subst hid
    rw [if_pos rfl, if_pos rfl, Option.map_some, unversioned_withVersion, found,
      unversioned_writtenOver]
  · rw [if_neg (Ne.symm hid), if_neg hid, found]

theorem found_foldl_accept (h : ∀ x ∈ xs, x.IsAddressed) (c : Contents) (id : String) :
    found ((xs.map Staged.write).foldl Contents.accept c) id = xs.foldl (leaves id) (found c id) := by
  induction xs generalizing c with
  | nil => rfl
  | cons x xs ih =>
    rw [List.map_cons, List.foldl_cons, List.foldl_cons, ih fun y hy => h y (List.mem_cons_of_mem _ hy),
      found_accept (h x (by simp))]

/-- A group leaves what its writes leave, over nothing if the identity is given up in it. -/
theorem found_applyGroup (h : ∀ x ∈ xs, x.IsAddressed) (c : Contents) (id : String) :
    found (applyGroup c xs) id =
      xs.foldl (leaves id) (if id ∈ deletions xs then none else found c id) := by
  rw [applyGroup, found_foldl_accept h, found, find_discard]
  split <;> rfl

/-- An identity that is not given up gets all the writes. -/
theorem found_sendAll (batch : Nat) (waiting : List Staged) {xs : List Staged}
    (haddr : ∀ x ∈ waiting ++ xs, x.IsAddressed) (hid : id ∉ deletions (waiting ++ xs))
    (c : Contents) :
    found (sendAll batch waiting xs c) id = (waiting ++ xs).foldl (leaves id) (found c id) := by
  induction xs generalizing waiting c with
  | nil =>
    rw [List.append_nil] at haddr hid ⊢
    rw [sendAll, found_applyGroup haddr, if_neg hid]
  | cons x xs ih =>
    have happend : waiting ++ x :: xs = waiting ++ [x] ++ xs := by simp
    rw [happend] at haddr hid ⊢
    rw [sendAll]
    split
    · rw [deletions_append, List.mem_append, not_or] at hid
      have hfirst : ∀ y ∈ waiting ++ [x], y.IsAddressed := fun y hy =>
        haddr y (List.mem_append_left _ hy)
      have hrest : ∀ y ∈ [] ++ xs, y.IsAddressed := fun y hy => haddr y (List.mem_append_right _ hy)
      rw [ih [] hrest hid.2, found_applyGroup hfirst, if_neg hid.1, List.nil_append,
        ← List.foldl_append]
    · exact ih (waiting ++ [x]) haddr hid c

/-! ## Identities that are given up -/

theorem foldl_leaves_of_forall_ne (h : ∀ x ∈ xs, x.target ≠ id) (o : Option Document) :
    xs.foldl (leaves id) o = o := by
  induction xs with
  | nil => rfl
  | cons x xs ih =>
    rw [List.foldl_cons, leaves, if_neg (h x (by simp)), ih fun y hy => h y (List.mem_cons_of_mem _ hy)]

/-- Behind a whole write under the identity it does not matter what was there. -/
theorem foldl_leaves_of_whole {x : Staged} (hx : x ∈ xs) (hid : x.target = id) (hwhole : x.IsWhole)
    (o o' : Option Document) : xs.foldl (leaves id) o = xs.foldl (leaves id) o' := by
  induction xs generalizing o o' with
  | nil => simp at hx
  | cons y ys ih =>
    rw [List.foldl_cons, List.foldl_cons]
    rcases List.mem_cons.1 hx with rfl | hx
    · rw [leaves, leaves, if_pos hid, if_pos hid, hwhole o, hwhole o']
    · exact ih hx _ _

theorem isSome_foldl_leaves {o : Option Document} (h : o.isSome = true ∨ ∃ x ∈ xs, x.target = id) :
    (xs.foldl (leaves id) o).isSome = true := by
  induction xs generalizing o with
  | nil => simpa using h
  | cons x xs ih =>
    rw [List.foldl_cons]
    refine ih ?_
    by_cases hx : x.target = id
    · exact .inl (by simp [leaves, hx])
    · simpa [leaves, hx] using h

/-- The writes in front of a deletion leave nothing behind it: there are none under the identity, or
a whole one follows. -/
def Covered (id : String) (before after : List Staged) : Prop :=
  (∀ y ∈ before, y.target ≠ id) ∨ ∃ y ∈ after, y.target = id ∧ y.IsWhole

theorem Covered.foldl_eq {before after : List Staged} (h : Covered id before after) {x : Staged}
    (hx : x.target ≠ id) :
    (before ++ x :: after).foldl (leaves id) none = after.foldl (leaves id) none := by
  rw [List.foldl_append, List.foldl_cons, leaves, if_neg hx]
  obtain hnone | ⟨y, hy, hid, hwhole⟩ := h
  · rw [foldl_leaves_of_forall_ne hnone]
  · exact foldl_leaves_of_whole hy hid hwhole _ _

/-- An identity that is given up once gets the writes behind its deletion. -/
theorem found_sendAll_of_deleted (batch : Nat) (waiting : List Staged) {xs before after : List Staged}
    {x : Staged} (haddr : ∀ y ∈ waiting ++ xs, y.IsAddressed)
    (hsplit : waiting ++ xs = before ++ x :: after) (hdeletion : x.deletion = some id)
    (hid : x.target ≠ id) (honce : id ∉ deletions after) (hcovered : Covered id before after)
    (c : Contents) :
    found (sendAll batch waiting xs c) id = after.foldl (leaves id) none := by
  have hmem : ∀ ys zs : List Staged, id ∈ deletions (ys ++ x :: zs) := fun ys zs =>
    List.mem_filterMap.2 ⟨x, by simp, hdeletion⟩
  induction xs generalizing waiting before c with
  | nil =>
    rw [List.append_nil] at haddr hsplit
    rw [sendAll, found_applyGroup haddr, hsplit, if_pos (hmem before after), hcovered.foldl_eq hid]
  | cons y ys ih =>
    have happend : waiting ++ y :: ys = waiting ++ [y] ++ ys := by simp
    rw [happend] at haddr hsplit
    rw [sendAll]
    split
    · have hfirst : ∀ z ∈ waiting ++ [y], z.IsAddressed := fun z hz =>
        haddr z (List.mem_append_left _ hz)
      have hrest : ∀ z ∈ [] ++ ys, z.IsAddressed := fun z hz => haddr z (List.mem_append_right _ hz)
      rcases List.append_eq_append_iff.1 hsplit with ⟨front, hbefore, hys⟩ | ⟨back, hgroup, hback⟩
      · -- The deletion is sent with a later group.
        refine ih [] hrest hys ?_ _
        exact hcovered.imp_left fun hnone z hz => hnone z (hbefore ▸ List.mem_append_right _ hz)
      · cases back with
        | nil =>
          have hfront : [] ++ ys = [] ++ x :: after := hback.symm
          exact ih [] hrest hfront (.inl (by simp)) _
        | cons z back =>
          -- The deletion is sent with this group.
          obtain rfl : x = z := (List.cons.inj hback).1
          obtain rfl : after = back ++ ys := (List.cons.inj hback).2
          have hlater : id ∉ deletions ([] ++ ys) := by
            rw [deletions_append, List.mem_append, not_or] at honce
            exact honce.2
          rw [found_sendAll batch [] hrest hlater, List.nil_append, found_applyGroup hfirst, hgroup,
            if_pos (hmem before back), ← List.foldl_append, List.append_assoc, List.cons_append,
            hcovered.foldl_eq hid]
    · exact ih (waiting ++ [y]) haddr hsplit hcovered c

/-! ## Settled identities -/

/-- Whatever is written under an identity that is given up later is written once more. -/
def Settled (xs : List Staged) : Prop :=
  ∀ before x after id, xs = before ++ x :: after → x.deletion = some id →
    (∃ y ∈ before, y.target = id) → ∃ y ∈ after, y.target = id

/-- The identities behind one that is given up are other ones. -/
theorem Orderly.not_mem_deletions {before after : List Staged} {x : Staged}
    (h : Orderly (before ++ x :: after)) (hx : x.deletion = some id) : id ∉ deletions after := by
  have hnodup := h.nodup
  rw [deletions_append] at hnodup
  have htail := (List.nodup_append.1 hnodup).2.1
  rw [deletions, List.filterMap_cons_some hx] at htail
  exact (List.nodup_cons.1 htail).1

/-- When it is settled what becomes of an identity, it does not depend on the batches. -/
theorem found_sendAll_congr {xs : List Staged} (h : Orderly xs) (hsettled : Settled xs) (b b' : Nat)
    (c : Contents) (id : String) :
    found (sendAll b [] xs c) id = found (sendAll b' [] xs c) id := by
  by_cases hid : id ∈ deletions xs
  · obtain ⟨x, hx, hdeletion⟩ := List.mem_filterMap.1 hid
    obtain ⟨before, after, rfl⟩ := List.append_of_mem hx
    have hmoves := h.moves x hx id hdeletion
    have honce := h.not_mem_deletions hdeletion
    have hcovered : Covered id before after := by
      by_cases hbefore : ∃ y ∈ before, y.target = id
      · obtain ⟨y, hy, hyid⟩ := hsettled before x after id rfl hdeletion hbefore
        exact .inr ⟨y, hy, hyid, h.whole y (by simp [hy]) (hyid ▸ hid)⟩
      · exact .inl fun y hy hyid => hbefore ⟨y, hy, hyid⟩
    have hfound : ∀ b, found (sendAll b [] (before ++ x :: after) c) id =
        after.foldl (leaves id) none := fun b =>
      found_sendAll_of_deleted b [] h.addressed (List.nil_append _) hdeletion hmoves honce hcovered c
    rw [hfound b, hfound b']
  · rw [found_sendAll b [] h.addressed hid, found_sendAll b' [] h.addressed hid]

/-- When it is not settled what becomes of an identity, a document is lost in batches of one match
and kept in one batch of all. -/
theorem settled_of_isSome_found {xs : List Staged} (h : Orderly xs) (c : Contents)
    (hsame : ∀ id, (found (sendAll 1 [] xs c) id).isSome =
      (found (sendAll (xs.length + 1) [] xs c) id).isSome) : Settled xs := by
  rintro before x after id rfl hdeletion hbefore
  by_contra hafter
  have hnone : ∀ y ∈ after, y.target ≠ id := fun y hy hyid => hafter ⟨y, hy, hyid⟩
  have hmoves := h.moves x (by simp) id hdeletion
  have honce := h.not_mem_deletions hdeletion
  have hlost : found (sendAll 1 [] (before ++ x :: after) c) id = none := by
    have haddr : ∀ y ∈ [] ++ x :: after, y.IsAddressed := fun y hy =>
      h.addressed y (List.mem_append_right _ hy)
    have hcovered : Covered id [] after := .inl (by simp)
    rw [sendAll_one_append, found_sendAll_of_deleted 1 [] haddr rfl hdeletion hmoves honce hcovered,
      foldl_leaves_of_forall_ne hnone]
  have hkept : (found (sendAll ((before ++ x :: after).length + 1) [] (before ++ x :: after)
      c) id).isSome = true := by
    rw [sendAll_of_lt (by simp), List.nil_append, found_applyGroup h.addressed]
    exact isSome_foldl_leaves (.inr (hbefore.imp fun y hy => ⟨by simp [hy.1], hy.2⟩))
  rw [← hsame, hlost] at hkept
  simp at hkept

/-! ## Comparing outcomes -/

/-- Two outcomes of an update: the counts that they report, and the documents that they leave in a
collection, in any order and up to versions. -/
structure SameOutcome (name : String) (o o' : UpdateReport × World Memory) : Prop where
  matched : o.1.matched = o'.1.matched
  patched : o.1.patched = o'.1.patched
  inserted : o.1.inserted = o'.1.inserted
  deleted : o.1.deleted = o'.1.deleted
  documents : ((o.2.store.documents name).map unversioned).Perm
    ((o'.2.store.documents name).map unversioned)

theorem documents_withContents (plan : Plan) (w : World Memory) (c : Contents) :
    (withContents plan w c).store.documents plan.collection = c.documents := by
  rw [Memory.documents, get?_withContents]
  rfl

/-- Outcomes of staged matches differ in the documents only. -/
theorem sameOutcome_iff (plan : Plan) (w : World Memory) (r : UpdateReport) (xs : List Staged)
    (c c' : Contents) (m n : Nat) (log log' : List Log.Entry) :
    SameOutcome plan.collection
        (reportOf r xs m, { withContents plan w c with log := log })
        (reportOf r xs n, { withContents plan w c' with log := log' }) ↔
      (c.documents.map unversioned).Perm (c'.documents.map unversioned) := by
  constructor
  · rintro ⟨-, -, -, -, hperm⟩
    have hdocuments := documents_withContents plan w
    simp only [hdocuments] at hperm
    exact hperm
  · intro hperm
    have hdocuments := documents_withContents plan w
    refine ⟨rfl, rfl, rfl, rfl, ?_⟩
    simp only [hdocuments]
    exact hperm

theorem isSome_found_iff (c : Contents) (id : String) :
    (found c id).isSome = true ↔ some id ∈ (c.documents.map unversioned).map
      (Document.getText? · idField) := by
  rw [found, Option.isSome_map, Contents.find, List.find?_isSome]
  simp only [hasId_eq_true_iff, List.mem_map, exists_exists_and_eq_and, getText?_unversioned]

end SearchTable.Reconcile

namespace SearchTable.Table

open Memory Reconcile

variable {t : Table} {w : World Memory} {c : Contents} {condition : Condition} {params : Bindings}
  {text : String} {q : Query.Node} {changes : Changes}

/-- The table with other batch sizes. -/
def withBatches (t : Table) (read update : Nat) : Table :=
  { t with options := { t.options with readBatchSize := read, updateBatchSize := update } }

/-- An update with one pair has the same outcome for all batch sizes. -/
def BatchIndependent (t : Table) (condition : Condition) (params : Bindings) (changes : Changes)
    (w : World Memory) : Prop :=
  ∀ read update read' update', 1 ≤ read → 1 ≤ update → 1 ≤ read' → 1 ≤ update' →
    SameOutcome t.collection.name
      ((t.withBatches read update).update Memory.service condition [params] [changes] w)
      ((t.withBatches read' update').update Memory.service condition [params] [changes] w)

/-- An identity that a match takes before a later match gives it up is taken once more behind
that. -/
def RetakesIdentities (plan : Plan) (changes : Changes) (ds : List Document) : Prop :=
  ∀ before d after, ds = before ++ d :: after → newId plan changes d ≠ oldId d →
    (∃ e ∈ before, newId plan changes e = oldId d) → ∃ e ∈ after, newId plan changes e = oldId d

theorem settled_map_stage_iff {plan : Plan} {ds : List Document}
    (hnames : ∀ d ∈ ds, d.HasDistinctNames) (hid : idField ∉ changes.map Prod.fst) :
    Settled (ds.map (stage plan changes)) ↔ RetakesIdentities plan changes ds := by
  have hexists : ∀ {es : List Document} {id : String}, (∀ e ∈ es, e.HasDistinctNames) →
      ((∃ y ∈ es.map (stage plan changes), y.target = id) ↔
        ∃ e ∈ es, newId plan changes e = id) := by
    intro es id hes
    simp only [List.mem_map, exists_exists_and_eq_and]
    exact exists_congr fun e => and_congr_right fun he => by rw [target_stage (hes e he) hid]
  constructor
  · rintro h before d after rfl hmoves hbefore
    have hfront : ∀ e ∈ before, e.HasDistinctNames := fun e he => hnames e (by simp [he])
    have hback : ∀ e ∈ after, e.HasDistinctNames := fun e he => hnames e (by simp [he])
    refine (hexists hback).1 (h (before.map _) (stage plan changes d) (after.map _) (oldId d)
      (by simp) (deletion_stage.2 ⟨hmoves, rfl⟩) ((hexists hfront).2 hbefore))
  · rintro h xs x ys id hsplit hdeletion hbefore
    obtain ⟨before, rest, rfl, rfl, hrest⟩ := List.map_eq_append_iff.1 hsplit
    obtain ⟨d, after, rfl, rfl, rfl⟩ := List.map_eq_cons_iff.1 hrest
    obtain ⟨hmoves, rfl⟩ := deletion_stage.1 hdeletion
    have hfront : ∀ e ∈ before, e.HasDistinctNames := fun e he => hnames e (by simp [he])
    have hback : ∀ e ∈ after, e.HasDistinctNames := fun e he => hnames e (by simp [he])
    exact (hexists hback).2 (h before d after rfl hmoves ((hexists hfront).1 hbefore))

section Outcome

variable (hconnected : t.isConnected = true) (hopen : w.store.check = .ok ())
  (hcontents : w.store.collections.get? t.collection.name = some c)
  (hresolve : condition.resolve params = .ok text) (hparse : Query.parse text = .ok q)

include hconnected hopen hcontents hresolve hparse

/-- Only the documents that groups of different sizes leave can differ. -/
theorem batchIndependent_iff (hids : ∀ d ∈ c.select q, (d.get? idField).isSome = true) :
    t.BatchIndependent condition params changes w ↔
      ∀ b b', 1 ≤ b → 1 ≤ b' →
        ((sendAll b [] ((c.select q).map (stage (planFor t [changes]) changes))
            c).documents.map unversioned).Perm
          ((sendAll b' [] ((c.select q).map (stage (planFor t [changes]) changes))
            c).documents.map unversioned) := by
  have hrun : ∀ read update, ∃ flushes log,
      (t.withBatches read update).update Memory.service condition [params] [changes] w =
        (reportOf { UpdateReport.empty with matched := (c.select q).length }
            ((c.select q).map (stage (planFor t [changes]) changes)) flushes,
          { withContents (planFor t [changes]) w
              (sendAll update [] ((c.select q).map (stage (planFor t [changes]) changes)) c) with
            log := log }) := fun read update =>
    update_memory (t := t.withBatches read update) hconnected hopen hcontents hresolve hparse hids
  constructor
  · intro h b b' hb hb'
    obtain ⟨m, log, hm⟩ := hrun 1 b
    obtain ⟨n, log', hn⟩ := hrun 1 b'
    have hsame := h 1 b 1 b' le_rfl hb le_rfl hb'
    rw [hm, hn] at hsame
    exact (sameOutcome_iff (planFor t [changes]) w _ _ _ _ m n log log').1 hsame
  · intro h read update read' update' _ hb _ hb'
    obtain ⟨m, log, hm⟩ := hrun read update
    obtain ⟨n, log', hn⟩ := hrun read' update'
    rw [hm, hn]
    exact (sameOutcome_iff (planFor t [changes]) w _ _ _ _ m n log log').2 (h _ _ hb hb')

/-- In an ordinary collection, and for scalar changes to other fields than the identity, the outcome
does not depend on the batches exactly when identities that are taken before they are given up are
taken once more. -/
theorem batchIndependent_iff_retakes (hordinary : Ordinary c.documents)
    (hid : idField ∉ changes.map Prod.fst) (hscalar : ∀ f ∈ changes, f.2.IsScalar) :
    t.BatchIndependent condition params changes w ↔
      RetakesIdentities (planFor t [changes]) changes (c.select q) := by
  have hfound : Ordinary (c.select q) := hordinary.filter _
  have horderly : Orderly ((c.select q).map (stage (planFor t [changes]) changes)) :=
    orderly_map_stage hfound hid hscalar
  rw [batchIndependent_iff hconnected hopen hcontents hresolve hparse fun d hd =>
    isSome_get? hfound.keyed hd, ← settled_map_stage_iff hfound.names hid]
  constructor
  · intro h
    refine settled_of_isSome_found horderly c fun id => Bool.eq_iff_iff.2 ?_
    have hperm := h 1 (((c.select q).map (stage (planFor t [changes]) changes)).length + 1) le_rfl
      (by omega)
    rw [isSome_found_iff, isSome_found_iff, (hperm.map _).mem_iff]
  · intro hsettled b b' _ _
    have hleft := ordinary_sendAll_stage hordinary hid hscalar (planFor t [changes]) q
    exact perm_of_find (hleft b).keyed (hleft b').keyed fun id =>
      found_sendAll_congr horderly hsettled b b' c id

end Outcome

/-- An update whose condition cannot be resolved or read does nothing, in batches of any size. -/
theorem batchIndependent_of_error (hconnected : t.isConnected = true)
    (hopen : w.store.check = .ok ())
    (hcontents : w.store.collections.get? t.collection.name = some c) {e : StoreError}
    (hcollected : collected c condition params = .error e) :
    t.BatchIndependent condition params changes w := by
  have hrun : ∀ read update, ∃ log,
      (t.withBatches read update).update Memory.service condition [params] [changes] w =
        ({ UpdateReport.empty with failed := true }, { w with log := log }) := by
    intro read update
    have hpair : (runPair Memory.service (planFor (t.withBatches read update) [changes]) condition
        ⟨params, changes, none⟩).run ⟨w, .empty⟩ = (.error e, ⟨w, .empty⟩) :=
      runPair_memory_error .empty hopen hcontents hcollected
    have hpairs : makePairs [params] [changes] none = .ok [⟨params, changes, none⟩] := rfl
    exact reconcile_of_runPairs (t := t.withBatches read update) "update" hconnected hpairs
      (run_bind_error hpair _)
  intro read update read' update' _ _ _ _
  obtain ⟨log, hlog⟩ := hrun read update
  obtain ⟨log', hlog'⟩ := hrun read' update'
  rw [hlog, hlog']
  exact ⟨rfl, rfl, rfl, rfl, .refl _⟩

/-- Whatever a table has come to by adding and updating, and whatever the condition and its values,
the outcome of an update does not depend on the batches exactly when identities that are taken before
they are given up are taken once more. -/
theorem Reachable.batchIndependent_iff (h : t.Reachable w) (hconnected : t.isConnected = true)
    (hcontents : w.store.collections.get? t.collection.name = some c) (condition : Condition)
    (params : Bindings) (hid : idField ∉ changes.map Prod.fst)
    (hscalar : ∀ f ∈ changes, f.2.IsScalar) :
    t.BatchIndependent condition params changes w ↔
      RetakesIdentities (planFor t [changes]) changes (reached c condition params) := by
  have hopen := h.holdsOrdinary.isOpen
  have hordinary : Ordinary c.documents := by
    obtain ⟨c', hcontents', hordinary⟩ := h.holdsOrdinary.ordinary
    rw [hcontents] at hcontents'
    exact Option.some.inj hcontents' ▸ hordinary
  cases hcollected : collected c condition params with
  | error e =>
    rw [reached, hcollected]
    refine iff_of_true (batchIndependent_of_error hconnected hopen hcontents hcollected) ?_
    intro before d after hnil
    simp at hnil
  | ok ds =>
    obtain ⟨text, hresolve, hquery⟩ := bind_eq_ok_iff.1 hcollected
    obtain ⟨q, hparse, hselect⟩ := bind_eq_ok_iff.1 hquery
    rw [reached, hcollected, ← Except.ok.inj hselect]
    exact batchIndependent_iff_retakes hconnected hopen hcontents hresolve hparse hordinary hid
      hscalar

/-- The outcome of an update does not depend on the sizes of its batches when no write touches an
identity that a later match gives up.  In an ordinary collection, and for scalar changes to other
fields than the identity, it does not depend on them exactly when identities that are taken before
they are given up are taken once more; and this is so in every collection that the table comes to by
adding and updating. -/
theorem batchIndependent_update (hconnected : t.isConnected = true)
    (hopen : w.store.check = .ok ())
    (hcontents : w.store.collections.get? t.collection.name = some c)
    (hresolve : condition.resolve params = .ok text) (hparse : Query.parse text = .ok q)
    (changes : Changes) :
    ((∀ d ∈ c.select q, (d.get? idField).isSome = true) →
        ((c.select q).map (stage (planFor t [changes]) changes)).Pairwise Independent →
          t.BatchIndependent condition params changes w) ∧
      (Ordinary c.documents → idField ∉ changes.map Prod.fst →
          (∀ f ∈ changes, f.2.IsScalar) →
            (t.BatchIndependent condition params changes w ↔
              RetakesIdentities (planFor t [changes]) changes (c.select q))) ∧
      (t.Reachable w → idField ∉ changes.map Prod.fst → (∀ f ∈ changes, f.2.IsScalar) →
        ∀ (condition' : Condition) (params' : Bindings),
          (t.BatchIndependent condition' params' changes w ↔
            RetakesIdentities (planFor t [changes]) changes (reached c condition' params'))) := by
  refine ⟨fun hids hindependent => ?_, fun hordinary hid hscalar => ?_,
    fun hreachable hid hscalar condition' params' => ?_⟩
  · refine (batchIndependent_iff hconnected hopen hcontents hresolve hparse hids).2
      fun b b' _ _ => ?_
    rw [sendAll_eq_applyGroup b [] hindependent, sendAll_eq_applyGroup b' [] hindependent]
  · exact batchIndependent_iff_retakes hconnected hopen hcontents hresolve hparse hordinary hid
      hscalar
  · exact hreachable.batchIndependent_iff hconnected hcontents condition' params' hid hscalar

/-- A connected table whose key has two columns. -/
def pairTable : Table :=
  { name := "pairs"
    layout := ⟨[⟨"k1", .string⟩, ⟨"k2", .string⟩], some ["k1", "k2"]⟩
    options := {}
    collection := ⟨"pairs", "", 1, 1, "", "", .ofKey none⟩
    connected := true
    schema := some (.ofKey none) }

/-- A store with documents in the collection of the table. -/
def pairWorld (ds : List Document) : World Memory :=
  ⟨Memory.empty.setContents "pairs" ⟨true, none, ds, ds.length⟩, 0, []⟩

theorem batchIndependent_update_pairTable :
    let ds : List Document :=
      [⟨[("k1", .text "a"), ("k2", .text "b"), ("id", .text "1")]⟩,
        ⟨[("k1", .text "c"), ("k2", .text "d"), ("id", .text "2")]⟩]
    let changes : Changes := [("k1", .text "x")]
    Ordinary ds ∧ idField ∉ changes.map Prod.fst ∧ (∀ f ∈ changes, f.2.IsScalar) ∧
      (pairTable.BatchIndependent .all .empty changes (pairWorld ds) ↔
        RetakesIdentities (planFor pairTable [changes]) changes ds) := by
  intro ds changes
  have hordinary : Ordinary ds := by
    refine ⟨⟨?_, ?_⟩, ?_, ?_⟩ <;> decide +kernel
  have hid : idField ∉ changes.map Prod.fst := by decide
  have hscalar : ∀ f ∈ changes, f.2.IsScalar := by decide
  have hselect : Contents.select ⟨true, none, ds, ds.length⟩ .all = ds := rfl
  have hresolve : Condition.all.resolve .empty = .ok matchAll := rfl
  have hparse : Query.parse matchAll = .ok .all := rfl
  have hspec := batchIndependent_update (t := pairTable) (w := pairWorld ds) rfl rfl
    (get?_setContents _ _ _) hresolve hparse changes
  rw [hselect] at hspec
  exact ⟨hordinary, hid, hscalar, hspec.2.1 hordinary hid hscalar⟩

/-- Two rows under keys that are written alike once the first column has changed: the first row
takes the identity of the second one before that gives it up.  In batches of one match the first row
is lost. -/
theorem not_batchIndependent_pairTable :
    let w := (pairTable.add Memory.service [[.text "q", .text "yz"], [.text "xy", .text "z"]]
      (pairWorld [])).2
    let run := fun update => (pairTable.withBatches 1 update).update Memory.service .all [.empty]
      [[("k1", .text "x")]] w
    pairTable.Reachable w ∧ ((run 1).2.store.documents "pairs").length = 1 ∧
      ((run 2).2.store.documents "pairs").length = 2 ∧
      ¬ SameOutcome "pairs" (run 1) (run 2) := by
  intro w run
  have hempty : pairTable.Reachable (pairWorld []) := .start rfl (get?_setContents _ _ _) rfl
  have hreachable : pairTable.Reachable w := hempty.add fun r hr f hf => by
    rcases List.mem_pair.1 hr with rfl | rfl <;> rcases List.mem_pair.1 hf with rfl | rfl <;>
      exact ⟨trivial, fun hid => absurd hid (by decide)⟩
  have hone : ((run 1).2.store.documents "pairs").length = 1 := by decide +kernel
  have htwo : ((run 2).2.store.documents "pairs").length = 2 := by decide +kernel
  refine ⟨hreachable, hone, htwo, fun hsame => ?_⟩
  have hlength := hsame.documents.length_eq
  rw [List.length_map, List.length_map, hone, htwo] at hlength
  exact absurd hlength (by decide)

end SearchTable.Table
