import SearchTable.Proofs.Table.Batching
/-!
# What an update does to the records of a collection

The reference for an update is one pass over the documents for every pair (`revise`): a document
that the query does not match stays as it is, a match that keeps its identity is changed where it
stands, and one that gets another identity is taken out and put behind the others, in the order of
the matches.  No batches, markers or deletions occur in it.

`update_eq_contents` says that an update over the store in memory does the same for all batch sizes,
when the identities that matches change to are new ones (`Fresh`).  `foldl_accept_revise` carries it:
the writes of a group pass over what its deletions leave as `revise` passes over the documents.
-/

namespace SearchTable.Reconcile

open Memory Document

variable {plan : Plan} {q : Query.Node} {changes : Changes} {d : Document} {ds : List Document}
  {c : Contents} {w : World Memory}

/-! ## Changes -/

/-- Changes that set or remove fields one by one: there are some, each field is named once, the
identity and the version are not, and no value is an object of the store. -/
structure ProperChanges (changes : Changes) : Prop where
  nonempty : changes ≠ []
  nodup : (changes.map Prod.fst).Nodup
  id : idField ∉ changes.map Prod.fst
  version : versionField ∉ changes.map Prod.fst
  scalar : ∀ f ∈ changes, f.2.IsScalar

instance (changes : Changes) : Decidable (ProperChanges changes) :=
  decidable_of_iff
    (changes ≠ [] ∧ (changes.map Prod.fst).Nodup ∧ idField ∉ changes.map Prod.fst ∧
      versionField ∉ changes.map Prod.fst ∧ ∀ f ∈ changes, f.2.IsScalar)
    ⟨fun ⟨h₁, h₂, h₃, h₄, h₅⟩ => ⟨h₁, h₂, h₃, h₄, h₅⟩,
      fun h => ⟨h.nonempty, h.nodup, h.id, h.version, h.scalar⟩⟩

/-- A changed field has its new value, or is gone when that is absent; the other ones are kept. -/
theorem get?_applyChanges (h : (changes.map Prod.fst).Nodup) (d : Document) (key : String) :
    (applyChanges d changes).get? key =
      match changes.lookup key with
      | some v => if v.isNull then none else some v.toStored
      | none => d.get? key := by
  induction changes generalizing d with
  | nil => rfl
  | cons change changes ih =>
    obtain ⟨name, v⟩ := change
    obtain ⟨hname, hnodup⟩ := List.nodup_cons.1 h
    rw [applyChanges_cons, ih hnodup]
    by_cases hkey : key = name
    · subst hkey
      rw [lookup_changes_eq_none hname, List.lookup_cons_self]
      by_cases hv : v.isNull = true <;> simp [hv, get?_erase]
    · rw [List.lookup_cons, beq_eq_false_iff_ne.2 hkey]
      cases changes.lookup key with
      | some u => rfl
      | none => by_cases hv : v.isNull = true <;> simp [hv, get?_erase, hkey]

/-! ## The reference -/

/-- A match after the changes: in its old document when it keeps its identity, in a new one when it
gets another one. -/
def revised (plan : Plan) (changes : Changes) (version : Nat) (d : Document) : Document :=
  withVersion version <|
    if newId plan changes d = oldId d then applyChanges d changes
    else rebuiltDocument d (newId plan changes d) changes

/-- What one pair makes of a list of documents: those that keep their places, and those that go to
the end.  Every match draws a version, from the given one on. -/
def revise (plan : Plan) (q : Query.Node) (changes : Changes) :
    (accepted : Nat) → List Document → List Document × List Document
  | _, [] => ([], [])
  | accepted, d :: ds =>
    if q.holds d then
      let (kept, moved) := revise plan q changes (accepted + 1) ds
      if newId plan changes d = oldId d then
        (revised plan changes (accepted + 1) d :: kept, moved)
      else (kept, revised plan changes (accepted + 1) d :: moved)
    else
      let (kept, moved) := revise plan q changes accepted ds
      (d :: kept, moved)

/-- The contents after one pair. -/
def reviseContents (plan : Plan) (q : Query.Node) (changes : Changes) (c : Contents) : Contents :=
  { c with
    documents := (revise plan q changes c.accepted c.documents).1 ++
      (revise plan q changes c.accepted c.documents).2
    accepted := c.accepted + (c.select q).length }

/-- A document that keeps its place: it is not matched, or keeps its identity. -/
def keepsPlace (plan : Plan) (q : Query.Node) (changes : Changes) (d : Document) : Bool :=
  !q.holds d || newId plan changes d = oldId d

theorem revise_of_unmatched (h : q.holds d = false) (n : Nat) (ds : List Document) :
    revise plan q changes n (d :: ds) =
      (d :: (revise plan q changes n ds).1, (revise plan q changes n ds).2) := by
  simp [revise, h]

theorem revise_of_stays (h : q.holds d = true) (hsame : newId plan changes d = oldId d) (n : Nat)
    (ds : List Document) :
    revise plan q changes n (d :: ds) =
      (revised plan changes (n + 1) d :: (revise plan q changes (n + 1) ds).1,
        (revise plan q changes (n + 1) ds).2) := by
  simp [revise, h, hsame]

theorem revise_of_moves (h : q.holds d = true) (hmoves : newId plan changes d ≠ oldId d) (n : Nat)
    (ds : List Document) :
    revise plan q changes n (d :: ds) =
      ((revise plan q changes (n + 1) ds).1,
        revised plan changes (n + 1) d :: (revise plan q changes (n + 1) ds).2) := by
  simp [revise, h, hmoves]

/-- Up to versions the documents that keep their places are the unmatched ones as they are, and the
changed matches, each where it stands. -/
theorem map_unversioned_revise_fst (n : Nat) (ds : List Document) :
    (revise plan q changes n ds).1.map unversioned =
      (ds.filter (keepsPlace plan q changes)).map fun d =>
        unversioned (if q.holds d then applyChanges d changes else d) := by
  induction ds generalizing n with
  | nil => rfl
  | cons d ds ih =>
    by_cases hholds : q.holds d = true
    · by_cases hsame : newId plan changes d = oldId d
      · rw [revise_of_stays hholds hsame, List.map_cons, ih,
          List.filter_cons_of_pos (by simp [keepsPlace, hsame]), List.map_cons, if_pos hholds,
          revised, if_pos hsame, unversioned_withVersion]
      · rw [revise_of_moves hholds hsame, ih,
          List.filter_cons_of_neg (by simp [keepsPlace, hholds, hsame])]
    · rw [Bool.not_eq_true] at hholds
      rw [revise_of_unmatched hholds, List.map_cons, ih,
        List.filter_cons_of_pos (by simp [keepsPlace, hholds]), List.map_cons, hholds]
      rfl

/-- Up to versions the documents at the end are the matches with another identity, written anew in
the order of the matches. -/
theorem map_unversioned_revise_snd (n : Nat) (ds : List Document) :
    (revise plan q changes n ds).2.map unversioned =
      (ds.filter fun d => !keepsPlace plan q changes d).map fun d =>
        unversioned (rebuiltDocument d (newId plan changes d) changes) := by
  induction ds generalizing n with
  | nil => rfl
  | cons d ds ih =>
    by_cases hholds : q.holds d = true
    · by_cases hsame : newId plan changes d = oldId d
      · rw [revise_of_stays hholds hsame, ih,
          List.filter_cons_of_neg (by simp [keepsPlace, hsame])]
      · rw [revise_of_moves hholds hsame, List.map_cons, ih,
          List.filter_cons_of_pos (by simp [keepsPlace, hholds, hsame]), List.map_cons, revised,
          if_neg hsame, unversioned_withVersion]
    · rw [Bool.not_eq_true] at hholds
      rw [revise_of_unmatched hholds, ih, List.filter_cons_of_neg (by simp [keepsPlace, hholds])]

/-- Up to versions one pair leaves the documents that keep their places, and behind them the ones
that have been written anew. -/
theorem map_unversioned_reviseContents (plan : Plan) (q : Query.Node) (changes : Changes)
    (c : Contents) :
    (reviseContents plan q changes c).documents.map unversioned =
      ((c.documents.filter (keepsPlace plan q changes)).map fun d =>
          unversioned (if q.holds d then applyChanges d changes else d)) ++
        (c.documents.filter fun d => !keepsPlace plan q changes d).map fun d =>
          unversioned (rebuiltDocument d (newId plan changes d) changes) := by
  rw [reviseContents, List.map_append, map_unversioned_revise_fst, map_unversioned_revise_snd]

/-! ## One write -/

/-- A patch of an identity consists of the identity and one marker for every change. -/
theorem fields_patchDocument (h : ProperChanges changes) (id : String) :
    (patchDocument id changes).fields =
      (idField, .text id) :: changes.map fun f => (f.1, f.2.toStored.mark) := by
  have hnames : (changes.map fun f => (f.1, f.2.toStored.mark)).map Prod.fst =
      changes.map Prod.fst := by
    rw [List.map_map]
    rfl
  rw [patchDocument_eq, foldl_insert_of_nodup]
  · rfl
  · rw [hnames]
    exact List.nodup_cons.2 ⟨h.id, h.nodup⟩

theorem isPatch_patchDocument (h : ProperChanges changes) (id : String) :
    isPatch (patchDocument id changes) = true := by
  obtain ⟨change, rest, rfl⟩ := List.exists_cons_of_ne_nil h.nonempty
  simp [isPatch, fields_patchDocument h]

/-- Setting markers makes the changes. -/
theorem applyFields_map_mark (hversion : versionField ∉ changes.map Prod.fst)
    (hscalar : ∀ f ∈ changes, f.2.IsScalar) (d : Document) :
    applyFields d (changes.map fun f => (f.1, f.2.toStored.mark)) = applyChanges d changes := by
  induction changes generalizing d with
  | nil => rfl
  | cons change changes ih =>
    obtain ⟨name, v⟩ := change
    simp only [List.map_cons, List.mem_cons, not_or] at hversion
    have hv : v.IsScalar := hscalar (name, v) (by simp)
    have hset : setIncoming d name v.toStored.mark =
        if v.isNull then d.erase name else d.insert name v.toStored := by
      rw [setIncoming, if_neg (Ne.symm hversion.1), newValue?_mark hv]
      cases v.isNull <;> rfl
    rw [List.map_cons, applyFields_cons, hset, applyChanges_cons]
    exact ih hversion.2 (fun f hf => hscalar f (List.mem_cons_of_mem _ hf)) _

/-- A patch makes the changes in the document of its identity. -/
theorem applyFields_patchDocument (h : ProperChanges changes)
    (hid : d.getText? idField = some (oldId d)) :
    applyFields d (patchDocument (oldId d) changes).fields = applyChanges d changes := by
  have hself : setIncoming d idField (.text (oldId d)) = d := by
    rw [setIncoming, if_neg (by decide), newValue?_of_unmarked rfl]
    exact insert_of_get? (getText?_eq_some_iff.1 hid)
  rw [fields_patchDocument h, applyFields_cons, hself,
    applyFields_map_mark h.version h.scalar]

/-- A rebuilt document has no version. -/
theorem unversioned_rebuiltDocument (h : ProperChanges changes) (d : Document) (id : String) :
    unversioned (rebuiltDocument d id changes) = rebuiltDocument d id changes := by
  refine erase_of_get? ?_
  rw [rebuiltDocument, get?_insert, if_neg (by decide), get?_applyChanges h.nodup,
    lookup_changes_eq_none h.version]
  simp [get?_erase]

/-- A patch changes the document of its identity where it stands. -/
theorem accept_stage_of_stays (h : ProperChanges changes)
    (hid : d.getText? idField = some (oldId d)) (hsame : newId plan changes d = oldId d)
    {before after : List Document} (hdocuments : c.documents = before ++ d :: after)
    (hbefore : ∀ e ∈ before, e.getText? idField ≠ some (oldId d)) :
    c.accept (stage plan changes d).write =
      { c with
        documents := before ++ revised plan changes (c.accepted + 1) d :: after
        accepted := c.accepted + 1 } := by
  have hno : ∀ e ∈ before, hasId (oldId d) e = false := fun e he => by
    simpa [hasId] using hbefore e he
  have hwritten : written (c.accepted + 1) (patchDocument (oldId d) changes) d =
      revised plan changes (c.accepted + 1) d := by
    rw [written, if_pos (isPatch_patchDocument h _), applyFields_patchDocument h hid, revised,
      if_pos hsame]
  rw [stage_of_eq hsame, accept_eq (addresses_patchDocument h.id _).get?_eq, hdocuments, idText,
    Stored.plain, changeFirst_append hno (hasId_eq_true_iff.2 hid), hwritten, Option.getD_some]

/-- A rebuilt document under a new identity goes to the end. -/
theorem accept_stage_of_moves (h : ProperChanges changes) (hnames : d.HasDistinctNames)
    (hplain : isPatch d = false) (hmoves : newId plan changes d ≠ oldId d)
    (hnew : ∀ e ∈ c.documents, e.getText? idField ≠ some (newId plan changes d)) :
    c.accept (stage plan changes d).write =
      { c with
        documents := c.documents ++ [revised plan changes (c.accepted + 1) d]
        accepted := c.accepted + 1 } := by
  have hno : ∀ e ∈ c.documents, hasId (newId plan changes d) e = false := fun e he => by
    simpa [hasId] using hnew e he
  have hfields : applyFields .empty (rebuiltDocument d (newId plan changes d) changes).fields =
      rebuiltDocument d (newId plan changes d) changes := by
    rw [applyFields_empty_of_plain (hasDistinctNames_rebuiltDocument hnames _ _)
      (isPatch_rebuiltDocument hplain h.scalar _), unversioned_rebuiltDocument h]
  rw [stage_of_ne hmoves, accept_eq (addresses_rebuiltDocument hnames _ _).get?_eq, idText,
    Stored.plain, changeFirst_eq_none_iff.2 hno, hfields, Option.getD_none, revised, if_neg hmoves]

theorem getText?_revised (plan : Plan) (h : ProperChanges changes)
    (hid : d.getText? idField = some (oldId d)) (version : Nat) :
    (revised plan changes version d).getText? idField = some (newId plan changes d) := by
  rw [revised, getText?_withVersion]
  split
  · rename_i hsame
    rw [getText?_applyChanges h.id, hid, hsame]
  · exact getText?_insert_text _ _ _

/-! ## New identities -/

/-- The identities that matches change to are new ones: no document has one of them, and no other
match gets it. -/
structure Fresh (plan : Plan) (q : Query.Node) (changes : Changes) (ds : List Document) : Prop where
  unused : ∀ d ∈ ds, q.holds d = true → newId plan changes d ≠ oldId d →
    ∀ e ∈ ds, e.getText? idField ≠ some (newId plan changes d)
  apart : ∀ d ∈ ds, q.holds d = true → newId plan changes d ≠ oldId d →
    ∀ e ∈ ds, q.holds e = true → e ≠ d → newId plan changes e ≠ newId plan changes d

theorem Fresh.of_cons (h : Fresh plan q changes (d :: ds)) : Fresh plan q changes ds where
  unused e he hholds hmoves e' he' :=
    h.unused e (List.mem_cons_of_mem _ he) hholds hmoves e' (List.mem_cons_of_mem _ he')
  apart e he hholds hmoves e' he' :=
    h.apart e (List.mem_cons_of_mem _ he) hholds hmoves e' (List.mem_cons_of_mem _ he')

/-- Matches that change to new identities can be sent in groups of any size. -/
theorem pairwise_independent_stage (h : Ordinary ds) (hproper : ProperChanges changes)
    (hfresh : Fresh plan q changes ds) :
    ((ds.filter (Query.Node.holds · q)).map (stage plan changes)).Pairwise Independent := by
  have hids : (ds.filter (Query.Node.holds · q)).Pairwise fun d e => oldId d ≠ oldId e :=
    List.pairwise_map.1 (nodup_map_oldId (h.filter _).keyed)
  refine List.pairwise_map.2 (hids.imp_of_mem fun {d e} hd he hne id hdeletion => ?_)
  obtain ⟨hd, hholds⟩ := List.mem_filter.1 hd
  obtain ⟨he, -⟩ := List.mem_filter.1 he
  obtain ⟨-, rfl⟩ := deletion_stage.1 hdeletion
  rw [touches_iff (addresses_stage (h.names d hd) hproper.id)]
  intro htaken
  by_cases hsame : newId plan changes d = oldId d
  · exact hne (hsame.symm.trans htaken.symm)
  · refine hfresh.unused d hd hholds hsame e he ?_
    rw [getText?_eq_oldId h.keyed he, htaken]

/-! ## One group -/

/-- The invariant of a pass: no document that has been passed has the identity of one that follows,
or an identity that one of these changes to. -/
structure Passed (plan : Plan) (q : Query.Node) (changes : Changes)
    (kept moved ds : List Document) : Prop where
  old : ∀ e ∈ kept, ∀ d ∈ ds, e.getText? idField ≠ d.getText? idField
  new : ∀ d ∈ ds, q.holds d = true → newId plan changes d ≠ oldId d →
    ∀ e ∈ kept ++ moved, e.getText? idField ≠ some (newId plan changes d)

variable {kept moved : List Document} {e : Document}

theorem getText?_ne_of_mem (h : Keyed (d :: ds)) (he : e ∈ ds) :
    d.getText? idField ≠ e.getText? idField := by
  intro heq
  have hmem : d.getText? idField ∈ ds.map (Document.getText? · idField) := by
    rw [heq]
    exact List.mem_map_of_mem he
  exact (List.nodup_cons.1 h.nodup).1 hmem

theorem passed_nil (ds : List Document) : Passed plan q changes [] [] ds := ⟨by simp, by simp⟩

/-- A document that keeps its place is passed. -/
theorem Passed.keep (h : Passed plan q changes kept moved (d :: ds)) (hds : Keyed (d :: ds))
    (hfresh : Fresh plan q changes (d :: ds)) (he : e.getText? idField = d.getText? idField) :
    Passed plan q changes (kept ++ [e]) moved ds where
  old e' he' d' hd' := by
    rcases List.mem_append.1 he' with he' | he'
    · exact h.old e' he' d' (List.mem_cons_of_mem _ hd')
    · rw [List.mem_singleton.1 he', he]
      exact getText?_ne_of_mem hds hd'
  new d' hd' hholds hmoves e' he' := by
    rw [List.append_assoc, List.mem_append, List.singleton_append, List.mem_cons] at he'
    have hd'' := List.mem_cons_of_mem d hd'
    rcases he' with he' | rfl | he'
    · exact h.new d' hd'' hholds hmoves e' (List.mem_append_left _ he')
    · rw [he]
      exact hfresh.unused d' hd'' hholds hmoves d List.mem_cons_self
    · exact h.new d' hd'' hholds hmoves e' (List.mem_append_right _ he')

/-- A match that goes to the end is passed. -/
theorem Passed.move (h : Passed plan q changes kept moved (d :: ds)) (hds : Keyed (d :: ds))
    (hfresh : Fresh plan q changes (d :: ds)) (hholds : q.holds d = true)
    (he : e.getText? idField = some (newId plan changes d)) :
    Passed plan q changes kept (moved ++ [e]) ds where
  old e' he' d' hd' := h.old e' he' d' (List.mem_cons_of_mem _ hd')
  new d' hd' hholds' hmoves' e' he' := by
    have hd'' := List.mem_cons_of_mem d hd'
    rw [← List.append_assoc] at he'
    rcases List.mem_append.1 he' with he' | he'
    · exact h.new d' hd'' hholds' hmoves' e' he'
    · rw [List.mem_singleton.1 he', he]
      have hne : d ≠ d' := fun heq => getText?_ne_of_mem hds hd' (by rw [heq])
      exact fun heq => hfresh.apart d' hd'' hholds' hmoves' d List.mem_cons_self hholds hne
        (Option.some.inj heq)

/-- The identity that a match changes to is not in the collection when the match has its turn. -/
theorem Passed.ne_newId (h : Passed plan q changes kept moved (d :: ds))
    (hfresh : Fresh plan q changes (d :: ds)) (hholds : q.holds d = true)
    (hmoves : newId plan changes d ≠ oldId d) {p : Document → Bool}
    (he : e ∈ kept ++ ds.filter p ++ moved) :
    e.getText? idField ≠ some (newId plan changes d) := by
  rw [List.append_assoc, List.mem_append, List.mem_append] at he
  rcases he with he | he | he
  · exact h.new d List.mem_cons_self hholds hmoves e (List.mem_append_left _ he)
  · exact hfresh.unused d List.mem_cons_self hholds hmoves e
      (List.mem_cons_of_mem _ (List.mem_of_mem_filter he))
  · exact h.new d List.mem_cons_self hholds hmoves e (List.mem_append_right _ he)

/-- The writes of a group pass over what its deletions leave as the reference passes over the
documents. -/
theorem foldl_accept_revise (hproper : ProperChanges changes) {kept moved ds : List Document}
    (hds : Ordinary ds) (hfresh : Fresh plan q changes ds)
    (hpassed : Passed plan q changes kept moved ds) {c : Contents}
    (hdocuments : c.documents = kept ++ ds.filter (keepsPlace plan q changes) ++ moved) :
    (((ds.filter (Query.Node.holds · q)).map (stage plan changes)).map Staged.write).foldl
        Contents.accept c =
      { c with
        documents := kept ++ (revise plan q changes c.accepted ds).1 ++
          (moved ++ (revise plan q changes c.accepted ds).2)
        accepted := c.accepted + (ds.filter (Query.Node.holds · q)).length } := by
  induction ds generalizing kept moved c with
  | nil =>
    simp only [List.filter_nil, List.append_nil] at hdocuments
    simp [revise, ← hdocuments]
  | cons d ds ih =>
    have hid := getText?_eq_oldId hds.keyed (List.mem_cons_self (a := d) (l := ds))
    have hrest := hds.of_cons
    by_cases hholds : q.holds d = true
    · have hselect : (d :: ds).filter (Query.Node.holds · q) =
          d :: ds.filter (Query.Node.holds · q) := List.filter_cons_of_pos hholds
      have hrevised := getText?_revised plan hproper hid (c.accepted + 1)
      rw [hselect, List.map_cons, List.map_cons, List.foldl_cons]
      by_cases hsame : newId plan changes d = oldId d
      · -- The match has been left where it stands, and the patch changes it there.
        rw [List.filter_cons_of_pos (by simp [keepsPlace, hsame]), List.append_assoc,
          List.cons_append] at hdocuments
        have hbefore : ∀ e ∈ kept, e.getText? idField ≠ some (oldId d) := fun e he =>
          hid ▸ hpassed.old e he d List.mem_cons_self
        rw [accept_stage_of_stays hproper hid hsame hdocuments hbefore,
          ih hrest hfresh.of_cons
            (hpassed.keep hds.keyed hfresh (hrevised.trans (by rw [hsame, hid]))) (by simp),
          revise_of_stays hholds hsame]
        simp [Nat.add_assoc, Nat.add_comm 1]
      · -- The match has been deleted, and the rebuilt document goes behind all others.
        rw [List.filter_cons_of_neg (by simp [keepsPlace, hholds, hsame])] at hdocuments
        have hnew : ∀ e ∈ c.documents, e.getText? idField ≠ some (newId plan changes d) := by
          intro e he
          rw [hdocuments] at he
          exact hpassed.ne_newId hfresh hholds hsame he
        rw [accept_stage_of_moves hproper (hds.names d List.mem_cons_self)
            (hds.plain d List.mem_cons_self) hsame hnew,
          ih hrest hfresh.of_cons (hpassed.move hds.keyed hfresh hholds hrevised)
            (by simp [hdocuments]),
          revise_of_moves hholds hsame]
        simp [Nat.add_assoc, Nat.add_comm 1]
    · rw [Bool.not_eq_true] at hholds
      rw [List.filter_cons_of_pos (by simp [keepsPlace, hholds]), List.append_assoc,
        List.cons_append] at hdocuments
      have hselect : (d :: ds).filter (Query.Node.holds · q) =
          ds.filter (Query.Node.holds · q) := List.filter_cons_of_neg (by simp [hholds])
      rw [hselect,
        ih hrest hfresh.of_cons (hpassed.keep hds.keyed hfresh rfl) (by simp [hdocuments]),
        revise_of_unmatched hholds]
      simp

/-! ## One pair -/

/-- The deletions of a pair leave the documents that keep their places. -/
theorem documents_discard (hc : Ordinary c.documents) :
    (c.discard (deletions ((c.select q).map (stage plan changes)))).documents =
      c.documents.filter (keepsPlace plan q changes) := by
  refine List.filter_congr fun d hd => ?_
  rw [isSpared_of_getText? (getText?_eq_oldId hc.keyed hd), deletions_map_stage, keepsPlace,
    Bool.eq_iff_iff, decide_eq_true_eq, Bool.or_eq_true, decide_eq_true_eq, Bool.not_eq_true']
  constructor
  · intro hspared
    by_contra hgone
    rw [not_or, Bool.not_eq_false] at hgone
    exact hspared (List.mem_map_of_mem
      (List.mem_filter.2 ⟨List.mem_filter.2 ⟨hd, hgone.1⟩, by simpa using hgone.2⟩))
  · intro hkeeps hmem
    obtain ⟨e, he, heq⟩ := List.mem_map.1 hmem
    obtain ⟨hselected, hmoves⟩ := List.mem_filter.1 he
    obtain ⟨hedocuments, hholds⟩ := List.mem_filter.1 hselected
    have hsame : e = d := List.inj_on_of_nodup_map (nodup_map_oldId hc.keyed) hedocuments hd heq
    subst hsame
    simp_all

/-- Sending the matches of a pair, in groups of any size, does what the reference does. -/
theorem sendAll_stage (hc : Ordinary c.documents) (hproper : ProperChanges changes)
    (hfresh : Fresh plan q changes c.documents) (batch : Nat) :
    sendAll batch [] ((c.select q).map (stage plan changes)) c =
      reviseContents plan q changes c := by
  have hdocuments : (c.discard (deletions ((c.select q).map (stage plan changes)))).documents =
      [] ++ c.documents.filter (keepsPlace plan q changes) ++ [] := by
    rw [documents_discard hc, List.append_nil, List.nil_append]
  have hindependent : ([] ++ (c.select q).map (stage plan changes)).Pairwise Independent :=
    pairwise_independent_stage hc hproper hfresh
  rw [sendAll_eq_applyGroup batch [] hindependent, List.nil_append, applyGroup]
  exact foldl_accept_revise hproper hc hfresh (passed_nil _) hdocuments

/-- A pair leaves an ordinary collection. -/
theorem ordinary_reviseContents (hc : Ordinary c.documents) (hproper : ProperChanges changes)
    (hfresh : Fresh plan q changes c.documents) :
    Ordinary (reviseContents plan q changes c).documents := by
  rw [← sendAll_stage hc hproper hfresh 1]
  exact ordinary_sendAll_stage hc hproper.id hproper.scalar plan q 1

/-! ## All pairs -/

/-- A pair of an update, with the query that its values make of the condition. -/
structure Revision where
  params : Bindings
  query : Query.Node
  changes : Changes

namespace Revision

/-- With the values of the pair the condition is read as its query. -/
def Asks (condition : Condition) (r : Revision) : Prop :=
  ∃ text, condition.resolve r.params = .ok text ∧ Query.parse text = .ok r.query

/-- The contents after a list of pairs. -/
def contents (plan : Plan) : List Revision → Contents → Contents
  | [], c => c
  | r :: rs, c => contents plan rs (reviseContents plan r.query r.changes c)

/-- The matches of a list of pairs, each under the changes of its pair. -/
def allMatches (plan : Plan) : List Revision → Contents → List (Changes × Document)
  | [], _ => []
  | r :: rs, c =>
    (c.select r.query).map (r.changes, ·) ++
      allMatches plan rs (reviseContents plan r.query r.changes c)

/-- Whenever a pair has its turn, the identities that its matches change to are new ones. -/
def AllFresh (plan : Plan) : List Revision → Contents → Prop
  | [], _ => True
  | r :: rs, c =>
    Fresh plan r.query r.changes c.documents ∧
      AllFresh plan rs (reviseContents plan r.query r.changes c)

/-- The report when matches have been revised. -/
def report (plan : Plan) (r : UpdateReport) (found : List (Changes × Document)) (flushes : Nat) :
    UpdateReport :=
  { r with
    matched := r.matched + found.length
    patched := r.patched + found.length
    deleted := r.deleted + (found.filter fun f => newId plan f.1 f.2 ≠ oldId f.2).length
    flushes := flushes }

end Revision

theorem report_report (r : UpdateReport) (xs ys : List (Changes × Document)) (m n : Nat) :
    Revision.report plan (Revision.report plan r xs m) ys n =
      Revision.report plan r (xs ++ ys) n := by
  simp [Revision.report, Nat.add_assoc]

theorem reportOf_map_stage (r : UpdateReport) (changes : Changes) (ds : List Document)
    (flushes : Nat) :
    reportOf { r with matched := r.matched + ds.length } (ds.map (stage plan changes)) flushes =
      Revision.report plan r (ds.map (changes, ·)) flushes := by
  have hmoves : ((ds.map (changes, ·)).filter fun f => newId plan f.1 f.2 ≠ oldId f.2).length =
      (ds.filter fun d => newId plan changes d ≠ oldId d).length := by
    rw [List.filter_map, List.length_map]
    rfl
  simp only [reportOf, Revision.report, deletions_map_stage, List.length_map, hmoves]

/-- Carrying out pairs over a store in memory leaves what the reference leaves, and reports its
matches. -/
theorem runPairs_memory {condition : Condition} (hopen : w.store.check = .ok ())
    (hcontents : w.store.collections.get? plan.collection = some c) (hc : Ordinary c.documents)
    {rs : List Revision} (hasks : ∀ r ∈ rs, r.Asks condition)
    (hproper : ∀ r ∈ rs, ProperChanges r.changes) (hfresh : Revision.AllFresh plan rs c)
    (report : UpdateReport) :
    ∃ flushes, (runPairs Memory.service plan condition
        (rs.map fun r => ⟨r.params, r.changes, none⟩)).run ⟨w, report⟩ =
      (.ok (), ⟨withContents plan w (Revision.contents plan rs c),
        Revision.report plan report (Revision.allMatches plan rs c) flushes⟩) := by
  induction rs generalizing w c report with
  | nil =>
    refine ⟨report.flushes, ?_⟩
    rw [Revision.contents, withContents_self hcontents]
    rfl
  | cons r rs ih =>
    obtain ⟨text, hresolve, hparse⟩ := hasks r List.mem_cons_self
    have hchanges := hproper r List.mem_cons_self
    have hids : ∀ d ∈ c.select r.query, (d.get? idField).isSome = true := fun d hd =>
      isSome_get? hc.keyed (List.mem_of_mem_filter hd)
    obtain ⟨m, hpair⟩ := runPair_memory report hopen hcontents r.changes
      (collected_eq_ok hresolve hparse) hids
    rw [sendAll_stage hc hchanges hfresh.1, reportOf_map_stage] at hpair
    obtain ⟨n, hrest⟩ := ih (w := withContents plan w (reviseContents plan r.query r.changes c))
      hopen (get?_withContents plan w _) (ordinary_reviseContents hc hchanges hfresh.1)
      (fun s hs => hasks s (List.mem_cons_of_mem _ hs))
      (fun s hs => hproper s (List.mem_cons_of_mem _ hs)) hfresh.2
      (Revision.report plan report ((c.select r.query).map (r.changes, ·)) m)
    rw [withContents_withContents, report_report] at hrest
    refine ⟨n, ?_⟩
    rw [List.map_cons, runPairs, run_bind hpair]
    exact hrest

/-- The reference for an update: whatever the sizes of the batches are, an update leaves the
collection that its pairs make one after the other, and reports their matches. -/
theorem update_eq_contents {t : Table} {condition : Condition} {rs : List Revision}
    (hconnected : t.isConnected = true) (hopen : w.store.check = .ok ())
    (hcontents : w.store.collections.get? t.collection.name = some c) (hc : Ordinary c.documents)
    (hasks : ∀ r ∈ rs, r.Asks condition) (hproper : ∀ r ∈ rs, ProperChanges r.changes)
    (hfresh : Revision.AllFresh (planFor t (rs.map Revision.changes)) rs c) :
    ∃ flushes log,
      t.update Memory.service condition (rs.map Revision.params) (rs.map Revision.changes) w =
        (Revision.report (planFor t (rs.map Revision.changes)) .empty
            (Revision.allMatches (planFor t (rs.map Revision.changes)) rs c) flushes,
          { w with
            store := w.store.setContents t.collection.name
              (Revision.contents (planFor t (rs.map Revision.changes)) rs c)
            log := log }) := by
  have hpairs : makePairs (rs.map Revision.params) (rs.map Revision.changes) none =
      .ok (rs.map fun r => ⟨r.params, r.changes, none⟩) := by
    rw [makePairs, if_neg (by simp)]
    simp [List.zip_map', List.map_map, Function.comp_def]
  have hplan : w.store.collections.get? (planFor t (rs.map Revision.changes)).collection = some c :=
    hcontents
  obtain ⟨flushes, hrun⟩ := runPairs_memory hopen hplan hc hasks hproper hfresh .empty
  obtain ⟨log, hlog⟩ := update_of_runPairs hconnected hpairs hrun
  exact ⟨flushes, log, hlog⟩

/-- One pair that changes the keys of all records, and one that changes another field of them. -/
def pairRevisions : List Revision :=
  [⟨.empty, .all, [("k1", .text "x")]⟩, ⟨.empty, .all, [("v", .long 3), ("k2", .null)]⟩]

/-- The first pair moves both rows, the second one changes them where they stand by then. -/
theorem update_eq_contents_pairRevisions :
    let ds : List Document :=
      [⟨[("k1", .text "a"), ("k2", .text "b"), ("id", .text "1")]⟩,
        ⟨[("k1", .text "c"), ("k2", .text "d"), ("id", .text "2")]⟩]
    let id₁ := "cbd51a7c-816f-3071-8ac9-d03c612d2152"
    let id₂ := "63601578-48b7-38dc-b75a-ad572286fbcb"
    let c : Contents := ⟨true, none, ds, ds.length⟩
    let plan := planFor Table.pairTable (pairRevisions.map Revision.changes)
    Ordinary ds ∧ (∀ r ∈ pairRevisions, ProperChanges r.changes) ∧
      Revision.AllFresh plan pairRevisions c ∧
      (reviseContents plan .all [("k1", .text "x")] c).documents.map unversioned =
        [⟨[("k1", .text "x"), ("k2", .text "b"), ("id", .text id₁)]⟩,
          ⟨[("k1", .text "x"), ("k2", .text "d"), ("id", .text id₂)]⟩] ∧
      ∃ flushes log,
        Table.pairTable.update Memory.service .all (pairRevisions.map Revision.params)
            (pairRevisions.map Revision.changes) (Table.pairWorld ds) =
          (⟨4, 4, 0, 2, flushes, false⟩,
            { Table.pairWorld ds with
              store := (Table.pairWorld ds).store.setContents "pairs"
                ⟨true, none,
                  [⟨[("k1", .text "x"), ("id", .text id₁), ("_version_", .int64 5),
                      ("v", .int64 3)]⟩,
                    ⟨[("k1", .text "x"), ("id", .text id₂), ("_version_", .int64 6),
                      ("v", .int64 3)]⟩], 6⟩
              log := log }) := by
  intro ds id₁ id₂ c plan
  have hordinary : Ordinary ds := by
    refine ⟨⟨?_, ?_⟩, ?_, ?_⟩ <;> decide +kernel
  have hasks : ∀ r ∈ pairRevisions, r.Asks .all := by
    intro r hr
    refine ⟨matchAll, rfl, ?_⟩
    rcases List.mem_pair.1 hr with rfl | rfl <;> rfl
  have hproper : ∀ r ∈ pairRevisions, ProperChanges r.changes := by decide
  have hfresh : Revision.AllFresh plan pairRevisions c := by
    refine ⟨⟨?_, ?_⟩, ⟨?_, ?_⟩, trivial⟩ <;> decide +kernel
  have hmoved : (reviseContents plan .all [("k1", .text "x")] c).documents.map unversioned =
      [⟨[("k1", .text "x"), ("k2", .text "b"), ("id", .text id₁)]⟩,
        ⟨[("k1", .text "x"), ("k2", .text "d"), ("id", .text id₂)]⟩] := by
    rw [map_unversioned_reviseContents]
    decide +kernel
  have hcontents : Revision.contents plan pairRevisions c =
      ⟨true, none,
        [⟨[("k1", .text "x"), ("id", .text id₁), ("_version_", .int64 5), ("v", .int64 3)]⟩,
          ⟨[("k1", .text "x"), ("id", .text id₂), ("_version_", .int64 6), ("v", .int64 3)]⟩],
        6⟩ := by
    decide +kernel
  have hreport : ∀ flushes, Revision.report plan .empty (Revision.allMatches plan pairRevisions c)
      flushes = ⟨4, 4, 0, 2, flushes, false⟩ := fun flushes => by
    have hmatches : (Revision.allMatches plan pairRevisions c).length = 4 := by decide +kernel
    have hmoves : ((Revision.allMatches plan pairRevisions c).filter fun f =>
        newId plan f.1 f.2 ≠ oldId f.2).length = 2 := by decide +kernel
    rw [Revision.report, hmatches, hmoves]
    rfl
  have hget : (Table.pairWorld ds).store.collections.get? Table.pairTable.collection.name =
      some c := get?_setContents _ _ _
  obtain ⟨flushes, log, hupdate⟩ := update_eq_contents rfl rfl hget hordinary hasks hproper hfresh
  exact ⟨hordinary, hproper, hfresh, hmoved, flushes, log, by
    rw [← hcontents, ← hreport flushes]
    exact hupdate⟩

end SearchTable.Reconcile
