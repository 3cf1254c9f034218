import SearchTable.Proofs.Store.Ordinary
import SearchTable.Proofs.Table.Groups
/-!
# What is staged for a match

A match whose identity stays is staged as a patch: its identity and a marker for every change.  One
whose identity changes is staged as a rebuilt document and the deletion of its old identity.  Both
address the new identity (`isAddressed_stage`), as long as no change names the identity field.

A rebuilt document without markers is a whole one: what it leaves does not depend on what was stored
under its identity (`isWhole_stage`).
-/

namespace SearchTable

open Memory Document

namespace Reconcile

variable {plan : Plan} {changes : Changes} {d : Document} {id : String}

/-! ## Changed documents -/

theorem lookup_changes_eq_none {name : String} (h : name ∉ changes.map Prod.fst) :
    changes.lookup name = none := by
  refine List.lookup_eq_none_iff.2 fun f hf => ?_
  have hne : name ≠ f.1 := fun heq => h (heq ▸ List.mem_map_of_mem hf)
  simpa using hne

theorem applyChanges_cons (d : Document) (name : String) (v : Value) (changes : Changes) :
    applyChanges d ((name, v) :: changes) =
      applyChanges (if v.isNull then d.erase name else d.insert name v.toStored) changes := rfl

theorem hasDistinctNames_applyChanges (h : d.HasDistinctNames) (changes : Changes) :
    (applyChanges d changes).HasDistinctNames := by
  induction changes generalizing d with
  | nil => exact h
  | cons change changes ih =>
    obtain ⟨name, v⟩ := change
    rw [applyChanges_cons]
    split
    · exact ih (h.erase name)
    · exact ih (h.insert name _)

theorem isPatch_applyChanges (h : isPatch d = false) (hscalar : ∀ f ∈ changes, f.2.IsScalar) :
    isPatch (applyChanges d changes) = false := by
  induction changes generalizing d with
  | nil => exact h
  | cons change changes ih =>
    obtain ⟨name, v⟩ := change
    have hv : v.IsScalar := hscalar (name, v) (by simp)
    have hrest : ∀ f ∈ changes, f.2.IsScalar := fun f hf => hscalar f (by simp [hf])
    rw [applyChanges_cons]
    split
    · exact ih (isPatch_erase h name) hrest
    · exact ih (isPatch_insert h hv.unmark?_toStored name) hrest

/-- Changes of other fields keep the identity. -/
theorem getText?_applyChanges (hid : idField ∉ changes.map Prod.fst) (d : Document) :
    (applyChanges d changes).getText? idField = d.getText? idField := by
  induction changes generalizing d with
  | nil => rfl
  | cons change changes ih =>
    obtain ⟨name, v⟩ := change
    simp only [List.map_cons, List.mem_cons, not_or] at hid
    rw [applyChanges_cons, ih hid.2]
    split
    · exact getText?_erase_of_ne d hid.1
    · exact getText?_insert_of_ne d _ hid.1

/-! ## Patches -/

theorem patchDocument_eq (id : String) (changes : Changes) :
    patchDocument id changes =
      (changes.map fun f => (f.1, f.2.toStored.mark)).foldl (fun d f => d.insert f.1 f.2)
        (Document.empty.insert idField (.text id)) := by
  rw [List.foldl_map]
  rfl

theorem hasDistinctNames_foldl_insert (h : d.HasDistinctNames) (fields : List (String × Stored)) :
    (fields.foldl (fun d f => d.insert f.1 f.2) d).HasDistinctNames := by
  induction fields generalizing d with
  | nil => exact h
  | cons f fields ih => exact ih (h.insert f.1 f.2)

theorem getText?_foldl_insert {name : String} {fields : List (String × Stored)}
    (h : name ∉ fields.map Prod.fst) (d : Document) :
    (fields.foldl (fun d f => d.insert f.1 f.2) d).getText? name = d.getText? name := by
  induction fields generalizing d with
  | nil => rfl
  | cons f fields ih =>
    simp only [List.map_cons, List.mem_cons, not_or] at h
    rw [List.foldl_cons, ih h.2, getText?_insert_of_ne d _ h.1]

theorem addresses_patchDocument (hid : idField ∉ changes.map Prod.fst) (id : String) :
    Addresses (patchDocument id changes) id := by
  rw [patchDocument_eq]
  refine addresses_of_getText? ?_ ?_
  · exact hasDistinctNames_foldl_insert (hasDistinctNames_empty.insert _ _) _
  · rw [getText?_foldl_insert (by simpa using hid), getText?_insert_text]

/-! ## Rebuilt documents -/

theorem hasDistinctNames_rebuiltDocument (h : d.HasDistinctNames) (id : String) (changes : Changes) :
    (rebuiltDocument d id changes).HasDistinctNames :=
  (hasDistinctNames_applyChanges (h.erase _) changes).insert _ _

theorem isPatch_rebuiltDocument (h : isPatch d = false) (hscalar : ∀ f ∈ changes, f.2.IsScalar)
    (id : String) : isPatch (rebuiltDocument d id changes) = false :=
  isPatch_insert (isPatch_applyChanges (isPatch_erase h _) hscalar) rfl _

theorem addresses_rebuiltDocument (h : d.HasDistinctNames) (id : String) (changes : Changes) :
    Addresses (rebuiltDocument d id changes) id :=
  addresses_of_getText? (hasDistinctNames_rebuiltDocument h id changes)
    (getText?_insert_text _ _ _)

/-! ## Identities that change -/

/-- The changes assign a key column whose changes can change identities. -/
def Rotates (plan : Plan) (changes : Changes) : Prop :=
  ∃ k ∈ plan.rotating, k ∈ changes.map Prod.fst

theorem newId_of_not_rotates (h : ¬ Rotates plan changes) (d : Document) :
    newId plan changes d = oldId d := by
  have hnone : (changes.filter fun f => plan.rotating.contains f.1) = [] :=
    List.filter_eq_nil_iff.2 fun f hf hrotating =>
      h ⟨f.1, List.contains_iff_mem.1 hrotating, List.mem_map_of_mem hf⟩
  rw [newId, hnone]
  rfl

/-- Changes of the key derive the identity from it. -/
theorem newId_of_rotates (h : Rotates plan changes) (d : Document) :
    newId plan changes d =
      plan.layout.identityAfter d (changes.filter fun f => plan.rotating.contains f.1) := by
  obtain ⟨k, hk, hchanged⟩ := h
  obtain ⟨f, hf, rfl⟩ := List.mem_map.1 hchanged
  have hne : (changes.filter fun f => plan.rotating.contains f.1) ≠ [] :=
    List.ne_nil_of_mem (List.mem_filter.2 ⟨hf, List.contains_iff_mem.2 hk⟩)
  rw [newId, if_neg (by simpa using hne)]

/-! ## Staged matches -/

/-- The identity that a staged match is written under. -/
def Staged.target (x : Staged) : String := (x.write.getText? idField).getD ""

/-- A staged match whose write addresses its identity. -/
def Staged.IsAddressed (x : Staged) : Prop := Addresses x.write x.target

/-- What a write leaves does not depend on what it is written over. -/
def Staged.IsWhole (x : Staged) : Prop :=
  ∀ o, unversioned (writtenOver x.write o) = unversioned (writtenOver x.write none)

theorem Staged.target_eq {x : Staged} (h : Addresses x.write id) : x.target = id := by
  rw [target, getText?_eq_some_iff.2 h.get?_eq, Option.getD_some]

theorem oldId_eq (h : d.getText? idField = some id) : oldId d = id := by
  simp [oldId, getText?_eq_some_iff.1 h, Stored.plain]

theorem stage_of_eq (h : newId plan changes d = oldId d) :
    stage plan changes d = ⟨patchDocument (oldId d) changes, none⟩ := if_pos h

theorem stage_of_ne (h : newId plan changes d ≠ oldId d) :
    stage plan changes d =
      ⟨rebuiltDocument d (newId plan changes d) changes, some (oldId d)⟩ := if_neg h

theorem addresses_stage (hnames : d.HasDistinctNames) (hid : idField ∉ changes.map Prod.fst) :
    Addresses (stage plan changes d).write (newId plan changes d) := by
  by_cases hsame : newId plan changes d = oldId d
  · rw [stage_of_eq hsame, hsame]
    exact addresses_patchDocument hid _
  · rw [stage_of_ne hsame]
    exact addresses_rebuiltDocument hnames _ _

theorem target_stage (hnames : d.HasDistinctNames) (hid : idField ∉ changes.map Prod.fst) :
    (stage plan changes d).target = newId plan changes d :=
  Staged.target_eq (addresses_stage hnames hid)

theorem isAddressed_stage (hnames : d.HasDistinctNames) (hid : idField ∉ changes.map Prod.fst) :
    (stage plan changes d).IsAddressed := by
  rw [Staged.IsAddressed, target_stage hnames hid]
  exact addresses_stage hnames hid

section Several

variable {ds : List Document} (hnames : ∀ d ∈ ds, d.HasDistinctNames)
  (hid : idField ∉ changes.map Prod.fst)

include hnames hid

theorem isAddressed_of_mem_map_stage : ∀ x ∈ ds.map (stage plan changes), x.IsAddressed :=
  List.forall_mem_map.2 fun d hd => isAddressed_stage (hnames d hd) hid

/-- When no match gets an identity, nothing is staged for it. -/
theorem target_ne_of_mem_map_stage (hnew : ∀ d ∈ ds, newId plan changes d ≠ id) :
    ∀ x ∈ ds.map (stage plan changes), x.target ≠ id :=
  List.forall_mem_map.2 fun d hd => target_stage (hnames d hd) hid ▸ hnew d hd

end Several

theorem deletion_stage : (stage plan changes d).deletion = some id ↔
    newId plan changes d ≠ oldId d ∧ oldId d = id := by
  by_cases hsame : newId plan changes d = oldId d
  · simp [stage_of_eq hsame, hsame]
  · simp [stage_of_ne hsame, hsame]

/-- A rebuilt document leaves the same whatever was stored under its identity. -/
theorem isWhole_stage (hnames : d.HasDistinctNames) (hplain : isPatch d = false)
    (hscalar : ∀ f ∈ changes, f.2.IsScalar) (hmoves : newId plan changes d ≠ oldId d) :
    (stage plan changes d).IsWhole := by
  have hpatch := isPatch_rebuiltDocument hplain hscalar (newId plan changes d)
  have hfields := applyFields_empty_of_plain
    (hasDistinctNames_rebuiltDocument hnames (newId plan changes d) changes) hpatch
  intro o
  rw [stage_of_ne hmoves]
  cases o with
  | none => rfl
  | some e =>
    simp only [writtenOver, hpatch, hfields, Bool.false_eq_true, if_false]
    exact (erase_erase_self _ _).symm

/-! ## All matches -/

variable {ds : List Document}

/-- The identities given up are the old ones of the matches that move. -/
theorem deletions_map_stage (ds : List Document) :
    deletions (ds.map (stage plan changes)) =
      (ds.filter fun d => newId plan changes d ≠ oldId d).map oldId := by
  induction ds with
  | nil => rfl
  | cons d ds ih =>
    rw [List.map_cons, deletions]
    by_cases hsame : newId plan changes d = oldId d
    · rw [List.filterMap_cons_none (by rw [stage_of_eq hsame]), List.filter_cons_of_neg (by simpa)]
      exact ih
    · rw [List.filterMap_cons_some (deletion_stage.2 ⟨hsame, rfl⟩),
        List.filter_cons_of_pos (by simpa), List.map_cons]
      exact congrArg _ ih

theorem getText?_eq_oldId (h : Keyed ds) {d : Document} (hd : d ∈ ds) :
    d.getText? idField = some (oldId d) := by
  obtain ⟨id, hid⟩ := Option.isSome_iff_exists.1 (h.isSome d hd)
  rw [oldId_eq hid, hid]

theorem isSome_get? (h : Keyed ds) {d : Document} (hd : d ∈ ds) :
    (d.get? idField).isSome = true := by
  rw [getText?_eq_some_iff.1 (getText?_eq_oldId h hd)]
  rfl

/-- In a keyed list the old identities are distinct. -/
theorem nodup_map_oldId (h : Keyed ds) : (ds.map oldId).Nodup := by
  refine List.Nodup.of_map some ?_
  rw [List.map_map]
  have hsame : ds.map (some ∘ oldId) = ds.map (Document.getText? · idField) :=
    List.map_congr_left fun d hd => (getText?_eq_oldId h hd).symm
  rw [hsame]
  exact h.nodup

/-- Staged matches of a keyed collection: every write addresses its identity, no identity is given
up twice or by the match that takes it, and a write under an identity that is given up is whole. -/
structure Orderly (xs : List Staged) : Prop where
  addressed : ∀ x ∈ xs, x.IsAddressed
  nodup : (deletions xs).Nodup
  moves : ∀ x ∈ xs, ∀ id ∈ x.deletion, x.target ≠ id
  whole : ∀ y ∈ xs, y.target ∈ deletions xs → y.IsWhole

theorem orderly_map_stage (h : Ordinary ds) (hid : idField ∉ changes.map Prod.fst)
    (hscalar : ∀ f ∈ changes, f.2.IsScalar) : Orderly (ds.map (stage plan changes)) where
  addressed := isAddressed_of_mem_map_stage h.names hid
  nodup := by
    rw [deletions_map_stage]
    exact (nodup_map_oldId h.keyed).sublist (List.filter_sublist.map oldId)
  moves x hx id hdeletion := by
    obtain ⟨d, hd, rfl⟩ := List.mem_map.1 hx
    obtain ⟨hmoves, rfl⟩ := deletion_stage.1 hdeletion
    rwa [target_stage (h.names d hd) hid]
  whole y hy htarget := by
    obtain ⟨e, he, rfl⟩ := List.mem_map.1 hy
    rw [target_stage (h.names e he) hid, deletions_map_stage] at htarget
    obtain ⟨d, hd, heq⟩ := List.mem_map.1 htarget
    obtain ⟨hd, hmoves⟩ := List.mem_filter.1 hd
    refine isWhole_stage (h.names e he) (h.plain e he) hscalar fun hsame => ?_
    -- A match that stays and one that gives up the same identity would be one match.
    have hsameId : d = e :=
      List.inj_on_of_nodup_map (nodup_map_oldId h.keyed) hd he (heq.trans hsame)
    subst hsameId
    simp [hsame] at hmoves

/-! ## Ordinary writes -/

theorem mem_foldl_insert {fields : List (String × Stored)} {d : Document} {f : String × Stored}
    (h : f ∈ (fields.foldl (fun d f => d.insert f.1 f.2) d).fields) : f ∈ d.fields ∨ f ∈ fields := by
  induction fields generalizing d with
  | nil => exact .inl h
  | cons g fields ih =>
    rcases ih h with h | h
    · rcases mem_setField h with rfl | h
      · exact .inr List.mem_cons_self
      · exact .inl h
    · exact .inr (List.mem_cons_of_mem _ h)

theorem isOrdinaryWrite_patchDocument (hid : idField ∉ changes.map Prod.fst)
    (hscalar : ∀ f ∈ changes, f.2.IsScalar) (id : String) :
    IsOrdinaryWrite (patchDocument id changes) := by
  refine ⟨⟨id, addresses_patchDocument hid id⟩, ?_, ?_⟩
  · rw [patchDocument_eq]
    exact hasDistinctNames_foldl_insert (hasDistinctNames_empty.insert _ _) _
  · intro f hf v hv
    rw [patchDocument_eq] at hf
    rcases mem_foldl_insert hf with hf | hf
    · obtain rfl : f = (idField, .text id) := by simpa [Document.insert, setField, Document.empty] using hf
      obtain rfl : Stored.text id = v := Option.some.inj hv
      rfl
    · obtain ⟨change, hchange, rfl⟩ := List.mem_map.1 hf
      have hplain := (hscalar change hchange).unmark?_toStored
      simp only [newValue?, Stored.unmark?_mark] at hv
      split at hv <;> simp_all

/-- What is staged for an ordinary match is an ordinary write. -/
theorem isOrdinaryWrite_stage (hnames : d.HasDistinctNames) (hplain : isPatch d = false)
    (hid : idField ∉ changes.map Prod.fst) (hscalar : ∀ f ∈ changes, f.2.IsScalar) :
    IsOrdinaryWrite (stage plan changes d).write := by
  by_cases hsame : newId plan changes d = oldId d
  · rw [stage_of_eq hsame]
    exact isOrdinaryWrite_patchDocument hid hscalar _
  · rw [stage_of_ne hsame]
    exact ⟨⟨_, addresses_rebuiltDocument hnames _ _⟩, hasDistinctNames_rebuiltDocument hnames _ _,
      leavesPlain_of_isPatch (isPatch_rebuiltDocument hplain hscalar _)⟩

theorem ordinary_applyGroup {xs : List Staged} (h : ∀ x ∈ xs, IsOrdinaryWrite x.write) {c : Contents}
    (hc : Ordinary c.documents) : Ordinary (applyGroup c xs).documents :=
  (hc.discard _).foldl_accept (by simpa using h)

/-- Sending ordinary writes leaves an ordinary collection. -/
theorem ordinary_sendAll (batch : Nat) (waiting : List Staged) {xs : List Staged}
    (h : ∀ x ∈ waiting ++ xs, IsOrdinaryWrite x.write) {c : Contents} (hc : Ordinary c.documents) :
    Ordinary (sendAll batch waiting xs c).documents := by
  induction xs generalizing waiting c with
  | nil => exact ordinary_applyGroup (by simpa using h) hc
  | cons x xs ih =>
    have happend : waiting ++ x :: xs = waiting ++ [x] ++ xs := by simp
    rw [happend] at h
    rw [sendAll]
    split
    · have hfirst : ∀ y ∈ waiting ++ [x], IsOrdinaryWrite y.write := fun y hy =>
        h y (List.mem_append_left _ hy)
      exact ih [] (fun y hy => h y (List.mem_append_right _ hy)) (ordinary_applyGroup hfirst hc)
    · exact ih (waiting ++ [x]) h hc

/-- Sending the matches of a query leaves an ordinary collection. -/
theorem ordinary_sendAll_stage {c : Contents} (hc : Ordinary c.documents)
    (hid : idField ∉ changes.map Prod.fst) (hscalar : ∀ f ∈ changes, f.2.IsScalar)
    (plan : Plan) (q : Query.Node) (batch : Nat) :
    Ordinary (sendAll batch [] ((c.select q).map (stage plan changes)) c).documents := by
  refine ordinary_sendAll batch [] (fun x hx => ?_) hc
  obtain ⟨d, hd, rfl⟩ := List.mem_map.1 hx
  have hmem := List.mem_of_mem_filter hd
  exact isOrdinaryWrite_stage (hc.names d hmem) (hc.plain d hmem) hid hscalar

end Reconcile

end SearchTable
