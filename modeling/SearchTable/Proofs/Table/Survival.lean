import SearchTable.Proofs.Store.Unpaged
import SearchTable.Proofs.Store.Versions
import SearchTable.Proofs.Table.Calls
import SearchTable.Proofs.Table.Frame
import SearchTable.Proofs.Table.Revision
/-!
# What a failing call can take away

A call of an update may fail before it reaches the store, and the update ends there.  Every match is
still in the collection then, as it was or as its write leaves it (`Remains`), with one exception: a
match that changes its identity is deleted under the old one before it is written under the new one,
so when the write of its group fails right behind the deletion, it is gone (`Torn`).

`Standing` is what a part of an update preserves.  It says which matches have been written, which
are waiting, and that every document of the collection was there at the start or has been left by
the write of a match.  Identities that no two documents want (`Apart`) keep the writes from each
other: a deletion of a group takes its own matches only, and a write meets no document but its own.
-/

namespace SearchTable.Reconcile

open Memory Document

variable {plan : Plan} {changes : Changes} {c : Contents} {d e x : Document} {v : Stored}
  {id : String} {start matched done gone group : List Document}

/-! ## Matches that remain -/

/-- The document that the write of a match leaves, its version apart.  It is written over the match
when that keeps its identity, and over nothing when it gets another one. -/
def updated (plan : Plan) (changes : Changes) (d : Document) : Document :=
  writtenOver (stage plan changes d).write (if newId plan changes d = oldId d then some d else none)

/-- A match is still there, as it was or as its write leaves it. -/
def Remains (plan : Plan) (changes : Changes) (ds : List Document) (d : Document) : Prop :=
  d ∈ ds ∨ ∃ version, withVersion version (updated plan changes d) ∈ ds

/-- A match has been deleted under its old identity, the write behind that deletion has failed, and
the match is gone under both identities. -/
structure Torn (plan : Plan) (changes : Changes) (calls : List Call) (ds : List Document)
    (d : Document) : Prop where
  moves : newId plan changes d ≠ oldId d
  cut : ∃ earlier ids writes, calls = earlier ++
      [⟨.delete plan.collection (.ids ids) plan.commitAsync, true⟩,
        ⟨.write plan.collection writes plan.commitAsync, false⟩] ∧
    oldId d ∈ ids ∧ (stage plan changes d).write ∈ writes
  gone : ∀ e ∈ ds, e.getText? idField ≠ some (oldId d) ∧
    e.getText? idField ≠ some (newId plan changes d)

/-- The identities that the write of a match touches are its own: no other document has one of
them, and the write of no other match touches it. -/
structure Apart (plan : Plan) (changes : Changes) (matched documents : List Document) : Prop where
  unused : ∀ d ∈ matched, ∀ id, Touches (stage plan changes d).write id →
    ∀ e ∈ documents, e ≠ d → e.getText? idField ≠ some id
  apart : ∀ d ∈ matched, ∀ e ∈ matched, e ≠ d → ∀ id, Touches (stage plan changes d).write id →
    ¬ Touches (stage plan changes e).write id

/-- Whatever the write of a match leaves, it leaves under an identity that it touches. -/
theorem touches_of_updated (h : (updated plan changes d).getText? idField = some id) :
    Touches (stage plan changes d).write id := by
  rw [updated] at h
  split at h
  · obtain ⟨v, hv⟩ := Option.isSome_iff_exists.1 (isSome_stage plan changes d)
    have hwritten : (withVersion 0 _).getText? idField = some id :=
      (getText?_withVersion 0 _).trans h
    exact touches_of_written hv hwritten
  · exact .inr h

/-! ## One write -/

/-- A document after a write was there before, or its identity is one that the write touches. -/
theorem mem_or_touches_of_mem_accept (hx : x.get? idField = some v)
    (he : e ∈ (c.accept x).documents) :
    e ∈ c.documents ∨ ∀ id, e.getText? idField = some id → Touches x id := by
  rcases accept_cases hx c with ⟨-, hafter⟩ | ⟨before, d, after, hds, -, hafter⟩
  · rw [hafter] at he
    refine (List.mem_append.1 he).imp_right fun he id hid => ?_
    rw [List.mem_singleton.1 he, getText?_withVersion] at hid
    exact .inr hid
  · rw [hafter] at he
    rw [hds]
    rcases List.mem_append.1 he with he | he
    · exact .inl (List.mem_append_left _ he)
    · rcases List.mem_cons.1 he with rfl | he
      · exact .inr fun id hid => touches_of_written hx hid
      · exact .inl (List.mem_append_right _ (List.mem_cons_of_mem _ he))

/-- A write that can meet no document but one leaves the others as they are. -/
theorem mem_accept_of_ne (hx : x.get? idField = some v)
    (honly : ∀ e ∈ c.documents, hasId (idText v) e = true → e = d) (he : e ∈ c.documents)
    (hne : e ≠ d) : e ∈ (c.accept x).documents := by
  rcases accept_cases hx c with ⟨-, hafter⟩ | ⟨before, d', after, hds, hd', hafter⟩
  · rw [hafter]
    exact List.mem_append_left _ he
  · obtain rfl := honly d' (by simp [hds]) hd'
    rw [hds] at he
    rw [hafter]
    rcases List.mem_append.1 he with he | he
    · exact List.mem_append_left _ he
    · exact List.mem_append_right _
        (List.mem_cons_of_mem _ ((List.mem_cons.1 he).resolve_left hne))

/-! ## The invariant -/

/-- Where a collection stands within an update that has written the matches `done`, while the
matches `gone` may have been deleted under their old identities. -/
structure Standing (plan : Plan) (changes : Changes) (start matched done gone : List Document)
    (c : Contents) : Prop where
  known : ∀ d ∈ done, d ∈ matched
  written : ∀ d ∈ done, Remains plan changes c.documents d
  waiting : ∀ d ∈ matched, d ∉ done → d ∉ gone → d ∈ c.documents
  origin : ∀ e ∈ c.documents, e ∈ start ∨
    ∃ d ∈ done, ∀ id, e.getText? idField = some id → Touches (stage plan changes d).write id

theorem standing_start (hmatched : ∀ d ∈ matched, d ∈ c.documents) :
    Standing plan changes c.documents matched [] [] c where
  known := by simp
  written := by simp
  waiting d hd _ _ := hmatched d hd
  origin _ he := .inl he

/-- What is left when no match is gone: every one of them remains. -/
theorem Standing.remains (h : Standing plan changes start matched done [] c) (hd : d ∈ matched) :
    Remains plan changes c.documents d := by
  by_cases hdone : d ∈ done
  · exact h.written d hdone
  · exact .inl (h.waiting d hd hdone List.not_mem_nil)

/-- No document but the match itself can be met by its write. -/
theorem Standing.eq_of_hasId (h : Standing plan changes start matched done gone c)
    (hapart : Apart plan changes matched start) (hd : d ∈ matched) (hdone : d ∉ done)
    (hv : (stage plan changes d).write.get? idField = some v)
    (he : e ∈ c.documents) (hid : hasId (idText v) e = true) : e = d := by
  have htouches : Touches (stage plan changes d).write (idText v) := .inl (by rw [hv]; rfl)
  by_contra hne
  rcases h.origin e he with hstart | ⟨d', hd', hleft⟩
  · exact hapart.unused d hd _ htouches e hstart hne (hasId_eq_true_iff.1 hid)
  · have hother : d' ≠ d := fun heq => hdone (heq ▸ hd')
    exact hapart.apart d hd d' (h.known d' hd') hother _ htouches
      (hleft _ (hasId_eq_true_iff.1 hid))

/-- A group without repetitions holds matches that have not been written yet. -/
theorem mem_and_notMem_of_nodup (hgroup : ∀ g ∈ group, g ∈ matched)
    (hnodup : (done ++ group).Nodup) : ∀ g ∈ group, g ∈ matched ∧ g ∉ done := fun g hg =>
  ⟨hgroup g hg, fun hdone => (List.nodup_append.1 hnodup).2.2 g hdone g hg rfl⟩

section Steps

variable (hkeyed : Keyed start) (hmatched : ∀ d ∈ matched, d ∈ start)
  (hapart : Apart plan changes matched start)

include hkeyed hmatched hapart

/-- The deletions of a group take away its own matches only. -/
theorem Standing.discard (h : Standing plan changes start matched done [] c)
    (hgroup : ∀ g ∈ group, g ∈ matched ∧ g ∉ done) :
    Standing plan changes start matched done
      (group.filter fun g => newId plan changes g ≠ oldId g)
      (c.discard (deletions (group.map (stage plan changes)))) := by
  have hspared : ∀ e ∈ c.documents,
      (∀ g ∈ group.filter (fun g => newId plan changes g ≠ oldId g),
        e.getText? idField ≠ some (oldId g)) →
      e ∈ (c.discard (deletions (group.map (stage plan changes)))).documents := by
    intro e he hfree
    refine List.mem_filter.2 ⟨he, isSpared_eq_true_iff.2 fun id hid => ?_⟩
    rw [deletions_map_stage] at hid
    obtain ⟨g, hg, rfl⟩ := List.mem_map.1 hid
    exact hfree g hg
  have hother : ∀ d ∈ start, ∀ g ∈ start, g ≠ d → d.getText? idField ≠ some (oldId g) := by
    intro d hd g hg hne heq
    rw [getText?_eq_oldId hkeyed hd, Option.some.injEq] at heq
    exact hne (List.inj_on_of_nodup_map (nodup_map_oldId hkeyed) hd hg heq).symm
  refine ⟨h.known, fun d hd => ?_, fun d hd hdone hgone => ?_, fun e he =>
    h.origin e (List.mem_of_mem_filter he)⟩
  · have hne : ∀ g ∈ group.filter (fun g => newId plan changes g ≠ oldId g), g ≠ d :=
      fun g hg heq => (hgroup g (List.mem_of_mem_filter hg)).2 (heq ▸ hd)
    have hstart : ∀ g ∈ group.filter (fun g => newId plan changes g ≠ oldId g), g ∈ start :=
      fun g hg => hmatched g (hgroup g (List.mem_of_mem_filter hg)).1
    rcases h.written d hd with hmem | ⟨version, hmem⟩
    · exact .inl (hspared d hmem fun g hg =>
        hother d (hmatched d (h.known d hd)) g (hstart g hg) (hne g hg))
    · refine .inr ⟨version, hspared _ hmem fun g hg heq => ?_⟩
      rw [getText?_withVersion] at heq
      exact hapart.unused d (h.known d hd) _ (touches_of_updated heq) g (hstart g hg) (hne g hg)
        (getText?_eq_oldId hkeyed (hstart g hg))
  · refine hspared d (h.waiting d hd hdone List.not_mem_nil) fun g hg => ?_
    exact hother d (hmatched d hd) g (hmatched g (hgroup g (List.mem_of_mem_filter hg)).1)
      fun heq => hgone (heq ▸ hg)

/-- The write of a match that is waiting or has just been deleted. -/
theorem Standing.accept (h : Standing plan changes start matched done gone c) (hd : d ∈ matched)
    (hdone : d ∉ done) (hgone : ∀ g ∈ gone, newId plan changes g ≠ oldId g) :
    Standing plan changes start matched (done ++ [d]) gone
      (c.accept (stage plan changes d).write) := by
  obtain ⟨v, hv⟩ := Option.isSome_iff_exists.1 (isSome_stage plan changes d)
  have honly : ∀ e ∈ c.documents, hasId (idText v) e = true → e = d := fun e he hid =>
    h.eq_of_hasId hapart hd hdone hv he hid
  have hkept : ∀ e ∈ c.documents, e ≠ d → e ∈ (c.accept (stage plan changes d).write).documents :=
    fun e he hne => mem_accept_of_ne hv honly he hne
  have hself := getText?_eq_oldId hkeyed (hmatched d hd)
  refine ⟨fun d' hd' => ?_, fun d' hd' => ?_, fun d' hd' hdone' hgone' => ?_, fun e he => ?_⟩
  · rcases List.mem_append.1 hd' with hd' | hd'
    · exact h.known d' hd'
    · exact List.mem_singleton.1 hd' ▸ hd
  · rcases List.mem_append.1 hd' with hd' | hd'
    · have hne : d ≠ d' := fun heq => hdone (heq ▸ hd')
      rcases h.written d' hd' with hmem | ⟨version, hmem⟩
      · exact .inl (hkept d' hmem hne.symm)
      · -- What the write of another match has left is not this match: the identities are apart.
        refine .inr ⟨version, hkept _ hmem fun heq => ?_⟩
        have hid : (updated plan changes d').getText? idField = some (oldId d) := by
          rw [← getText?_withVersion version, heq, hself]
        exact hapart.unused d' (h.known d' hd') _ (touches_of_updated hid) d (hmatched d hd) hne
          hself
    · obtain rfl := List.mem_singleton.1 hd'
      by_cases hsame : newId plan changes d' = oldId d'
      · have hmem : d' ∈ c.documents := h.waiting d' hd hdone fun hg => hgone d' hg hsame
        rcases accept_cases hv c with ⟨-, hafter⟩ | ⟨before, e, after, hds, he, hafter⟩
        · exact .inl (hafter ▸ List.mem_append_left _ hmem)
        · obtain rfl := honly e (by simp [hds]) he
          refine .inr ⟨c.accepted + 1, ?_⟩
          rw [hafter, updated, if_pos hsame]
          exact List.mem_append_right _ List.mem_cons_self
      · have haddress : idText v = newId plan changes d' := by
          rw [stage_of_ne hsame, rebuiltDocument, get?_insert, if_pos rfl, Option.some.injEq] at hv
          exact hv ▸ rfl
        rcases accept_cases hv c with ⟨-, hafter⟩ | ⟨before, e, after, hds, he, -⟩
        · refine .inr ⟨c.accepted + 1, ?_⟩
          rw [hafter, updated, if_neg hsame]
          exact List.mem_append_right _ (List.mem_singleton_self _)
        · obtain rfl := honly e (by simp [hds]) he
          rw [hasId_eq_true_iff, hself, Option.some.injEq, haddress] at he
          exact absurd he.symm hsame
  · rw [List.mem_append, List.mem_singleton, not_or] at hdone'
    exact hkept d' (h.waiting d' hd' hdone'.1 hgone') hdone'.2
  · rcases mem_or_touches_of_mem_accept hv he with he | htouches
    · rcases h.origin e he with hstart | ⟨d', hd', hleft⟩
      · exact .inl hstart
      · exact .inr ⟨d', List.mem_append_left _ hd', hleft⟩
    · exact .inr ⟨d, List.mem_append_right _ (List.mem_singleton_self d), htouches⟩

theorem Standing.foldl_accept (h : Standing plan changes start matched done gone c)
    (hgroup : ∀ g ∈ group, g ∈ matched) (hnodup : (done ++ group).Nodup)
    (hgone : ∀ g ∈ gone, newId plan changes g ≠ oldId g) :
    Standing plan changes start matched (done ++ group) gone
      (((group.map (stage plan changes)).map Staged.write).foldl Contents.accept c) := by
  induction group generalizing done c with
  | nil => simpa using h
  | cons d group ih =>
    have happend : done ++ d :: group = done ++ [d] ++ group := by simp
    rw [happend] at hnodup ⊢
    have hdone : d ∉ done := fun hmem =>
      (List.nodup_append.1 (List.nodup_append.1 hnodup).1).2.2 d hmem d (by simp) rfl
    exact ih (h.accept hkeyed hmatched hapart (hgroup d (by simp)) hdone hgone)
      (fun g hg => hgroup g (List.mem_cons_of_mem _ hg)) hnodup

/-- A group that reaches the store writes its matches. -/
theorem Standing.applyGroup (h : Standing plan changes start matched done [] c)
    (hgroup : ∀ g ∈ group, g ∈ matched) (hnodup : (done ++ group).Nodup) :
    Standing plan changes start matched (done ++ group) []
      (applyGroup c (group.map (stage plan changes))) := by
  have hfresh := mem_and_notMem_of_nodup hgroup hnodup
  have hwritten := (h.discard hkeyed hmatched hapart hfresh).foldl_accept hkeyed hmatched hapart
    hgroup hnodup fun g hg => by simpa using (List.mem_filter.1 hg).2
  refine ⟨hwritten.known, hwritten.written, fun d hd hdone _ => ?_, hwritten.origin⟩
  exact hwritten.waiting d hd hdone fun hgone =>
    hdone (List.mem_append_right _ (List.mem_of_mem_filter hgone))

/-- What is left of a group whose write has failed behind its deletion. -/
theorem Standing.remains_or_torn (h : Standing plan changes start matched done [] c)
    (hgroup : ∀ g ∈ group, g ∈ matched ∧ g ∉ done) (hd : d ∈ matched) {calls : List Call}
    (hcalls : ∃ earlier, calls = earlier ++
      [⟨.delete plan.collection (.ids (deletions (group.map (stage plan changes))))
          plan.commitAsync, true⟩,
        ⟨.write plan.collection ((group.map (stage plan changes)).map Staged.write)
          plan.commitAsync, false⟩]) :
    Remains plan changes (c.discard (deletions (group.map (stage plan changes)))).documents d ∨
      Torn plan changes calls (c.discard (deletions (group.map (stage plan changes)))).documents
        d := by
  have hleft := h.discard hkeyed hmatched hapart hgroup
  by_cases hgone : d ∈ group.filter fun g => newId plan changes g ≠ oldId g
  · obtain ⟨hmem, hmoves⟩ := List.mem_filter.1 hgone
    have hmoves : newId plan changes d ≠ oldId d := by simpa using hmoves
    have hold : oldId d ∈ deletions (group.map (stage plan changes)) := by
      rw [deletions_map_stage]
      exact List.mem_map_of_mem hgone
    obtain ⟨earlier, rfl⟩ := hcalls
    refine .inr ⟨hmoves, ⟨earlier, _, _, rfl, hold, ?_⟩, fun e he => ⟨?_, fun hnew => ?_⟩⟩
    · exact List.mem_map_of_mem (List.mem_map_of_mem hmem)
    · exact isSpared_eq_true_iff.1 (List.mem_filter.1 he).2 _ hold
    · have htouches : Touches (stage plan changes d).write (newId plan changes d) := by
        refine .inl ?_
        rw [stage_of_ne hmoves, rebuiltDocument, get?_insert, if_pos rfl]
        rfl
      rcases hleft.origin e he with hstart | ⟨d', hd', htouched⟩
      · refine hapart.unused d hd _ htouches e hstart (fun heq => hmoves ?_) hnew
        rw [heq, getText?_eq_oldId hkeyed (hmatched d hd), Option.some.injEq] at hnew
        exact hnew.symm
      · have hne : d' ≠ d := fun heq => (hgroup d hmem).2 (heq ▸ hd')
        exact hapart.apart d hd d' (h.known d' hd') hne _ htouches (htouched _ hnew)
  · by_cases hdone : d ∈ done
    · exact .inl (hleft.written d hdone)
    · exact .inl (.inl (hleft.waiting d hd hdone hgone))

end Steps

/-! ## Groups whose calls may fail -/

section Runs

open Unreliable

variable {failures : Nat → Option StoreError} {w : World (Unreliable Memory)} {xs : List Staged}

/-- The world after some calls that have left the given contents in the collection of the plan. -/
def afterCalls (plan : Plan) (w : World (Unreliable Memory)) (c : Contents) (calls : List Call) :
    World (Unreliable Memory) :=
  { w with store := ⟨w.store.store.setContents plan.collection c, w.store.calls ++ calls⟩ }

theorem afterCalls_afterCalls (plan : Plan) (w : World (Unreliable Memory)) (c c' : Contents)
    (calls calls' : List Call) :
    afterCalls plan (afterCalls plan w c calls) c' calls' =
      afterCalls plan w c' (calls ++ calls') := by
  simp only [afterCalls, setContents_setContents, List.append_assoc]

theorem get?_afterCalls (plan : Plan) (w : World (Unreliable Memory)) (c : Contents)
    (calls : List Call) :
    (afterCalls plan w c calls).store.store.collections.get? plan.collection = some c :=
  get?_setContents w.store.store plan.collection c

theorem afterCalls_nil (hcontents : w.store.store.collections.get? plan.collection = some c) :
    afterCalls plan w c [] = w := by
  simp only [afterCalls, setContents_self hcontents, List.append_nil]

theorem record_eq_afterCalls
    (hcontents : w.store.store.collections.get? plan.collection = some c) (call : Call) :
    record w call = afterCalls plan w c [call] := by
  simp only [record, afterCalls, setContents_self hcontents]

/-- A request to a store that would answer it either is answered or fails and changes nothing. -/
theorem ask_or_fail (failures : Nat → Option StoreError)
    (hcontents : w.store.store.collections.get? plan.collection = some c) {r : Request}
    {a : r.Answer} {c' : Contents} (hanswer : Memory.service.answer r w.store.store =
      (.ok a, w.store.store.setContents plan.collection c')) :
    Act.ask (service Memory.service failures) r w = (.ok a, afterCalls plan w c' [⟨r, true⟩]) ∨
      ∃ e, Act.ask (service Memory.service failures) r w =
        (.error e, afterCalls plan w c [⟨r, false⟩]) := by
  cases hfails : failures w.store.calls.length with
  | some e =>
    rw [← record_eq_afterCalls hcontents]
    exact .inr ⟨e, ask_of_failure _ hfails r⟩
  | none =>
    refine .inl ?_
    simp only [Act.ask, Unreliable.service, Unreliable.answer, hfails, hanswer]
    rfl

/-- What becomes of a group: it is sent, or nothing of it, or its deletion alone. -/
inductive Sent (plan : Plan) (xs : List Staged) (c : Contents) :
    Except StoreError Unit → Contents → List Call → Prop
  | all (calls : List Call) : Sent plan xs c (.ok ()) (applyGroup c xs) calls
  | nothing (e : StoreError) (calls : List Call) : Sent plan xs c (.error e) c calls
  | cut (e : StoreError) : Sent plan xs c (.error e) (c.discard (deletions xs))
      [⟨.delete plan.collection (.ids (deletions xs)) plan.commitAsync, true⟩,
        ⟨.write plan.collection (xs.map Staged.write) plan.commitAsync, false⟩]

variable (failures) (hopen : w.store.store.check = .ok ())
  (hcontents : w.store.store.collections.get? plan.collection = some c)

include hopen hcontents

theorem sendDeletions_unreliable (ids : List String) (r : UpdateReport) :
    (∃ calls r', (sendDeletions (service Memory.service failures) plan ids).run ⟨w, r⟩ =
        (.ok (), ⟨afterCalls plan w (c.discard ids) calls, r'⟩) ∧
      (calls = [] ∧ ids = [] ∨
        calls = [⟨.delete plan.collection (.ids ids) plan.commitAsync, true⟩])) ∨
    ∃ e calls, (sendDeletions (service Memory.service failures) plan ids).run ⟨w, r⟩ =
      (.error e, ⟨afterCalls plan w c calls, r⟩) := by
  cases ids with
  | nil =>
    refine .inl ⟨[], r, ?_, .inl ⟨rfl, rfl⟩⟩
    rw [discard_nil, afterCalls_nil hcontents]
    rfl
  | cons id ids =>
    have hanswer : Memory.service.answer
        (.delete plan.collection (.ids (id :: ids)) plan.commitAsync) w.store.store =
          (.ok (), w.store.store.setContents plan.collection (c.discard (id :: ids))) :=
      delete_eq hopen hcontents _
    rcases ask_or_fail failures hcontents hanswer with hask | ⟨e, hask⟩
    · exact .inl ⟨_, _, run_bind (run_act hask r) _, .inr rfl⟩
    · exact .inr ⟨e, _, run_bind_error (run_act hask r) _⟩

theorem sendDocuments_unreliable {ds : List Document} (hne : ds ≠ [])
    (hids : ∀ d ∈ ds, (d.get? idField).isSome = true) (r : UpdateReport) :
    (∃ calls, (sendDocuments (service Memory.service failures) plan ds).run ⟨w, r⟩ =
        (.ok (), ⟨afterCalls plan w (ds.foldl Contents.accept c) calls, r⟩)) ∨
    ∃ e, (sendDocuments (service Memory.service failures) plan ds).run ⟨w, r⟩ =
      (.error e,
        ⟨afterCalls plan w c [⟨.write plan.collection ds plan.commitAsync, false⟩], r⟩) := by
  obtain ⟨d, ds, rfl⟩ := List.exists_cons_of_ne_nil hne
  have hanswer : Memory.service.answer (.write plan.collection (d :: ds) plan.commitAsync)
      w.store.store = (.ok (),
        w.store.store.setContents plan.collection ((d :: ds).foldl Contents.accept c)) :=
    write_eq hopen hcontents hids
  rcases ask_or_fail failures hcontents hanswer with hask | ⟨e, hask⟩
  · exact .inl ⟨_, run_act hask r⟩
  · exact .inr ⟨e, run_act hask r⟩

/-- What waits is sent as a group, unless a call of it fails. -/
theorem flush_unreliable (hids : ∀ x ∈ xs, (x.write.get? idField).isSome = true)
    (r : UpdateReport) :
    ∃ result c' calls r', (flush (service Memory.service failures) plan (pendingOf xs)).run ⟨w, r⟩ =
        (result, ⟨afterCalls plan w c' calls, r'⟩) ∧ Sent plan xs c result c' calls := by
  by_cases hne : xs = []
  · subst hne
    refine ⟨.ok (), applyGroup c [], [], r, ?_, .all _⟩
    rw [applyGroup_nil, afterCalls_nil hcontents]
    rfl
  have hids' : ∀ d ∈ xs.map Staged.write, (d.get? idField).isSome = true := by simpa using hids
  have hfull : (!(pendingOf xs).isEmpty) = true := by simp [pendingOf, Pending.isEmpty, hne]
  rw [flush, if_pos hfull, pendingOf]
  rcases sendDeletions_unreliable failures hopen hcontents (deletions xs) r with
    ⟨calls, r', hdelete, hcalls⟩ | ⟨e, calls, hdelete⟩
  · rw [run_bind hdelete]
    rcases sendDocuments_unreliable failures
      (w := afterCalls plan w (c.discard (deletions xs)) calls) hopen (get?_afterCalls plan w _ _)
      (by simpa using hne) hids' r' with ⟨calls', hwrite⟩ | ⟨e, hwrite⟩
    · rw [run_bind hwrite, run_count, afterCalls_afterCalls]
      exact ⟨_, _, _, _, rfl, .all _⟩
    · rw [run_bind_error hwrite, afterCalls_afterCalls]
      rcases hcalls with ⟨rfl, hnone⟩ | rfl
      · rw [hnone, discard_nil]
        exact ⟨_, _, _, _, rfl, .nothing e _⟩
      · exact ⟨_, _, _, _, rfl, .cut e⟩
  · rw [run_bind_error hdelete]
    exact ⟨_, _, _, _, rfl, .nothing e _⟩

end Runs

/-! ## All groups -/

section Groups

open Unreliable

variable (hkeyed : Keyed start) (hmatched : ∀ d ∈ matched, d ∈ start)
  (hapart : Apart plan changes matched start)

/-- More calls in front do not matter. -/
theorem Torn.append {calls : List Call} {ds : List Document} (h : Torn plan changes calls ds d)
    (before : List Call) : Torn plan changes (before ++ calls) ds d := by
  obtain ⟨earlier, ids, writes, rfl, hids, hwrites⟩ := h.cut
  exact ⟨h.moves, ⟨before ++ earlier, ids, writes, (List.append_assoc ..).symm, hids, hwrites⟩,
    h.gone⟩

include hkeyed hmatched hapart

/-- A group that is sent brings the update on; a call of it that fails ends the update. -/
theorem Standing.sent (h : Standing plan changes start matched done [] c)
    (hgroup : ∀ g ∈ group, g ∈ matched) (hnodup : (done ++ group).Nodup)
    {result : Except StoreError Unit} {c' : Contents} {calls : List Call}
    (hsent : Sent plan (group.map (stage plan changes)) c result c' calls) :
    result = .ok () ∧ Standing plan changes start matched (done ++ group) [] c' ∨
      ∃ e, result = .error e ∧ ∀ d ∈ matched,
        Remains plan changes c'.documents d ∨ Torn plan changes calls c'.documents d := by
  cases hsent with
  | all _ => exact .inl ⟨rfl, h.applyGroup hkeyed hmatched hapart hgroup hnodup⟩
  | nothing e _ => exact .inr ⟨e, rfl, fun d hd => .inl (h.remains hd)⟩
  | cut e =>
    have hfresh := mem_and_notMem_of_nodup hgroup hnodup
    exact .inr ⟨e, rfl, fun d hd =>
      h.remains_or_torn hkeyed hmatched hapart hfresh hd ⟨[], rfl⟩⟩

/-- Matches that are staged and sent in groups: what becomes of each of them. -/
theorem stageMatches_unreliable (failures : Nat → Option StoreError) {ds : List Document}
    {w : World (Unreliable Memory)} (hopen : w.store.store.check = .ok ())
    (hcontents : w.store.store.collections.get? plan.collection = some c)
    (h : Standing plan changes start matched done [] c)
    (hall : ∀ d ∈ group ++ ds, d ∈ matched) (hnodup : (done ++ (group ++ ds)).Nodup)
    (r : UpdateReport) :
    ∃ result c' calls r', (stageMatches (service Memory.service failures) plan changes ds
          (pendingOf (group.map (stage plan changes))) >>=
        flush (service Memory.service failures) plan).run ⟨w, r⟩ =
          (result, ⟨afterCalls plan w c' calls, r'⟩) ∧
      ∀ d ∈ matched, Remains plan changes c'.documents d ∨
        Torn plan changes calls c'.documents d := by
  have hids : ∀ gs : List Document, ∀ x ∈ gs.map (stage plan changes),
      (x.write.get? idField).isSome = true := by
    intro gs x hx
    obtain ⟨g, -, rfl⟩ := List.mem_map.1 hx
    exact isSome_stage plan changes g
  induction ds generalizing group done c w r with
  | nil =>
    rw [List.append_nil] at hall hnodup
    obtain ⟨result, c', calls, r', hrun, hsent⟩ :=
      flush_unreliable failures hopen hcontents (hids group) r
    refine ⟨result, c', calls, r', by rw [stageMatches, pure_bind]; exact hrun, fun d hd => ?_⟩
    rcases h.sent hkeyed hmatched hapart hall hnodup hsent with ⟨-, hlast⟩ | ⟨-, -, hleft⟩
    · exact .inl (hlast.remains hd)
    · exact hleft d hd
  | cons d ds ih =>
    have hd : (d.get? idField).isSome = true :=
      isSome_get? hkeyed (hmatched d (hall d (by simp)))
    have hsplit : group ++ d :: ds = (group ++ [d]) ++ ds := by simp
    rw [hsplit] at hall hnodup
    have hmap : group.map (stage plan changes) ++ [stage plan changes d] =
        (group ++ [d]).map (stage plan changes) := by simp
    rw [run_stageMatches_cons _ _ _ _ _ hd, hmap]
    by_cases hfull : plan.updateBatch ≤ (group.map (stage plan changes)).length + 1
    · rw [if_pos hfull]
      obtain ⟨result, c', calls, r', hrun, hsent⟩ :=
        flush_unreliable failures hopen hcontents (hids (group ++ [d])) r
      rw [← List.append_assoc] at hnodup
      rcases h.sent hkeyed hmatched hapart (fun g hg => hall g (List.mem_append_left _ hg))
        (List.nodup_append.1 hnodup).1 hsent with ⟨rfl, hnext⟩ | ⟨e, rfl, hleft⟩
      · rw [run_bind hrun]
        have hopen' : (afterCalls plan w c' calls).store.store.check = .ok () := hopen
        have hall' : ∀ e ∈ [] ++ ds, e ∈ matched := fun e he =>
          hall e (List.mem_append_right _ he)
        obtain ⟨result', c'', calls', r'', hrest, hleft⟩ :=
          ih hopen' (get?_afterCalls plan w c' calls) hnext hall' hnodup r'
        rw [afterCalls_afterCalls] at hrest
        exact ⟨result', c'', calls ++ calls', r'', hrest,
          fun e he => (hleft e he).imp_right fun htorn => htorn.append calls⟩
      · rw [run_bind_error hrun]
        exact ⟨_, _, _, _, rfl, hleft⟩
    · rw [if_neg hfull]
      exact ih hopen hcontents h hall hnodup r

end Groups

/-! ## Reading the matches -/

section Reading

open Cursor

variable {failures : Nat → Option StoreError} {w w' : World (Unreliable Memory)} {q : Query.Node}
  {params : Bindings} {condition : Condition}

/-- The world after some calls that have changed nothing. -/
def afterReading (w : World (Unreliable Memory)) (calls : List Call) : World (Unreliable Memory) :=
  { w with store := ⟨w.store.store, w.store.calls ++ calls⟩ }

theorem afterReading_eq_of_asks {page : Request} {o : Option StoreError}
    (h : Asks failures page w o w') : ∃ calls, w' = afterReading w calls := by
  cases h with
  | nothing => exact ⟨[], by rw [afterReading, List.append_nil]⟩
  | page _ => exact ⟨_, rfl⟩
  | failure _ => exact ⟨_, rfl⟩

/-- A cursor that is drained changes nothing, and gives what is left unless a page fails. -/
theorem drain_unreliable (failures : Nat → Option StoreError) {cursor : Cursor}
    {rest : List Document} (hopen : w.store.store.check = .ok ())
    (hcontents : w.store.store.collections.get? cursor.collection = some c)
    (hparse : Query.parse cursor.query = .ok q) (h : Stands (c.select q) cursor rest) {fuel : Nat}
    (hfuel : rest.length < fuel) :
    ∃ result calls, drain (Unreliable.service Memory.service failures) fuel cursor w =
      (result, afterReading w calls) ∧ ∀ ds, result = .ok ds → ds = rest := by
  induction fuel generalizing cursor rest w with
  | zero => omega
  | succ fuel ih =>
    obtain ⟨o, cursor', w', hrun, hasks, hused⟩ :=
      run_unreliable failures hopen hcontents hparse h .next
    obtain ⟨calls, rfl⟩ := afterReading_eq_of_asks hasks
    cases o with
    | some e =>
      have hnext : cursor.next (Unreliable.service Memory.service failures) w =
          ((.error e, cursor'), afterReading w calls) := next_of_run hrun
      refine ⟨.error e, calls, ?_, by simp⟩
      simp only [drain, bind, StateT.bind, hnext]
      rfl
    | none =>
      have hnext : cursor.next (Unreliable.service Memory.service failures) w =
          ((.ok rest.head?, cursor'), afterReading w calls) := next_of_run hrun
      have hcontinues := hused.answered rfl
      cases rest with
      | nil =>
        refine ⟨.ok [], calls, ?_, fun ds hds => (Except.ok.inj hds).symm⟩
        simp only [drain, bind, StateT.bind, hnext]
        rfl
      | cons d rest =>
        obtain ⟨result, calls', hdrain, hresult⟩ := ih (w := afterReading w calls) hopen
          (by rw [hcontinues.collection]; exact hcontents)
          (by rw [hcontinues.query]; exact hparse) hcontinues.stands (Nat.lt_of_succ_lt_succ hfuel)
        have hworld : afterReading (afterReading w calls) calls' =
            afterReading w (calls ++ calls') := by
          simp only [afterReading, List.append_assoc]
        rw [hworld] at hdrain
        cases result with
        | error e =>
          refine ⟨.error e, calls ++ calls', ?_, by simp⟩
          simp only [drain, bind, StateT.bind, hnext, List.head?_cons, hdrain]
          rfl
        | ok ds =>
          refine ⟨.ok (d :: ds), calls ++ calls', ?_, fun ds' hds => ?_⟩
          · simp only [drain, bind, StateT.bind, hnext, List.head?_cons, hdrain]
            rfl
          · exact (Except.ok.inj hds).symm.trans (congrArg (d :: ·) (hresult ds rfl))

/-- The matches of a pair are all of them, or there is an error; the collection stays as it is. -/
theorem collectMatches_unreliable (failures : Nat → Option StoreError)
    (hopen : w.store.store.check = .ok ())
    (hcontents : w.store.store.collections.get? plan.collection = some c) {ds : List Document}
    (hcollected : collected c condition params = .ok ds) :
    ∃ result calls, collectMatches (Unreliable.service Memory.service failures) plan condition
        params w = (result, afterReading w calls) ∧ ∀ found, result = .ok found → found = ds := by
  obtain ⟨text, hresolve, hcollected⟩ := bind_eq_ok_iff.1 hcollected
  obtain ⟨q, hparse, hcollected⟩ := bind_eq_ok_iff.1 hcollected
  obtain rfl := Except.ok.inj hcollected
  have hlength := (length_select_le c q).trans (length_documents_le_size hcontents)
  rw [collectMatches, hresolve]
  exact drain_unreliable failures hopen hcontents hparse
    (stands_make (c.select q) plan.collection text plan.readBatch) (Nat.lt_succ_of_le hlength)

end Reading

/-! ## One pair -/

section Pairs

open Unreliable

variable {w : World (Unreliable Memory)} {params : Bindings} {condition : Condition}

/-- What has become of the matches of an update between two worlds. -/
def Survives (plan : Plan) (changes : Changes) (matched : List Document)
    (w w' : World (Unreliable Memory)) : Prop :=
  ∀ d ∈ matched, Remains plan changes (w'.store.store.documents plan.collection) d ∨
    Torn plan changes (callsSince w w') (w'.store.store.documents plan.collection) d

/-- As long as nothing is written, every match is there as it was. -/
theorem survives_of_store_eq {w' : World (Unreliable Memory)}
    (hcontents : w.store.store.collections.get? plan.collection = some c)
    (hmatched : ∀ d ∈ matched, d ∈ c.documents) (hstore : w'.store.store = w.store.store) :
    Survives plan changes matched w w' := by
  intro d hd
  refine .inl (.inl ?_)
  rw [hstore, documents, hcontents]
  exact hmatched d hd

theorem reached_eq {ds : List Document} (h : collected c condition params = .ok ds) :
    reached c condition params = ds := by
  rw [reached, h]

theorem survives_runPair (failures : Nat → Option StoreError)
    (hopen : w.store.store.check = .ok ())
    (hcontents : w.store.store.collections.get? plan.collection = some c)
    (hkeyed : Keyed c.documents)
    (hapart : Apart plan changes (reached c condition params) c.documents) (insert : Option Record)
    (r : UpdateReport) :
    Survives plan changes (reached c condition params) w
      ((runPair (service Memory.service failures) plan condition ⟨params, changes, insert⟩).run
        ⟨w, r⟩).2.world := by
  have hmatched : ∀ d ∈ reached c condition params, d ∈ c.documents := fun d hd =>
    mem_of_mem_reached hd
  cases hcollected : collected c condition params with
  | error e =>
    have hnone : reached c condition params = [] := by rw [reached, hcollected]
    rw [hnone]
    exact fun d hd => absurd hd List.not_mem_nil
  | ok ds =>
    rw [reached_eq hcollected] at hapart hmatched ⊢
    obtain ⟨result, calls, hcollect, hfound⟩ :=
      collectMatches_unreliable failures hopen hcontents hcollected
    have hact := run_act hcollect r
    cases result with
    | error e =>
      rw [runPair, run_bind_error hact]
      exact survives_of_store_eq hcontents hmatched rfl
    | ok found =>
      obtain rfl : found = ds := hfound found rfl
      cases found with
      | nil => exact fun d hd => absurd hd List.not_mem_nil
      | cons d ds =>
        rw [runPair, run_bind hact, run_bind (run_count _ _ _)]
        have hnodup : (d :: ds).Nodup := by
          obtain ⟨q, hds⟩ := exists_select_of_collected hcollected
          rw [hds]
          exact (List.Nodup.of_map _ hkeyed.nodup).filter _
        have hopen' : (afterReading w calls).store.store.check = .ok () := hopen
        have hall : ∀ e ∈ [] ++ d :: ds, e ∈ d :: ds := fun e he => he
        obtain ⟨result, c', calls', r', hrun, hleft⟩ := stageMatches_unreliable hkeyed hmatched
          hapart failures hopen' hcontents (standing_start hmatched) hall (by simpa using hnodup)
          { r with matched := r.matched + (d :: ds).length }
        rw [List.map_nil] at hrun
        have hlast : (afterCalls plan (afterReading w calls) c' calls').store.store.documents
            plan.collection = c'.documents := by
          rw [documents, get?_afterCalls]
          rfl
        have hsince : callsSince w (afterCalls plan (afterReading w calls) c' calls') =
            calls ++ calls' := callsSince_eq (List.append_assoc _ _ _)
        -- With a match there is no record to be added, whatever the call has for this case.
        show Survives plan changes (d :: ds) w
          ((stageMatches (service Memory.service failures) plan changes (d :: ds) (pendingOf []) >>=
            flush (service Memory.service failures) plan).run _).2.world
        rw [hrun]
        intro e he
        rw [hlast, hsince]
        exact (hleft e he).imp_right fun htorn => htorn.append calls

/-- A call for one pair has no other one. -/
theorem exists_insert_of_makePairs {inserts : Option (List Record)} {pairs : List Pair}
    (h : makePairs [params] [changes] inserts = .ok pairs) :
    ∃ insert, pairs = [⟨params, changes, insert⟩] := by
  cases inserts with
  | none => exact ⟨none, (Except.ok.inj h).symm⟩
  | some records =>
    cases records with
    | nil => cases h
    | cons record records =>
      cases records with
      | nil => exact ⟨some record, (Except.ok.inj h).symm⟩
      | cons other records => simp [makePairs] at h

theorem survives_runAll {t : Table} (failures : Nat → Option StoreError)
    (hopen : w.store.store.check = .ok ())
    (hcontents : w.store.store.collections.get? t.collection.name = some c)
    (hkeyed : Keyed c.documents)
    (hapart : Apart (planFor t [changes]) changes (reached c condition params) c.documents)
    (inserts : Option (List Record)) :
    Survives (planFor t [changes]) changes (reached c condition params) w
      (runAll (service Memory.service failures) t condition [params] [changes] inserts w).2 := by
  rw [runAll]
  cases hpairs : makePairs [params] [changes] inserts with
  | error e =>
    exact survives_of_store_eq hcontents (fun d hd => mem_of_mem_reached hd) rfl
  | ok pairs =>
    obtain ⟨insert, rfl⟩ := exists_insert_of_makePairs hpairs
    have hpair := survives_runPair failures hopen hcontents hkeyed hapart insert .empty
    rw [← runPairs_singleton] at hpair
    exact hpair

end Pairs

/-! ## What is wanted -/

/-- The write of a match leaves it under its new identity. -/
theorem getText?_updated (plan : Plan) (hnames : d.HasDistinctNames)
    (hid : idField ∉ changes.map Prod.fst) :
    (updated plan changes d).getText? idField = some (newId plan changes d) := by
  have haddresses : Addresses (stage plan changes d).write (newId plan changes d) :=
    addresses_stage hnames hid
  rw [updated]
  split
  · have hwritten := getText?_written haddresses 0 d
    rwa [written, getText?_withVersion] at hwritten
  · exact haddresses.applied _

/-- Proper changes are made in the match, and in nothing else. -/
theorem withVersion_updated (plan : Plan) (h : ProperChanges changes) (hnames : d.HasDistinctNames)
    (hplain : isPatch d = false) (hid : d.getText? idField = some (oldId d)) (version : Nat) :
    withVersion version (updated plan changes d) = revised plan changes version d := by
  rw [updated, revised]
  by_cases hsame : newId plan changes d = oldId d
  · rw [if_pos hsame, if_pos hsame, stage_of_eq hsame, writtenOver,
      if_pos (isPatch_patchDocument h _), applyFields_patchDocument h hid]
  · rw [if_neg hsame, if_neg hsame, stage_of_ne hsame, writtenOver, applyFields_empty_of_plain
      (hasDistinctNames_rebuiltDocument hnames _ _) (isPatch_rebuiltDocument hplain h.scalar _),
      unversioned_rebuiltDocument h]

/-- When matches change to new identities, their writes touch no others. -/
theorem apart_of_fresh {q : Query.Node} (hkeyed : Keyed c.documents)
    (hnames : ∀ d ∈ c.documents, d.HasDistinctNames) (hid : idField ∉ changes.map Prod.fst)
    (hfresh : Fresh plan q changes c.documents) :
    Apart plan changes (c.select q) c.documents := by
  have htouches : ∀ d ∈ c.documents, ∀ id, Touches (stage plan changes d).write id →
      id = newId plan changes d := fun d hd id h =>
    (touches_iff (addresses_stage (hnames d hd) hid)).1 h
  have hold : ∀ d ∈ c.documents, ∀ e ∈ c.documents, oldId e = oldId d → e = d := fun d hd e he h =>
    List.inj_on_of_nodup_map (nodup_map_oldId hkeyed) he hd h
  have hunused : ∀ d ∈ c.documents, q.holds d = true → ∀ e ∈ c.documents, e ≠ d →
      oldId e ≠ newId plan changes d := by
    intro d hd hholds e he hne heq
    by_cases hsame : newId plan changes d = oldId d
    · exact hne (hold d hd e he (heq.trans hsame))
    · exact hfresh.unused d hd hholds hsame e he (heq ▸ getText?_eq_oldId hkeyed he)
  refine ⟨fun d hd id hid' e he hne heq => ?_, fun d hd e he hne id hid' htouched => ?_⟩
  · obtain ⟨hd, hholds⟩ := List.mem_filter.1 hd
    obtain rfl := htouches d hd id hid'
    rw [getText?_eq_oldId hkeyed he, Option.some.injEq] at heq
    exact hunused d hd hholds e he hne heq
  · obtain ⟨hd, hholds⟩ := List.mem_filter.1 hd
    obtain ⟨he, hholds'⟩ := List.mem_filter.1 he
    obtain rfl := htouches d hd id hid'
    have hsame := htouches e he _ htouched
    by_cases hstays : newId plan changes d = oldId d
    · exact hunused e he hholds' d hd (Ne.symm hne) (hstays.symm.trans hsame)
    · exact hfresh.apart d hd hholds hstays e he hholds' hne hsame.symm

end SearchTable.Reconcile

namespace SearchTable.Table

open Memory Document Reconcile Unreliable

variable {t : Table} {c : Contents} {condition : Condition} {params : Bindings} {changes : Changes}

/-- Whatever calls of an update with one pair fail, every match is there after it, as it was or as
its write leaves it, unless the write of its group has failed behind its deletion.  What the write
leaves has the new identity, and proper changes are made in it. -/
theorem reconcile_survives {w : World (Unreliable Memory)} (hopen : w.store.store.check = .ok ())
    (hcontents : w.store.store.collections.get? t.collection.name = some c)
    (hkeyed : Keyed c.documents) (hnames : ∀ d ∈ c.documents, d.HasDistinctNames)
    (hapart : Apart (planFor t [changes]) changes (reached c condition params) c.documents)
    (failures : Nat → Option StoreError) (operation : String) (inserts : Option (List Record)) :
    Survives (planFor t [changes]) changes (reached c condition params) w
        (t.reconcile (service Memory.service failures) operation condition [params] [changes]
          inserts w).2 ∧
      ∀ d ∈ reached c condition params,
        (idField ∉ changes.map Prod.fst →
          (updated (planFor t [changes]) changes d).getText? idField =
            some (newId (planFor t [changes]) changes d)) ∧
        (ProperChanges changes → isPatch d = false → ∀ version,
          withVersion version (updated (planFor t [changes]) changes d) =
            revised (planFor t [changes]) changes version d) := by
  have hmatched : ∀ d ∈ reached c condition params, d ∈ c.documents := fun d hd =>
    mem_of_mem_reached hd
  refine ⟨?_, fun d hd => ⟨fun hid => getText?_updated _ (hnames d (hmatched d hd)) hid,
    fun hproper hplain version => withVersion_updated _ hproper (hnames d (hmatched d hd)) hplain
      (getText?_eq_oldId hkeyed (hmatched d hd)) version⟩⟩
  have hall := survives_runAll failures hopen hcontents hkeyed hapart inserts
  have hstore := store_reconcile (service Memory.service failures) t operation condition [params]
    [changes] inserts w
  by_cases hconnected : t.isConnected = true
  · rw [if_pos hconnected] at hstore
    rw [Survives, callsSince] at hall ⊢
    rwa [hstore]
  · rw [if_neg hconnected] at hstore
    exact survives_of_store_eq hcontents hmatched
      (congrArg Unreliable.store hstore)

/-- A store with one person, from which nothing has been asked yet. -/
def recordedPeople : World (Unreliable Memory) := ⟨⟨peopleWorld.store, []⟩, 0, []⟩

/-- The third call fails and no other one. -/
def thirdFails (n : Nat) : Option StoreError :=
  if n = 2 then some (.unboundPlaceholder "down") else none

theorem apart_peopleTable :
    let changes : Changes := [("name", .text "zed")]
    Apart (planFor peopleTable [changes]) changes (reached peopleContents .all .empty)
      peopleContents.documents := by
  intro changes
  have hreached : reached peopleContents .all .empty = peopleContents.select .all := rfl
  rw [hreached]
  refine apart_of_fresh ⟨by decide +kernel, by decide +kernel⟩ (by decide +kernel)
    (by decide +kernel) ⟨?_, ?_⟩ <;> decide +kernel

theorem reconcile_survives_peopleTable :
    let changes : Changes := [("name", .text "zed")]
    let plan := planFor peopleTable [changes]
    let out := peopleTable.reconcile (service Memory.service thirdFails) "update" .all [.empty]
      [changes] none recordedPeople
    Keyed peopleContents.documents ∧ (∀ d ∈ peopleContents.documents, d.HasDistinctNames) ∧
      Apart plan changes (reached peopleContents .all .empty) peopleContents.documents ∧
      Survives plan changes (reached peopleContents .all .empty) recordedPeople out.2 := by
  intro changes plan out
  have hkeyed : Keyed peopleContents.documents := ⟨by decide +kernel, by decide +kernel⟩
  have hnames : ∀ d ∈ peopleContents.documents, d.HasDistinctNames := by decide +kernel
  exact ⟨hkeyed, hnames, apart_peopleTable, (reconcile_survives rfl (get?_setContents _ _ _) hkeyed
    hnames apart_peopleTable thirdFails "update" none).1⟩

/-- The only person is deleted under the old name, and the write under the new one fails. -/
theorem not_remains_peopleTable :
    let changes : Changes := [("name", .text "zed")]
    let plan := planFor peopleTable [changes]
    let out := peopleTable.reconcile (service Memory.service thirdFails) "update" .all [.empty]
      [changes] none recordedPeople
    peopleTable.isConnected = true ∧ peopleTable.layout.key = some ["name"] ∧
      Keyed peopleContents.documents ∧
      Apart plan changes (reached peopleContents .all .empty) peopleContents.documents ∧
      ¬ ∀ d ∈ reached peopleContents .all .empty,
        Remains plan changes (out.2.store.store.documents "people") d := by
  intro changes plan out
  have hafter : out.2.store.store.documents "people" = [] := by decide +kernel
  refine ⟨rfl, rfl, ⟨by decide +kernel, by decide +kernel⟩, apart_peopleTable, fun hremains => ?_⟩
  rw [hafter] at hremains
  rcases hremains _ List.mem_cons_self with hmem | ⟨version, hmem⟩
  · exact List.not_mem_nil hmem
  · exact List.not_mem_nil hmem

end SearchTable.Table
