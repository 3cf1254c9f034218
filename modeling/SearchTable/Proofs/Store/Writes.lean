import SearchTable.Proofs.Dictionary
import SearchTable.Proofs.Document
import SearchTable.Proofs.Store.Paging
/-!
# What writes and deletions leave

Writing into a collection, seen from one identity: `Contents.find` gives the first document of an
identity, and a write *addresses* the identity that it carries and that its fields set
(`Addresses`).  Such a write changes what is found under its own identity and nothing else
(`find_accept`); a deletion takes away what is found under its identities (`find_discard`).

In a *keyed* collection every document has an identity of its own.  Writes that address an identity
and deletions keep a collection keyed, and two keyed collections in which the same is found, up to
versions, hold the same documents up to versions (`perm_of_find`).
-/

namespace SearchTable.Memory

open Document

/-! ## Incoming fields -/

/-- What an incoming value leaves in its field; nothing when the field is removed. -/
def newValue? (v : Stored) : Option Stored :=
  match v.unmark? with
  | some .null => none
  | some inner => some inner
  | none => some v

/-- A document after one incoming field. -/
def setIncoming (d : Document) (name : String) (v : Stored) : Document :=
  if name = versionField then d
  else
    match newValue? v with
    | none => d.erase name
    | some w => d.insert name w

theorem applyFields_cons (d : Document) (name : String) (v : Stored)
    (fields : List (String × Stored)) :
    applyFields d ((name, v) :: fields) = applyFields (setIncoming d name v) fields := by
  simp only [applyFields, List.foldl_cons, setIncoming, newValue?]
  congr 1
  split
  · rfl
  · split <;> simp_all

theorem newValue?_of_unmarked {v : Stored} (h : v.unmark? = none) : newValue? v = some v := by
  simp [newValue?, h]

theorem get?_setIncoming (d : Document) (name : String) (v : Stored) (key : String) :
    (setIncoming d name v).get? key =
      if key = name ∧ name ≠ versionField then newValue? v else d.get? key := by
  rw [setIncoming]
  by_cases hversion : name = versionField
  · simp [hversion]
  · rw [if_neg hversion]
    cases newValue? v with
    | none => simp [get?_erase, hversion]
    | some w => simp [hversion]

theorem get?_applyFields_congr {d e : Document} {key : String} (h : d.get? key = e.get? key)
    (fields : List (String × Stored)) :
    (applyFields d fields).get? key = (applyFields e fields).get? key := by
  induction fields generalizing d e with
  | nil => exact h
  | cons f fields ih =>
    obtain ⟨name, v⟩ := f
    rw [applyFields_cons, applyFields_cons]
    exact ih (by rw [get?_setIncoming, get?_setIncoming, h])

/-- A field that is not among the incoming ones is kept. -/
theorem get?_applyFields_of_notMem {key : String} {fields : List (String × Stored)}
    (h : key ∉ fields.map Prod.fst) (d : Document) :
    (applyFields d fields).get? key = d.get? key := by
  induction fields generalizing d with
  | nil => rfl
  | cons f fields ih =>
    obtain ⟨name, v⟩ := f
    simp only [List.map_cons, List.mem_cons, not_or] at h
    rw [applyFields_cons, ih h.2, get?_setIncoming, if_neg fun hkey => h.1 hkey.1]

/-- What an incoming field leaves does not depend on what was there. -/
theorem get?_applyFields_of_mem {key : String} (hkey : key ≠ versionField)
    {fields : List (String × Stored)} (h : key ∈ fields.map Prod.fst) (d e : Document) :
    (applyFields d fields).get? key = (applyFields e fields).get? key := by
  induction fields generalizing d e with
  | nil => simp at h
  | cons f fields ih =>
    obtain ⟨name, v⟩ := f
    rw [applyFields_cons, applyFields_cons]
    by_cases hname : key = name
    · subst hname
      refine get?_applyFields_congr ?_ fields
      rw [get?_setIncoming, get?_setIncoming, if_pos ⟨rfl, hkey⟩, if_pos ⟨rfl, hkey⟩]
    · exact ih ((List.mem_cons.1 h).resolve_left hname) _ _

/-! ## Versions -/

/-- A document without its version. -/
def unversioned (d : Document) : Document := d.erase versionField

theorem unversioned_withVersion (version : Nat) (d : Document) :
    unversioned (withVersion version d) = unversioned d :=
  erase_insert d versionField _

theorem getText?_withVersion (version : Nat) (d : Document) :
    (withVersion version d).getText? idField = d.getText? idField :=
  getText?_insert_of_ne d _ (by decide)

theorem getText?_unversioned (d : Document) :
    (unversioned d).getText? idField = d.getText? idField :=
  getText?_erase_of_ne d (by decide)

theorem unversioned_setIncoming (d : Document) (name : String) (v : Stored) :
    unversioned (setIncoming d name v) = setIncoming (unversioned d) name v := by
  rw [setIncoming, setIncoming]
  by_cases hversion : name = versionField
  · rw [if_pos hversion, if_pos hversion]
  · rw [if_neg hversion, if_neg hversion]
    cases newValue? v with
    | none => exact erase_erase d versionField name
    | some w => exact erase_insert_of_ne d w hversion

/-- Incoming fields leave the version alone. -/
theorem unversioned_applyFields (d : Document) (fields : List (String × Stored)) :
    unversioned (applyFields d fields) = applyFields (unversioned d) fields := by
  induction fields generalizing d with
  | nil => rfl
  | cons f fields ih =>
    obtain ⟨name, v⟩ := f
    rw [applyFields_cons, applyFields_cons, ih, unversioned_setIncoming]

/-- Fields without markers are set as they are. -/
theorem applyFields_of_unmarked {fields : List (String × Stored)}
    (h : ∀ f ∈ fields, f.2.unmark? = none) (d : Document) :
    applyFields d fields =
      (fields.filter fun f => f.1 ≠ versionField).foldl (fun d f => d.insert f.1 f.2) d := by
  induction fields generalizing d with
  | nil => rfl
  | cons f fields ih =>
    obtain ⟨name, v⟩ := f
    have hv : newValue? v = some v := newValue?_of_unmarked (h (name, v) (by simp))
    rw [applyFields_cons, ih (fun f hf => h f (List.mem_cons_of_mem _ hf)), setIncoming, hv]
    by_cases hversion : name = versionField
    · rw [if_pos hversion, List.filter_cons_of_neg (by simp [hversion])]
    · rw [if_neg hversion, List.filter_cons_of_pos (by simp [hversion]), List.foldl_cons]

/-- Without markers the incoming fields of a document make up the document. -/
theorem applyFields_empty_of_plain {d : Document} (hnames : d.HasDistinctNames)
    (hplain : isPatch d = false) : applyFields .empty d.fields = unversioned d := by
  have hmarked : ∀ f ∈ d.fields, f.2.unmark? = none := by
    simpa [isPatch, List.any_eq_false] using hplain
  rw [applyFields_of_unmarked hmarked]
  exact foldl_insert_empty (hnames.erase versionField)

/-! ## Identities -/

theorem hasId_eq_true_iff {id : String} {d : Document} :
    hasId id d = true ↔ d.getText? idField = some id := by
  simp [hasId]

/-- The write carries the identity, and its fields give it to every document. -/
structure Addresses (x : Document) (id : String) : Prop where
  get?_eq : x.get? idField = some (.text id)
  applied : ∀ d, (applyFields d x.fields).getText? idField = some id

theorem addresses_of_getText? {x : Document} {id : String} (hnames : x.HasDistinctNames)
    (hid : x.getText? idField = some id) : Addresses x id := by
  have hget := getText?_eq_some_iff.1 hid
  refine ⟨hget, fun d => ?_⟩
  obtain ⟨before, after, heq, -⟩ := List.lookup_eq_some_iff.1 hget
  have hafter : idField ∉ after.map Prod.fst := by
    have hnodup : (before.map Prod.fst ++ idField :: after.map Prod.fst).Nodup := by
      simpa [HasDistinctNames, heq] using hnames
    exact (List.nodup_cons.1 (List.nodup_append.1 hnodup).2.1).1
  rw [getText?_eq_some_iff, heq]
  have happend : applyFields d (before ++ (idField, .text id) :: after) =
      applyFields (setIncoming (applyFields d before) idField (.text id)) after := by
    simp only [applyFields, List.foldl_append, List.foldl_cons]
    rfl
  rw [happend, get?_applyFields_of_notMem hafter, get?_setIncoming, if_pos ⟨rfl, by decide⟩]
  rfl

/-! ## Changing one document -/

theorem changeFirst_eq_none_iff {id : String} {change : Document → Document}
    {ds : List Document} : changeFirst id change ds = none ↔ ∀ d ∈ ds, hasId id d = false := by
  induction ds with
  | nil => simp [changeFirst]
  | cons d ds ih =>
    rw [changeFirst]
    by_cases hd : hasId id d = true
    · simp [hd]
    · simp [hd, ih]

theorem changeFirst_append {id : String} {before : List Document}
    (hbefore : ∀ e ∈ before, hasId id e = false) {d : Document} (hd : hasId id d = true)
    (change : Document → Document) (after : List Document) :
    changeFirst id change (before ++ d :: after) = some (before ++ change d :: after) := by
  induction before with
  | nil => simp [changeFirst, hd]
  | cons e before ih =>
    have he : hasId id e = false := hbefore e (by simp)
    rw [List.cons_append, changeFirst, he, ih fun e' he' => hbefore e' (by simp [he'])]
    rfl

/-- The first document of the identity is changed where it stands. -/
theorem changeFirst_eq_some {id : String} {change : Document → Document} {ds es : List Document}
    (h : changeFirst id change ds = some es) :
    ∃ before d after, ds = before ++ d :: after ∧ es = before ++ change d :: after ∧
      hasId id d = true ∧ ∀ e ∈ before, hasId id e = false := by
  induction ds generalizing es with
  | nil => simp [changeFirst] at h
  | cons d ds ih =>
    rw [changeFirst] at h
    by_cases hd : hasId id d = true
    · rw [if_pos hd, Option.some.injEq] at h
      exact ⟨[], d, ds, rfl, h.symm, hd, by simp⟩
    · rw [if_neg hd, Option.map_eq_some_iff] at h
      obtain ⟨es', hes, rfl⟩ := h
      obtain ⟨before, e, after, rfl, rfl, he, hbefore⟩ := ih hes
      refine ⟨d :: before, e, after, rfl, rfl, he, ?_⟩
      simpa [hd] using hbefore

/-! ## Contents -/

/-- A document has none of the identities. -/
def isSpared (ids : List String) (d : Document) : Bool := !ids.any fun id => hasId id d

/-- The contents after a deletion. -/
def Contents.discard (c : Contents) (ids : List String) : Contents :=
  { c with documents := c.documents.filter (isSpared ids) }

/-- The contents after a write, unless it is refused. -/
def Contents.accept (c : Contents) (x : Document) : Contents := (c.put x).toOption.getD c

/-- The first document of an identity. -/
def Contents.find (c : Contents) (id : String) : Option Document := c.documents.find? (hasId id)

/-- What is written for an identity, over the document that it has. -/
def writtenOver (x : Document) : Option Document → Document
  | some d => if isPatch x then applyFields d x.fields else x
  | none => applyFields .empty x.fields

variable {c c' : Contents} {x : Document} {id : String}

theorem isSpared_eq_true_iff {ids : List String} {d : Document} :
    isSpared ids d = true ↔ ∀ id ∈ ids, d.getText? idField ≠ some id := by
  simp [isSpared, ← hasId_eq_true_iff]

theorem isSpared_of_getText? {d : Document} (hd : d.getText? idField = some id)
    (ids : List String) : isSpared ids d = decide (id ∉ ids) := by
  rw [Bool.eq_iff_iff, isSpared_eq_true_iff, hd, decide_eq_true_eq]
  refine ⟨fun h hmem => h id hmem rfl, fun h other hother heq => h ?_⟩
  exact Option.some.inj heq ▸ hother

theorem putAll_eq {xs : List Document} (h : ∀ x ∈ xs, (x.get? idField).isSome = true)
    (c : Contents) : c.putAll xs = (none, xs.foldl Contents.accept c) := by
  induction xs generalizing c with
  | nil => rfl
  | cons x xs ih =>
    obtain ⟨v, hv⟩ := Option.isSome_iff_exists.1 (h x (by simp))
    have hput : c.put x = .ok (c.accept x) := by
      simp [Contents.accept, Contents.put, hv, Except.toOption]
    rw [Contents.putAll, hput, List.foldl_cons]
    exact ih (fun y hy => h y (List.mem_cons_of_mem _ hy)) _

/-- A write changes the first document of its identity, or adds one at the end. -/
theorem accept_eq {v : Stored} (h : x.get? idField = some v) (c : Contents) :
    c.accept x =
      { c with
        documents := (changeFirst (idText v) (written (c.accepted + 1) x) c.documents).getD
          (c.documents ++ [withVersion (c.accepted + 1) (applyFields .empty x.fields)])
        accepted := c.accepted + 1 } := by
  simp only [Contents.accept, Contents.put, h, Except.toOption, Option.getD_some]
  cases changeFirst (idText v) (written (c.accepted + 1) x) c.documents <;> rfl

theorem getText?_written (h : Addresses x id) (version : Nat) (d : Document) :
    (written version x d).getText? idField = some id := by
  rw [written, getText?_withVersion]
  split
  · exact h.applied d
  · exact getText?_eq_some_iff.2 h.get?_eq

/-! ## What is found -/

theorem hasId_eq_false_of_ne {d : Document} {other : String} (hd : d.getText? idField = some id)
    (h : other ≠ id) : hasId other d = false := by
  simp [hasId, hd, Ne.symm h]

/-- An addressed write changes what is found under its identity, and nothing else. -/
theorem find_accept (h : Addresses x id) (c : Contents) (other : String) :
    (c.accept x).find other =
      if other = id then some (withVersion (c.accepted + 1) (writtenOver x (c.find id)))
      else c.find other := by
  rw [accept_eq h.get?_eq]
  simp only [Contents.find, idText, Stored.plain]
  cases hchange : changeFirst id (written (c.accepted + 1) x) c.documents with
  | none =>
    have hnone := changeFirst_eq_none_iff.1 hchange
    have hnew : (withVersion (c.accepted + 1) (applyFields .empty x.fields)).getText? idField =
        some id := by rw [getText?_withVersion, h.applied]
    have hfind : c.documents.find? (hasId id) = none :=
      List.find?_eq_none.2 fun d hd => by simp [hnone d hd]
    by_cases hother : other = id
    · subst hother
      have hhas := hasId_eq_true_iff.2 hnew
      simp [hfind, hhas, writtenOver]
    · have hhas := hasId_eq_false_of_ne hnew hother
      simp [hhas, hother]
  | some es =>
    obtain ⟨before, d, after, hds, rfl, hd, hbefore⟩ := changeFirst_eq_some hchange
    have hwritten := getText?_written h (c.accepted + 1) d
    have hnot : before.find? (hasId id) = none :=
      List.find?_eq_none.2 fun e he => by simp [hbefore e he]
    by_cases hother : other = id
    · subst hother
      have hhas := hasId_eq_true_iff.2 hwritten
      rw [hds, if_pos rfl, List.find?_append, hnot, Option.getD_some, List.find?_append, hnot,
        List.find?_cons_of_pos hhas, List.find?_cons_of_pos hd]
      rfl
    · have hhas := hasId_eq_false_of_ne hwritten hother
      have hhas' := hasId_eq_false_of_ne (hasId_eq_true_iff.1 hd) hother
      simp [hds, hother, hhas, hhas']

/-- A deletion takes away what is found under its identities. -/
theorem find_discard (c : Contents) (ids : List String) (other : String) :
    (c.discard ids).find other = if other ∈ ids then none else c.find other := by
  simp only [Contents.find, Contents.discard, List.find?_filter]
  have hone : ∀ d, hasId other d = true → isSpared ids d = decide (other ∉ ids) := fun d hd =>
    isSpared_of_getText? (hasId_eq_true_iff.1 hd) ids
  by_cases hother : other ∈ ids
  · rw [if_pos hother]
    refine List.find?_eq_none.2 fun d _ => ?_
    by_cases hd : hasId other d = true
    · simp [hone d hd, hother]
    · simp [hd]
  · rw [if_neg hother]
    congr 1
    funext d
    by_cases hd : hasId other d = true
    · simp [hone d hd, hother]
    · simp [hd]

/-! ## Keyed collections -/

/-- Every document has an identity, and no two have the same one. -/
structure Keyed (ds : List Document) : Prop where
  isSome : ∀ d ∈ ds, (d.getText? idField).isSome = true
  nodup : (ds.map (Document.getText? · idField)).Nodup

theorem Keyed.filter {ds : List Document} (h : Keyed ds) (p : Document → Bool) :
    Keyed (ds.filter p) where
  isSome d hd := h.isSome d (List.mem_of_mem_filter hd)
  nodup := h.nodup.sublist (List.filter_sublist.map _)

/-- In a keyed collection a document is what is found under its identity. -/
theorem Keyed.find_eq {c : Contents} (h : Keyed c.documents) {d : Document} (hd : d ∈ c.documents)
    (hid : d.getText? idField = some id) : c.find id = some d := by
  cases hfind : c.find id with
  | none =>
    have hno := List.find?_eq_none.1 hfind d hd
    exact absurd (hasId_eq_true_iff.2 hid) hno
  | some e =>
    have he := List.mem_of_find?_eq_some hfind
    have hhas := hasId_eq_true_iff.1 (List.find?_some hfind)
    exact congrArg some (List.inj_on_of_nodup_map h.nodup he hd (hhas.trans hid.symm))

theorem Keyed.accept (h : Keyed c.documents) (hx : Addresses x id) :
    Keyed (c.accept x).documents := by
  rw [accept_eq hx.get?_eq]
  simp only [idText, Stored.plain]
  cases hchange : changeFirst id (written (c.accepted + 1) x) c.documents with
  | none =>
    have hnew : (withVersion (c.accepted + 1) (applyFields .empty x.fields)).getText? idField =
        some id := by rw [getText?_withVersion, hx.applied]
    have hnone := changeFirst_eq_none_iff.1 hchange
    refine ⟨?_, ?_⟩
    · intro d hd
      rcases List.mem_append.1 hd with hd | hd
      · exact h.isSome d hd
      · rw [List.mem_singleton.1 hd, hnew]
        rfl
    · simp only [Option.getD_none, List.map_append, List.map_cons, List.map_nil, hnew]
      refine List.nodup_append.2 ⟨h.nodup, List.nodup_singleton _, ?_⟩
      rintro a ha b hb rfl
      obtain ⟨d, hd, hda⟩ := List.mem_map.1 ha
      have hhas := hasId_eq_true_iff.2 (hda.trans (List.mem_singleton.1 hb))
      simp [hnone d hd] at hhas
  | some es =>
    obtain ⟨before, d, after, hds, rfl, hd, -⟩ := changeFirst_eq_some hchange
    have hwritten := getText?_written hx (c.accepted + 1) d
    have hsame : (written (c.accepted + 1) x d).getText? idField = d.getText? idField := by
      rw [hwritten, hasId_eq_true_iff.1 hd]
    rw [hds] at h
    refine ⟨?_, ?_⟩
    · intro e he
      rcases List.mem_append.1 he with he | he
      · exact h.isSome e (List.mem_append_left _ he)
      · rcases List.mem_cons.1 he with rfl | he
        · rw [hwritten]
          rfl
        · exact h.isSome e (by simp [he])
    · simpa [hsame] using h.nodup

/-- Keyed collections in which the same is found hold the same documents, up to versions. -/
theorem perm_of_find (h : Keyed c.documents) (h' : Keyed c'.documents)
    (hfind : ∀ id, (c.find id).map unversioned = (c'.find id).map unversioned) :
    (c.documents.map unversioned).Perm (c'.documents.map unversioned) := by
  have hnodup : ∀ {ds : List Document}, Keyed ds → (ds.map unversioned).Nodup := by
    intro ds hds
    refine List.Nodup.of_map (Document.getText? · idField) ?_
    rw [List.map_map]
    have hsame : (fun d => Document.getText? d idField) ∘ unversioned =
        fun d => Document.getText? d idField := funext getText?_unversioned
    rw [hsame]
    exact hds.nodup
  have hmem : ∀ {c : Contents}, Keyed c.documents → ∀ e,
      e ∈ c.documents.map unversioned ↔ ∃ id, (c.find id).map unversioned = some e := by
    intro c hc e
    constructor
    · intro he
      obtain ⟨d, hd, rfl⟩ := List.mem_map.1 he
      obtain ⟨id, hid⟩ := Option.isSome_iff_exists.1 (hc.isSome d hd)
      exact ⟨id, by rw [hc.find_eq hd hid]; rfl⟩
    · rintro ⟨id, hid⟩
      obtain ⟨d, hd, rfl⟩ := Option.map_eq_some_iff.1 hid
      exact List.mem_map_of_mem (List.mem_of_find?_eq_some hd)
  refine (List.perm_ext_iff_of_nodup (hnodup h) (hnodup h')).2 fun e => ?_
  rw [hmem h, hmem h']
  exact exists_congr fun id => by rw [hfind]

/-! ## Writes and deletions that exchange -/

/-- The write is for the identity, or leaves a document of it. -/
def Touches (x : Document) (id : String) : Prop :=
  (x.get? idField).map idText = some id ∨
    (applyFields .empty x.fields).getText? idField = some id

theorem touches_iff (h : Addresses x id) {other : String} : Touches x other ↔ other = id := by
  rw [Touches, h.get?_eq, h.applied]
  simp [idText, Stored.plain, eq_comm]

/-- Whatever a write leaves, it leaves under an identity that it touches. -/
theorem touches_of_written {v : Stored} (hx : x.get? idField = some v) {version : Nat}
    {d : Document} (h : (written version x d).getText? idField = some id) : Touches x id := by
  rw [written, getText?_withVersion] at h
  split at h
  · have hmem : idField ∈ x.fields.map Prod.fst := by
      obtain ⟨before, after, heq, -⟩ := List.lookup_eq_some_iff.1 hx
      simp [heq]
    have hsame : (applyFields d x.fields).getText? idField =
        (applyFields .empty x.fields).getText? idField :=
      getText?_congr (get?_applyFields_of_mem (by decide) hmem d .empty)
    exact .inr (hsame ▸ h)
  · rw [getText?_eq_some_iff] at h
    exact .inl (by rw [h]; rfl)

/-- A write and a deletion of identities that it does not touch exchange. -/
theorem accept_discard {ids : List String} (h : ∀ id ∈ ids, ¬ Touches x id) (c : Contents) :
    (c.accept x).discard ids = (c.discard ids).accept x := by
  cases hx : x.get? idField with
  | none =>
    have hrefused : ∀ c : Contents, c.accept x = c := fun c => by
      simp [Contents.accept, Contents.put, hx, Except.toOption]
    rw [hrefused, hrefused]
  | some v =>
    have hv : idText v ∉ ids := fun hmem => h _ hmem (.inl (by rw [hx]; rfl))
    rw [accept_eq hx, accept_eq hx]
    simp only [Contents.discard, Contents.mk.injEq, and_true, true_and]
    cases hchange : changeFirst (idText v) (written (c.accepted + 1) x) c.documents with
    | none =>
      have hnone := changeFirst_eq_none_iff.1 hchange
      have hfiltered : changeFirst (idText v) (written (c.accepted + 1) x)
          (c.documents.filter (isSpared ids)) = none :=
        changeFirst_eq_none_iff.2 fun d hd => hnone d (List.mem_of_mem_filter hd)
      have hnew : isSpared ids (withVersion (c.accepted + 1) (applyFields .empty x.fields)) = true :=
        isSpared_eq_true_iff.2 fun id hid heq =>
          h id hid (.inr (by rwa [getText?_withVersion] at heq))
      rw [hfiltered, Option.getD_none, Option.getD_none, List.filter_append,
        List.filter_cons_of_pos hnew, List.filter_nil]
    | some es =>
      obtain ⟨before, d, after, hds, rfl, hd, hbefore⟩ := changeFirst_eq_some hchange
      have hold : isSpared ids d = true := by
        rw [isSpared_of_getText? (hasId_eq_true_iff.1 hd), decide_eq_true hv]
      have hnew : isSpared ids (written (c.accepted + 1) x d) = true :=
        isSpared_eq_true_iff.2 fun id hid heq => h id hid (touches_of_written hx heq)
      have hbefore' : ∀ e ∈ before.filter (isSpared ids), hasId (idText v) e = false := fun e he =>
        hbefore e (List.mem_of_mem_filter he)
      rw [hds, List.filter_append, List.filter_cons_of_pos hold, changeFirst_append hbefore' hd,
        Option.getD_some, Option.getD_some, List.filter_append, List.filter_cons_of_pos hnew]

theorem foldl_accept_discard {ids : List String} {xs : List Document}
    (h : ∀ x ∈ xs, ∀ id ∈ ids, ¬ Touches x id) (c : Contents) :
    (xs.foldl Contents.accept c).discard ids = xs.foldl Contents.accept (c.discard ids) := by
  induction xs generalizing c with
  | nil => rfl
  | cons x xs ih =>
    rw [List.foldl_cons, List.foldl_cons, ih (fun y hy => h y (List.mem_cons_of_mem _ hy)),
      accept_discard (h x (by simp))]

theorem discard_nil (c : Contents) : c.discard [] = c := by
  have hall : c.documents.filter (isSpared []) = c.documents := List.filter_eq_self.2 fun _ _ => rfl
  rw [Contents.discard, hall]

theorem discard_discard (c : Contents) (ids ids' : List String) :
    (c.discard ids).discard ids' = c.discard (ids ++ ids') := by
  simp only [Contents.discard, List.filter_filter, Contents.mk.injEq, and_true, true_and]
  congr 1
  funext d
  simp [isSpared, Bool.and_comm]

/-! ## Requests -/

variable {m : Memory} {name : String}

theorem get?_setContents (m : Memory) (name : String) (c : Contents) :
    (m.setContents name c).collections.get? name = some c := by
  simp [setContents]

theorem setContents_setContents (m : Memory) (name : String) (c c' : Contents) :
    (m.setContents name c).setContents name c' = m.setContents name c' := by
  simp [setContents, Dictionary.insert_insert]

theorem setContents_self (h : m.collections.get? name = some c) : m.setContents name c = m := by
  simp [setContents, Dictionary.insert_of_get? h]

section Requests

variable (hopen : m.check = .ok ()) (hcontents : m.collections.get? name = some c)

include hopen hcontents

theorem write_eq {xs : List Document} (hids : ∀ x ∈ xs, (x.get? idField).isSome = true) :
    m.write name xs = (.ok (), m.setContents name (xs.foldl Contents.accept c)) := by
  simp [write, hopen, contents_eq_ok_iff.2 hcontents, putAll_eq hids, bind, Except.bind]

theorem delete_eq (ids : List String) :
    m.delete name (.ids ids) = (.ok (), m.setContents name (c.discard ids)) := by
  simp only [delete, hopen, contents_eq_ok_iff.2 hcontents, bind, Except.bind]
  rfl

end Requests

end SearchTable.Memory
