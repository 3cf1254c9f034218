import SearchTable.Proofs.Store.Writes
/-!
# Versions and the order of documents

A collection of the store in memory is a map that keeps the order of insertion: the write of a
document changes the one of its identity where it stands or adds one at the end, and a deletion
leaves the order of the others (`Put`, `Writes`).  Every write draws a version above all that the
collection has given out, so versions tell writes apart.

`Versioned` is the invariant of one collection.  `Reached` are the stores that any operations lead
to from the empty one, those that fail among them, together with the number of documents that each
collection has accepted, counted from outside.  `Reached.insertionOrdered` puts both together: what
holds in every reached store, and what the next operation does to its documents, whatever it is.
-/

namespace SearchTable.Memory

open Document

variable {n version : Nat} {m : Memory} {name id : String} {c : Contents}
  {d e x : Document} {v : Stored} {ds ds' xs : List Document}

/-! ## Versions -/

/-- The version of a document, if it is a 64-bit integer. -/
def versionOf (d : Document) : Option Int :=
  match d.get? versionField with
  | some (.int64 v) => some v.toInt
  | _ => none

/-- The counter of a collection is not cut off below the greatest 64-bit integer. -/
theorem versionOf_withVersion (h : version < 2 ^ 63) (d : Document) :
    versionOf (withVersion version d) = some (version : Int) := by
  simp [versionOf, withVersion, Int64.toInt_ofNat_of_lt h]

/-- Documents with texts of their own as identities and with versions of their own, none of them
above the number of documents that have been accepted. -/
structure Versioned (n : Nat) (ds : List Document) : Prop where
  keyed : Keyed ds
  bounds : ∀ d ∈ ds, ∃ v : Int, versionOf d = some v ∧ 1 ≤ v ∧ v ≤ n
  nodup : (ds.map versionOf).Nodup

theorem versioned_nil (n : Nat) : Versioned n [] :=
  ⟨⟨by simp, List.nodup_nil⟩, by simp, List.nodup_nil⟩

theorem Versioned.filter (h : Versioned n ds) (p : Document → Bool) :
    Versioned n (ds.filter p) where
  keyed := h.keyed.filter p
  bounds d hd := h.bounds d (List.mem_of_mem_filter hd)
  nodup := h.nodup.sublist (List.filter_sublist.map versionOf)

/-- The next version is a new one. -/
theorem Versioned.notMem (h : Versioned n ds) : some ((n + 1 : Nat) : Int) ∉ ds.map versionOf := by
  intro hmem
  obtain ⟨d, hd, hversion⟩ := List.mem_map.1 hmem
  obtain ⟨v, hv, -, hle⟩ := h.bounds d hd
  rw [hv, Option.some.injEq] at hversion
  omega

/-! ## One write -/

/-- A document has a version above those of all the others. -/
def IsNewest (e : Document) (ds : List Document) : Prop :=
  ∃ v, versionOf e = some v ∧ ∀ d ∈ ds, ∀ u, versionOf d = some u → u < v

/-- The write `x` leaves the document `e`: in the place of the one that has its identity, or at the
end when there is none.  All other documents stay as they are and where they are. -/
inductive Put (x e : Document) : List Document → List Document → Prop
  | inPlace {d : Document} (before after : List Document)
      (hid : d.getText? idField = x.getText? idField)
      (hwritten : unversioned e = unversioned (writtenOver x (some d))) :
      Put x e (before ++ d :: after) (before ++ e :: after)
  | append {ds : List Document} (hnew : ∀ d ∈ ds, d.getText? idField ≠ x.getText? idField)
      (hwritten : unversioned e = unversioned (writtenOver x none)) : Put x e ds (ds ++ [e])

/-- A write changes a document of its identity, or adds one when there is none. -/
theorem accept_cases (hx : x.get? idField = some v) (c : Contents) :
    (∀ e ∈ c.documents, hasId (idText v) e = false) ∧ (c.accept x).documents =
        c.documents ++ [withVersion (c.accepted + 1) (writtenOver x none)] ∨
      ∃ before e after, c.documents = before ++ e :: after ∧ hasId (idText v) e = true ∧
        (c.accept x).documents =
          before ++ withVersion (c.accepted + 1) (writtenOver x (some e)) :: after := by
  rw [accept_eq hx]
  cases hchange : changeFirst (idText v) (written (c.accepted + 1) x) c.documents with
  | none => exact .inl ⟨changeFirst_eq_none_iff.1 hchange, rfl⟩
  | some es =>
    obtain ⟨before, e, after, hds, rfl, he, -⟩ := changeFirst_eq_some hchange
    exact .inr ⟨before, e, after, hds, he, rfl⟩

/-- Accepting a document is a write that draws the next version. -/
theorem put_accept (hx : Addresses x id) (hlt : c.accepted + 1 < 2 ^ 63) :
    ∃ e, e.getText? idField = some id ∧ versionOf e = some ((c.accepted + 1 : Nat) : Int) ∧
      Put x e c.documents (c.accept x).documents := by
  have hid : x.getText? idField = some id := getText?_eq_some_iff.2 hx.get?_eq
  rcases accept_cases hx.get?_eq c with ⟨hnone, hafter⟩ | ⟨before, d, after, hds, hd, hafter⟩
  · refine ⟨withVersion (c.accepted + 1) (writtenOver x none), ?_, versionOf_withVersion hlt _, ?_⟩
    · rw [getText?_withVersion]
      exact hx.applied _
    · rw [hafter]
      refine .append (fun d hd => ?_) (unversioned_withVersion _ _)
      rw [hid]
      simpa [hasId, idText, Stored.plain] using hnone d hd
  · refine ⟨_, getText?_written hx (c.accepted + 1) d, versionOf_withVersion hlt _, ?_⟩
    rw [hds, hafter]
    exact .inPlace before after ((hasId_eq_true_iff.1 hd).trans hid.symm)
      (unversioned_withVersion _ _)

/-- A document after a write was there before, or it is what has been written. -/
theorem Put.mem (h : Put x e ds ds') (hd : d ∈ ds') : d = e ∨ d ∈ ds := by
  cases h with
  | inPlace before after _ _ =>
    rcases List.mem_append.1 hd with hd | hd
    · exact .inr (List.mem_append_left _ hd)
    · exact (List.mem_cons.1 hd).imp_right fun hd => by simp [hd]
  | append _ _ => exact (List.mem_append.1 hd).symm.imp_left List.mem_singleton.1

theorem Put.nodup_map_versionOf (h : Put x e ds ds') (hnodup : (ds.map versionOf).Nodup)
    (hnew : versionOf e ∉ ds.map versionOf) : (ds'.map versionOf).Nodup := by
  cases h with
  | inPlace before after _ _ =>
    rw [List.map_append, List.map_cons, List.nodup_middle, List.nodup_cons] at hnodup ⊢
    refine ⟨fun hmem => hnew ?_, hnodup.2⟩
    rw [List.map_append, List.map_cons]
    rcases List.mem_append.1 hmem with hmem | hmem
    · exact List.mem_append_left _ hmem
    · exact List.mem_append_right _ (List.mem_cons_of_mem _ hmem)
  | append _ _ =>
    rw [List.map_append]
    exact List.nodup_append.2 ⟨hnodup, by simp, fun a ha b hb heq => hnew (by
      rw [← List.mem_singleton.1 hb, ← heq]
      exact ha)⟩

/-- The invariant is kept by a write. -/
theorem Versioned.accept (h : Versioned c.accepted c.documents) (hx : Addresses x id)
    (hlt : c.accepted + 1 < 2 ^ 63) : Versioned (c.accepted + 1) (c.accept x).documents := by
  obtain ⟨e, -, hversion, hput⟩ := put_accept hx hlt
  refine ⟨h.keyed.accept hx, fun d hd => ?_, ?_⟩
  · rcases hput.mem hd with rfl | hd
    · exact ⟨_, hversion, by omega, le_rfl⟩
    · obtain ⟨v, hv, hone, hle⟩ := h.bounds d hd
      exact ⟨v, hv, hone, by omega⟩
  · exact hput.nodup_map_versionOf h.nodup (hversion ▸ h.notMem)

/-! ## Several writes -/

/-- Documents are written one after the other.  What a write leaves has the identity of the write,
and it is the newest of the documents that are there then. -/
inductive Writes : List Document → List Document → List Document → Prop
  | nil (ds : List Document) : Writes ds [] ds
  | cons {ds ds' ds'' xs : List Document} {x e : Document}
      (hid : e.getText? idField = x.getText? idField) (hnewest : IsNewest e ds)
      (hput : Put x e ds ds') (hrest : Writes ds' xs ds'') : Writes ds (x :: xs) ds''

/-- A document of a write: it repeats no field, and an identity that it has is a text. -/
structure IsSoundWrite (x : Document) : Prop where
  names : x.HasDistinctNames
  id : ∀ v, x.get? idField = some v → ∃ s, v = .text s

instance (x : Document) : Decidable (IsSoundWrite x) :=
  decidable_of_iff
    (x.HasDistinctNames ∧ (x.get? idField = none ∨ (x.getText? idField).isSome = true)) <| by
    refine ⟨fun ⟨hnames, hid⟩ => ⟨hnames, fun v hv => ?_⟩, fun h => ⟨h.names, ?_⟩⟩
    · rw [hv] at hid
      obtain ⟨s, hs⟩ := Option.isSome_iff_exists.1 (hid.resolve_left (by simp))
      exact ⟨s, Option.some.inj (hv.symm.trans (getText?_eq_some_iff.1 hs))⟩
    · cases hv : x.get? idField with
      | none => exact .inl rfl
      | some v =>
        obtain ⟨s, rfl⟩ := h.id v hv
        exact .inr (by rw [getText?_eq_some_iff.2 hv]; rfl)

theorem IsSoundWrite.addresses (h : IsSoundWrite x) (hid : x.contains idField = true) :
    ∃ id, Addresses x id := by
  obtain ⟨v, hv⟩ := Option.isSome_iff_exists.1 hid
  obtain ⟨s, rfl⟩ := h.id v hv
  exact ⟨s, addresses_of_getText? h.names (getText?_eq_some_iff.2 hv)⟩

theorem accepted_accept (hx : Addresses x id) (c : Contents) :
    (c.accept x).accepted = c.accepted + 1 := by
  rw [accept_eq hx.get?_eq]

/-- Sound documents with identities are written one after the other. -/
theorem writes_foldl_accept (h : Versioned c.accepted c.documents)
    (hxs : ∀ x ∈ xs, ∃ id, Addresses x id) (hlt : c.accepted + xs.length < 2 ^ 63) :
    Writes c.documents xs (xs.foldl Contents.accept c).documents ∧
      Versioned (c.accepted + xs.length) (xs.foldl Contents.accept c).documents := by
  induction xs generalizing c with
  | nil => exact ⟨.nil _, h⟩
  | cons x xs ih =>
    obtain ⟨id, hx⟩ := hxs x List.mem_cons_self
    rw [List.length_cons] at hlt
    have haccepted := accepted_accept hx c
    obtain ⟨e, hid, hversion, hput⟩ := put_accept hx (c := c) (by omega)
    have hnewest : IsNewest e c.documents := by
      refine ⟨_, hversion, fun d hd u hu => ?_⟩
      obtain ⟨v, hv, -, hle⟩ := h.bounds d hd
      obtain rfl : v = u := Option.some.inj (hv.symm.trans hu)
      omega
    have hkept : Versioned (c.accept x).accepted (c.accept x).documents :=
      haccepted ▸ h.accept hx (by omega)
    obtain ⟨hwrites, hlast⟩ :=
      ih hkept (fun y hy => hxs y (List.mem_cons_of_mem _ hy)) (by omega)
    have htotal : (c.accept x).accepted + xs.length = c.accepted + (x :: xs).length := by
      rw [haccepted, List.length_cons]
      omega
    exact ⟨.cons (hid.trans (getText?_eq_some_iff.2 hx.get?_eq).symm) hnewest hput hwrites,
      htotal ▸ hlast⟩

/-! ## Operations -/

/-- What is done to a store: a request is put to it, a collection is given a schema in advance, or
the store goes out of reach or comes back. -/
inductive Operation where
  | request (r : Request)
  | preload (collection : String) (schema : Schema)
  | setAvailable (available : Bool)

/-- Whether a collection can be worked with. -/
def reaches (m : Memory) (name : String) : Bool :=
  !m.closed && m.available && m.collections.contains name

/-- Whether a deletion is for a document.  A query that cannot be read is for none. -/
def deletes (d : Document) : DeleteTarget → Bool
  | .ids ids => ids.any fun id => hasId id d
  | .query text =>
    match Query.parse text with
    | .ok q => q.holds d
    | .error _ => false

namespace Operation

/-- The store after an operation. -/
def run (m : Memory) : Operation → Memory
  | .request r => (answer r m).2
  | .preload collection schema => m.preloadSchema collection schema
  | .setAvailable available => { m with available := available }

/-- Every document that the operation writes is sound. -/
def IsSound : Operation → Prop
  | .request (.write _ xs _) => ∀ x ∈ xs, IsSoundWrite x
  | _ => True

/-- The documents that a collection accepts from an operation: those of a write that reaches it, up
to the first one without an identity. -/
def accepted (m : Memory) (name : String) : Operation → List Document
  | .request (.write collection xs _) =>
    if collection = name ∧ m.reaches name then xs.takeWhile (·.contains idField) else []
  | _ => []

/-- Whether a document of a collection is left there by the deletions of an operation. -/
def spares (m : Memory) (name : String) (d : Document) : Operation → Bool
  | .request (.delete collection target _) =>
    !(decide (collection = name ∧ m.reaches name) && deletes d target)
  | _ => true

end Operation

/-! ## What operations do to a collection -/

/-- The contents of a collection, empty ones if it is not there. -/
def held (m : Memory) (name : String) : Contents := (m.collections.get? name).getD .empty

/-- The contents after deletions and writes. -/
def Contents.change (c : Contents) (spares : Document → Bool) (xs : List Document) : Contents :=
  xs.foldl Contents.accept { c with documents := c.documents.filter spares }

/-- Contents with the same documents and the same number of accepted ones. -/
structure Contents.Agrees (c c' : Contents) : Prop where
  documents : c.documents = c'.documents
  accepted : c.accepted = c'.accepted

theorem Contents.Agrees.refl (c : Contents) : c.Agrees c := ⟨rfl, rfl⟩

theorem documents_eq (m : Memory) (name : String) : m.documents name = (m.held name).documents := by
  rw [documents, held]
  cases m.collections.get? name <;> rfl

theorem documents_of_get? {m : Memory} {name : String} {c : Contents}
    (h : m.collections.get? name = some c) : m.documents name = c.documents := by
  rw [documents, h]
  rfl

/-- Without deletions only the writes are left of a change. -/
theorem change_of_spares {spares : Document → Bool} (h : ∀ d, spares d = true) (c : Contents)
    (xs : List Document) : c.change spares xs = xs.foldl Contents.accept c := by
  rw [Contents.change, List.filter_eq_self.2 fun d _ => h d]

theorem held_setContents (m : Memory) (collection : String) (c : Contents) (name : String) :
    (m.setContents collection c).held name = if name = collection then c else m.held name := by
  rw [held, setContents, Dictionary.get?_insert]
  split
  · rfl
  · rfl

theorem held_eq (h : m.collections.get? name = some c) : m.held name = c := by
  rw [held, h, Option.getD_some]

/-- A store that can be worked with answers, and one that cannot refuses. -/
theorem check_eq_ok_iff : m.check = .ok () ↔ m.closed = false ∧ m.available = true := by
  rw [check]
  cases m.closed <;> cases m.available <;> simp

theorem reaches_eq_true_iff :
    m.reaches name = true ↔ m.check = .ok () ∧ ∃ c, m.collections.get? name = some c := by
  rw [reaches, check_eq_ok_iff, Bool.and_eq_true, Bool.and_eq_true, Bool.not_eq_true',
    Dictionary.contains, Option.isSome_iff_exists]

/-- What stands in the way of a collection that is not in reach. -/
theorem not_reaches_cases (h : m.reaches name = false) :
    (∃ e, m.check = .error e) ∨ m.check = .ok () ∧ ∃ e, m.contents name = .error e := by
  cases hcheck : m.check with
  | error e => exact .inl ⟨e, rfl⟩
  | ok _ =>
    cases hcontents : m.contents name with
    | error e => exact .inr ⟨rfl, e, rfl⟩
    | ok c =>
      have hreaches : m.reaches name = true :=
        reaches_eq_true_iff.2 ⟨hcheck, c, contents_eq_ok_iff.1 hcontents⟩
      simp [h] at hreaches

/-- Writing stops at the first document without an identity. -/
theorem snd_putAll (xs : List Document) (c : Contents) :
    (c.putAll xs).2 = (xs.takeWhile (·.contains idField)).foldl Contents.accept c := by
  induction xs generalizing c with
  | nil => rfl
  | cons x xs ih =>
    cases hx : x.get? idField with
    | none =>
      have hcontains : x.contains idField = false := by simp [Document.contains, hx]
      simp [Contents.putAll, Contents.put, hx, hcontains]
    | some v =>
      have hcontains : x.contains idField = true := by simp [Document.contains, hx]
      have hput : c.put x = .ok (c.accept x) := by
        simp [Contents.accept, Contents.put, hx, Except.toOption]
      rw [Contents.putAll, hput, List.takeWhile_cons, if_pos hcontains, List.foldl_cons]
      exact ih _

theorem held_write (m : Memory) (collection : String) (xs : List Document) (name : String) :
    (m.write collection xs).2.held name =
      if collection = name ∧ m.reaches name = true then
        (xs.takeWhile (·.contains idField)).foldl Contents.accept (m.held name)
      else m.held name := by
  by_cases hreaches : m.reaches collection = true
  · obtain ⟨hcheck, c, hcontents⟩ := reaches_eq_true_iff.1 hreaches
    have hwrite : (m.write collection xs).2 = m.setContents collection (c.putAll xs).2 := by
      simp only [write, hcheck, contents_eq_ok_iff.2 hcontents, bind, Except.bind]
    rw [hwrite, held_setContents]
    by_cases hname : collection = name
    · subst hname
      rw [if_pos rfl, if_pos ⟨rfl, hreaches⟩, snd_putAll, held_eq hcontents]
    · have hother : ¬ (collection = name ∧ m.reaches name = true) := fun h => hname h.1
      rw [if_neg (Ne.symm hname), if_neg hother]
  · have hnone : ¬ (collection = name ∧ m.reaches name = true) := fun h => hreaches (h.1 ▸ h.2)
    have hwrite : (m.write collection xs).2 = m := by
      rcases not_reaches_cases (by simpa using hreaches) with ⟨e, he⟩ | ⟨hcheck, e, he⟩
      · simp only [write, he, bind, Except.bind]
      · simp only [write, hcheck, he, bind, Except.bind]
    rw [hwrite, if_neg hnone]

theorem held_delete (m : Memory) (collection : String) (target : DeleteTarget) (name : String) :
    (m.delete collection target).2.held name =
      if collection = name ∧ m.reaches name = true then
        { m.held name with
          documents := (m.held name).documents.filter fun d => !deletes d target }
      else m.held name := by
  by_cases hreaches : m.reaches collection = true
  · obtain ⟨hcheck, c, hcontents⟩ := reaches_eq_true_iff.1 hreaches
    have hdelete : (m.delete collection target).2 = m.setContents collection
        { c with documents := c.documents.filter fun d => !deletes d target } := by
      cases target with
      | ids ids =>
        simp only [delete, hcheck, contents_eq_ok_iff.2 hcontents, bind, Except.bind, deletes]
      | query text =>
        simp only [delete, hcheck, contents_eq_ok_iff.2 hcontents, bind, Except.bind, deletes]
        cases Query.parse text with
        | ok q => rfl
        | error e =>
          simp only [Bool.not_false, List.filter_true]
          exact (setContents_self hcontents).symm
    rw [hdelete, held_setContents]
    by_cases hname : collection = name
    · subst hname
      rw [if_pos rfl, if_pos ⟨rfl, hreaches⟩, held_eq hcontents]
    · have hother : ¬ (collection = name ∧ m.reaches name = true) := fun h => hname h.1
      rw [if_neg (Ne.symm hname), if_neg hother]
  · have hnone : ¬ (collection = name ∧ m.reaches name = true) := fun h => hreaches (h.1 ▸ h.2)
    have hdelete : (m.delete collection target).2 = m := by
      rcases not_reaches_cases (by simpa using hreaches) with ⟨e, he⟩ | ⟨hcheck, e, he⟩
      · simp only [delete, he, bind, Except.bind]
      · simp only [delete, hcheck, he, bind, Except.bind]
    rw [hdelete, if_neg hnone]

/-- Schemas and the mark of creation do not touch the documents. -/
theorem agrees_modify (m : Memory) (collection name : String) (f : Contents → Contents)
    (hf : ∀ c, (f c).Agrees c) :
    Contents.Agrees
      (held { m with collections := m.collections.modify collection .empty f } name)
      (m.held name) := by
  rw [held, Dictionary.modify, Dictionary.get?_insert]
  split
  · rename_i hname
    subst hname
    exact hf _
  · exact .refl _

theorem agrees_syncSchema (m : Memory) (collection : String) (s : Schema) (merge : Bool)
    (name : String) : ((m.syncSchema collection s merge).2.held name).Agrees (m.held name) := by
  by_cases hreaches : m.reaches collection = true
  · obtain ⟨hcheck, c, hcontents⟩ := reaches_eq_true_iff.1 hreaches
    simp only [syncSchema, hcheck, contents_eq_ok_iff.2 hcontents, bind, Except.bind]
    cases hcreated : c.created with
    | false => exact .refl _
    | true =>
      rw [if_pos rfl, held_setContents]
      split
      · rename_i hname
        rw [hname, held_eq hcontents]
        exact ⟨rfl, rfl⟩
      · exact .refl _
  · rcases not_reaches_cases (by simpa using hreaches) with ⟨e, he⟩ | ⟨hcheck, e, he⟩
    · simp only [syncSchema, he, bind, Except.bind]
      exact .refl _
    · simp only [syncSchema, hcheck, he, bind, Except.bind]
      exact .refl _

/-- An operation takes the documents that it deletes out of a collection, and then writes those that
the collection accepts. -/
theorem agrees_run (m : Memory) (op : Operation) (name : String) :
    ((op.run m).held name).Agrees
      ((m.held name).change (op.spares m name) (op.accepted m name)) := by
  have hsame : ∀ {c : Contents}, c.Agrees (m.held name) →
      c.Agrees ((m.held name).change (fun _ => true) []) := fun h => by
    rwa [change_of_spares fun _ => rfl]
  cases op with
  | preload collection s => exact hsame (agrees_modify m collection name _ fun _ => ⟨rfl, rfl⟩)
  | setAvailable available => exact hsame (.refl _)
  | request r =>
    cases r with
    | ensure collection =>
      refine hsame ?_
      show ((m.ensure collection).2.held name).Agrees _
      rw [ensure]
      split
      · exact .refl _
      · exact agrees_modify m collection.name name _ fun _ => ⟨rfl, rfl⟩
    | syncSchema collection s merge => exact hsame (agrees_syncSchema m collection s merge name)
    | query collection text offset limit => exact hsame (.refl _)
    | close => exact hsame (.refl _)
    | write collection xs async =>
      show ((m.write collection xs).2.held name).Agrees
        ((m.held name).change (fun _ => true)
          (Operation.accepted m name (.request (.write collection xs async))))
      rw [held_write, Operation.accepted, change_of_spares fun _ => rfl]
      split <;> exact .refl _
    | delete collection target async =>
      show ((m.delete collection target).2.held name).Agrees
        ((m.held name).change (fun d => !(decide (collection = name ∧ m.reaches name) &&
          deletes d target)) [])
      rw [held_delete]
      by_cases hreached : collection = name ∧ m.reaches name = true
      · rw [if_pos hreached, decide_eq_true hreached]
        exact .refl _
      · rw [if_neg hreached, decide_eq_false hreached]
        exact hsame (.refl _)

/-! ## Reached stores -/

/-- The stores that sound operations lead to, whether they succeed or fail, with the number of
documents that each collection has accepted on the way. -/
inductive Reached : Memory → (String → Nat) → Prop
  | start : Reached .empty fun _ => 0
  | run {m : Memory} {count : String → Nat} (h : Reached m count) {op : Operation}
      (hop : op.IsSound) :
      Reached (op.run m) fun name => count name + (op.accepted m name).length

theorem addresses_of_mem_accepted {op : Operation} (hop : op.IsSound)
    (hx : x ∈ op.accepted m name) : ∃ id, Addresses x id := by
  cases op with
  | preload collection s => cases hx
  | setAvailable available => cases hx
  | request r =>
    cases r with
    | write collection xs async =>
      rw [Operation.accepted] at hx
      split at hx
      · have hid : x.contains idField = true :=
          List.mem_takeWhile_imp (p := fun d => Document.contains d idField) hx
        exact (hop x (List.takeWhile_subset _ hx)).addresses hid
      · cases hx
    | _ => cases hx

theorem accepted_foldl_accept (hxs : ∀ x ∈ xs, ∃ id, Addresses x id) (c : Contents) :
    (xs.foldl Contents.accept c).accepted = c.accepted + xs.length := by
  induction xs generalizing c with
  | nil => rfl
  | cons x xs ih =>
    obtain ⟨id, hx⟩ := hxs x List.mem_cons_self
    rw [List.foldl_cons, ih (fun y hy => hxs y (List.mem_cons_of_mem _ hy)), accepted_accept hx,
      List.length_cons]
    omega

/-- One operation on a collection that is versioned so far. -/
theorem writes_run {op : Operation} (hop : op.IsSound)
    (h : Versioned (m.held name).accepted (m.documents name))
    (hfew : (m.held name).accepted + (op.accepted m name).length < 2 ^ 63) :
    Writes ((m.documents name).filter (op.spares m name)) (op.accepted m name)
        ((op.run m).documents name) ∧
      Versioned ((m.held name).accepted + (op.accepted m name).length)
        ((op.run m).documents name) := by
  have hagrees := agrees_run m op name
  rw [documents_eq] at h ⊢
  rw [documents_eq (op.run m), hagrees.documents]
  exact writes_foldl_accept
    (c := { m.held name with documents := (m.held name).documents.filter (op.spares m name) })
    (h.filter _) (fun x hx => addresses_of_mem_accepted hop hx) hfew

/-- The counter of a collection is the number of documents that it has accepted. -/
theorem Reached.accepted_eq {count : String → Nat} (h : Reached m count) (name : String) :
    (m.held name).accepted = count name := by
  induction h with
  | start => rfl
  | @run m count _ op hop ih =>
    rw [(agrees_run m op name).accepted, Contents.change,
      accepted_foldl_accept fun x hx => addresses_of_mem_accepted hop hx]
    exact congrArg (· + _) ih

/-- The invariant holds in every reached store. -/
theorem Reached.versioned {count : String → Nat} (h : Reached m count) (name : String)
    (hfew : count name < 2 ^ 63) : Versioned (count name) (m.documents name) := by
  induction h with
  | start => exact versioned_nil 0
  | @run m count hm op hop ih =>
    have haccepted := hm.accepted_eq name
    beta_reduce at hfew ⊢
    rw [← haccepted] at hfew ih ⊢
    exact (writes_run hop (ih (by omega)) hfew).2

/-- The store in memory is a map in the order of insertion with fresh versions.  In every reached
store the documents of a collection have texts as identities and versions between 1 and the number
of accepted documents, all of them distinct.  Whatever is done next, also when it fails, takes out
the documents that are deleted, and writes the accepted ones over the rest one after the other. -/
theorem Reached.insertionOrdered {count : String → Nat} (h : Reached m count) (name : String)
    (hfew : count name < 2 ^ 63) :
    Versioned (count name) (m.documents name) ∧
      ∀ op : Operation, op.IsSound → count name + (op.accepted m name).length < 2 ^ 63 →
        Writes ((m.documents name).filter (op.spares m name)) (op.accepted m name)
          ((op.run m).documents name) := by
  have hversioned := h.versioned name hfew
  refine ⟨hversioned, fun op hop hmore => ?_⟩
  rw [← h.accepted_eq name] at hversioned hmore
  exact (writes_run hop hversioned hmore).1

/-- A write of three documents that stops at the third one, which has no identity. -/
def cutWrite : Operation :=
  .request (.write "people" [⟨[("id", .text "a"), ("age", .int32 1)]⟩, ⟨[("id", .text "b")]⟩, ⟨[]⟩]
    true)

/-- A patch of the first document that has been written. -/
def agePatch : Operation :=
  .request (.write "people" [⟨[("id", .text "a"), ("age", Stored.mark (.int32 2))]⟩] true)

theorem insertionOrdered_cutWrite :
    let m := cutWrite.run ((Operation.preload "people" (.ofKey none)).run .empty)
    m.documents "people" =
        [⟨[("id", .text "a"), ("age", .int32 1), ("_version_", .int64 1)]⟩,
          ⟨[("id", .text "b"), ("_version_", .int64 2)]⟩] ∧
      Versioned 2 (m.documents "people") ∧
      Writes (m.documents "people") [⟨[("id", .text "a"), ("age", Stored.mark (.int32 2))]⟩]
        ((agePatch.run m).documents "people") := by
  intro m
  have hcut : cutWrite.IsSound := by
    show ∀ x ∈ _, IsSoundWrite x
    decide +kernel
  have hpatch : agePatch.IsSound := by
    show ∀ x ∈ _, IsSoundWrite x
    decide +kernel
  have hpreload : (Operation.preload "people" (.ofKey none)).IsSound := trivial
  have hreached := (Reached.start.run hpreload).run hcut
  obtain ⟨hversioned, hnext⟩ := hreached.insertionOrdered "people" (by decide +kernel)
  have hwrites := hnext agePatch hpatch (by decide +kernel)
  have hspared : ∀ d, agePatch.spares m "people" d = true := fun _ => rfl
  rw [List.filter_eq_self.2 fun d _ => hspared d] at hwrites
  exact ⟨by decide +kernel, hversioned, hwrites⟩

end SearchTable.Memory
