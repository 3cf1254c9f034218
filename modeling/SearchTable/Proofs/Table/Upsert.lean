import SearchTable.Proofs.Condition.Meaning
import SearchTable.Proofs.Table.Rows
/-!
# Adding or updating under a key

An upsert by key meets its row in two ways.  The query finds the documents whose key column holds
the text; when there is none, the record is written under the identity of its key.  A collection
that a table comes to is *filed* under its key (`Filed`): every document stands under the identity
of the value in its key column, so of each text there is at most one, and it is where the record
would go.

The other way round it is not so.  The identity is derived from the name of the key, which is its
plain text, and an absent key has the name `null`, as the text `null` has; the empty text shares the
name that stands for it (`Clashes`).  An upsert of such a text finds no row and writes over the row
of the other value.  `Table.updateOrAdd_spares_iff` says exactly when an upsert leaves the rows of
other keys alone.
-/

namespace SearchTable

open Memory Document Layout Reconcile Condition Text

variable {k id s : String} {past : List Changes} {changes : Changes} {c : Contents}
  {d x : Document} {columns : List Column} {r : Record}

/-! ## Values of a key -/

/-- The field of a value; an absent value has none. -/
def Value.field? (v : Value) : Option Stored := if v.isNull then none else some v.toStored

theorem Value.HasType.string_cases {v : Value} (h : v.HasType .string) :
    v = .null ∨ ∃ text, v = .text text := by
  cases v with
  | null => exact .inl rfl
  | text text => exact .inr ⟨text, rfl⟩
  | _ => exact absurd (h.2 _ rfl) (by decide)

/-- The value of a document in the column of a key. -/
def keyOf (k : String) (d : Document) : Value := readColumn d ⟨k, .string⟩

theorem keyOf_congr {e : Document} (h : d.get? k = e.get? k) : keyOf k d = keyOf k e := by
  rw [keyOf, keyOf, readColumn, readColumn, h]

theorem keyOf_of_get? {v : Value} (hv : v.HasType .string) (h : d.get? k = v.field?) :
    keyOf k d = v := by
  obtain rfl | ⟨text, rfl⟩ := hv.string_cases <;> rw [keyOf, readColumn, h] <;> rfl

/-- Another value of a key has the name of a text: an absent one, or one of the two that share the
name for the empty text. -/
def Clashes (s : String) (v : Value) : Prop :=
  v = .null ∧ s = "null" ∨ v = .text "" ∧ s = Identity.emptyKeyName ∨
    v = .text Identity.emptyKeyName ∧ s = ""

instance (s : String) (v : Value) : Decidable (Clashes s v) :=
  inferInstanceAs (Decidable (_ ∨ _ ∨ _))

theorem keyName_text (s : String) :
    Identity.keyName [.text s] = if s = "" then Identity.emptyKeyName else s := by
  have hjoin : String.join [s] = s := by simp [String.join]
  simp only [Identity.keyName, List.map_cons, List.map_nil, Value.plain, hjoin]

theorem Clashes.ne {v : Value} (h : Clashes s v) : v ≠ .text s := by
  rintro rfl
  rcases h with ⟨h, -⟩ | ⟨h, rfl⟩ | ⟨h, rfl⟩
  · cases h
  · exact absurd h (by decide)
  · exact absurd h (by decide)

/-- What has the name of a text is the text, or it clashes with it. -/
theorem keyName_eq_iff {v : Value} (hv : v.HasType .string) :
    Identity.keyName [v] = Identity.keyName [.text s] ↔ v = .text s ∨ Clashes s v := by
  have hnull : Identity.keyName [.null] = "null" := by decide
  have hother : Identity.emptyKeyName ≠ "null" := by decide
  obtain rfl | ⟨text, rfl⟩ := hv.string_cases
  · rw [hnull, keyName_text]
    by_cases hs : s = ""
    · simp [Clashes, hs, hother.symm]
    · rw [if_neg hs, eq_comm]
      simp [Clashes]
  · rw [keyName_text, keyName_text]
    by_cases htext : text = "" <;> by_cases hs : s = ""
    · simp [htext, hs]
    · rw [if_pos htext, if_neg hs, eq_comm]
      simp [Clashes, htext, hs, Ne.symm hs]
    · rw [if_neg htext, if_pos hs]
      simp [Clashes, htext, hs]
    · rw [if_neg htext, if_neg hs]
      simp [Clashes, htext, hs]

/-! ## Filed collections -/

/-- A document under the identity of a value in the column of a key: the column holds the value,
unless the document has been emptied by a list without changes. -/
def IsFiled (k : String) (past : List Changes) (id : String) (d : Document) : Prop :=
  ∃ v : Value, v.HasType .string ∧ id = Identity.ofKey [v] ∧
    (d.get? k = v.field? ∨ [] ∈ past ∧ d.get? k = none)

/-- The documents of a collection have identities of their own and are filed under the key. -/
structure Filed (k : String) (past : List Changes) (c : Contents) : Prop where
  keyed : Keyed c.documents
  filed : ∀ id d, c.find id = some d → IsFiled k past id d

theorem IsFiled.mono {past' : List Changes} (h : IsFiled k past id d) (hsub : past ⊆ past') :
    IsFiled k past' id d := by
  obtain ⟨v, hv, hid, hfield⟩ := h
  exact ⟨v, hv, hid, hfield.imp_right (And.imp_left (hsub ·))⟩

theorem Filed.mono {past' : List Changes} (h : Filed k past c) (hsub : past ⊆ past') :
    Filed k past' c :=
  ⟨h.keyed, fun id d hd => (h.filed id d hd).mono hsub⟩

theorem Filed.isFiled (h : Filed k past c) (hd : d ∈ c.documents) :
    IsFiled k past (oldId d) d :=
  h.filed _ d (h.keyed.find_eq hd (getText?_eq_oldId h.keyed hd))

/-- A text in the column of the key tells the identity. -/
theorem IsFiled.id_eq (h : IsFiled k past id d) (hs : keyOf k d = .text s) :
    id = Identity.ofKey [.text s] := by
  obtain ⟨v, hv, rfl, hfield | ⟨-, hnone⟩⟩ := h
  · rw [← hs, keyOf_of_get? hv hfield]
  · rw [keyOf, readColumn, hnone] at hs
    cases hs

/-- When nothing has been emptied, the column of the key tells the identity. -/
theorem IsFiled.keyOf_eq (h : IsFiled k past id d) (hpast : [] ∉ past) :
    (keyOf k d).HasType .string ∧ id = Identity.ofKey [keyOf k d] := by
  obtain ⟨v, hv, rfl, hfield⟩ := h
  rw [keyOf_of_get? hv (hfield.resolve_right fun h => hpast h.1)]
  exact ⟨hv, rfl⟩

/-! ## Records -/

/-- A layout whose key is one column of texts, and which has no columns for objects. -/
structure HasKey (l : Layout) (k : String) : Prop where
  key : l.key = some [k]
  proper : IsProper l.columns
  scalar : ∀ column ∈ l.columns, column.type ≠ .object
  column : ⟨k, .string⟩ ∈ l.columns

instance (l : Layout) (k : String) : Decidable (HasKey l k) :=
  decidable_of_iff (l.key = some [k] ∧ IsProper l.columns ∧
    (∀ column ∈ l.columns, column.type ≠ .object) ∧ ⟨k, .string⟩ ∈ l.columns)
    ⟨fun ⟨h₁, h₂, h₃, h₄⟩ => ⟨h₁, h₂, h₃, h₄⟩, fun h => ⟨h.key, h.proper, h.scalar, h.column⟩⟩

variable {l : Layout}

theorem HasKey.ne_id (h : HasKey l k) : k ≠ idField := fun heq =>
  h.proper.id (heq ▸ List.mem_map_of_mem (f := Column.name) h.column)

theorem HasKey.ne_version (h : HasKey l k) : k ≠ versionField := fun heq =>
  h.proper.version (heq ▸ List.mem_map_of_mem (f := Column.name) h.column)

/-- The document of a record under the identity of its key. -/
def keyDocument (l : Layout) (k : String) (r : Record) : Document :=
  documentOf l.columns (keyIdentity l.columns [k] r) r

theorem addresses_keyDocument (l : Layout) (k : String) (r : Record) :
    Addresses (keyDocument l k r) (Identity.ofKey [valueIn l.columns r k]) :=
  addresses_documentOf l.columns _ r

theorem isSome_keyDocument (l : Layout) (k : String) (r : Record) :
    ((keyDocument l k r).get? idField).isSome = true := by
  rw [(addresses_keyDocument l k r).get?_eq]
  rfl

/-- The document of a record has the value of the key in its column. -/
theorem get?_keyDocument (h : HasKey l k) (hfits : Fits l.columns r) :
    (keyDocument l k r).get? k = (valueIn l.columns r k).field? :=
  get?_documentOf h.proper.names h.proper.id (mem_zip_valueIn h.proper.names hfits.length_eq.symm h.column) _

theorem hasType_valueIn (h : HasKey l k) (hfits : Fits l.columns r) :
    (valueIn l.columns r k).HasType .string :=
  (List.forall₂_iff_zip.1 hfits).2 (mem_zip_valueIn h.proper.names hfits.length_eq.symm h.column)

/-- Whatever it is written over, the document of a record is what is left. -/
theorem writtenOver_keyDocument (h : HasKey l k) (hfits : Fits l.columns r)
    (o : Option Document) : writtenOver (keyDocument l k r) o = keyDocument l k r := by
  have hplain : isPatch (keyDocument l k r) = false :=
    isPatch_documentOf (isUnmarked_of_isScalar (hfits.isScalar h.scalar)) _ _
  cases o with
  | some d => rw [writtenOver, hplain, if_neg (by simp)]
  | none =>
    have hnames : (keyDocument l k r).HasDistinctNames := hasDistinctNames_documentOf _ _ _
    rw [writtenOver, applyFields_empty_of_plain hnames hplain]
    exact unversioned_documentOf h.proper _ r

/-- Under a key the document of a record can always be built. -/
theorem build_keyDocument (h : HasKey l k) (hfits : Fits l.columns r) (supply : Nat) :
    ∃ supply', l.build supply r = .ok (keyDocument l k r, supply') := by
  obtain ⟨supply', hbuild⟩ := build_eq h.proper.id hfits.length_eq.symm supply
  rw [identityIn_of_key h.key] at hbuild
  exact ⟨supply', hbuild⟩

/-! ## Writes -/

/-- An addressed write keeps a collection filed when it leaves a filed document. -/
theorem Filed.accept (h : Filed k past c) (hx : Addresses x id)
    (hwritten : IsFiled k past id (withVersion (c.accepted + 1) (writtenOver x (c.find id)))) :
    Filed k past (c.accept x) where
  keyed := h.keyed.accept hx
  filed other d hd := by
    rw [find_accept hx] at hd
    split at hd
    · rename_i heq
      subst heq
      exact Option.some.inj hd ▸ hwritten
    · exact h.filed other d hd

theorem Filed.accept_keyDocument (h : Filed k past c) (hl : HasKey l k)
    (hfits : Fits l.columns r) : Filed k past (c.accept (keyDocument l k r)) := by
  refine h.accept (addresses_keyDocument l k r)
    ⟨valueIn l.columns r k, hasType_valueIn hl hfits, rfl, .inl ?_⟩
  rw [get?_withVersion hl.ne_version, writtenOver_keyDocument hl hfits, get?_keyDocument hl hfits]

theorem Filed.foldl_accept_keyDocument {records : List Record} (h : Filed k past c)
    (hl : HasKey l k) (hfits : ∀ r ∈ records, Fits l.columns r) :
    Filed k past ((records.map (keyDocument l k)).foldl Contents.accept c) := by
  induction records generalizing c with
  | nil => exact h
  | cons r records ih =>
    obtain ⟨hfirst, hrest⟩ := List.forall_mem_cons.1 hfits
    exact ih (h.accept_keyDocument hl hfirst) hrest

/-- Changes that leave the key and the identity alone. -/
def SpareKey (k : String) (changes : Changes) : Prop :=
  k ∉ changes.map Prod.fst ∧ idField ∉ changes.map Prod.fst

instance (k : String) (changes : Changes) : Decidable (SpareKey k changes) :=
  inferInstanceAs (Decidable (_ ∧ _))

/-- What a patch leaves of a document has the same key, or none when the patch has no changes. -/
theorem get?_writtenOver_patchDocument (hl : HasKey l k) (hchanges : SpareKey k changes)
    (id : String) (d : Document) :
    (writtenOver (patchDocument id changes) (some d)).get? k = d.get? k ∨
      changes = [] ∧ (writtenOver (patchDocument id changes) (some d)).get? k = none := by
  rcases eq_or_ne changes [] with rfl | hne
  · exact .inr ⟨rfl, isBare_writtenOver_nil id (some d) k hl.ne_id hl.ne_version⟩
  · rw [writtenOver, if_pos (isPatch_patchDocument_of_ne_nil hne id)]
    exact .inl (get?_applyFields_of_notMem (notMem_fields_patchDocument hchanges.1 hl.ne_id id) d)

theorem Filed.accept_patchDocument (h : Filed k past c) (hl : HasKey l k)
    (hchanges : SpareKey k changes) (hpast : changes ∈ past) (hid : (c.find id).isSome = true) :
    Filed k past (c.accept (patchDocument id changes)) := by
  obtain ⟨d, hd⟩ := Option.isSome_iff_exists.1 hid
  obtain ⟨v, hv, hidentity, hfield⟩ := h.filed id d hd
  refine h.accept (addresses_patchDocument hchanges.2 id) ⟨v, hv, hidentity, ?_⟩
  rw [hd, get?_withVersion hl.ne_version]
  rcases get?_writtenOver_patchDocument hl hchanges id d with hsame | ⟨rfl, hnone⟩
  · rwa [hsame]
  · exact .inr ⟨hpast, hnone⟩

theorem Filed.patchAll {ds : List Document} (h : Filed k past c) (hl : HasKey l k)
    (hchanges : SpareKey k changes) (hpast : changes ∈ past)
    (hds : ∀ d ∈ ds, (c.find (oldId d)).isSome = true) :
    Filed k past (patchAll changes ds c) := by
  induction ds generalizing c with
  | nil => exact h
  | cons d ds ih =>
    obtain ⟨hd, hds⟩ := List.forall_mem_cons.1 hds
    -- The other matches are still found: a patch takes no document away.
    refine ih (h.accept_patchDocument hl hchanges hpast hd) fun e he => ?_
    rw [find_accept (addresses_patchDocument hchanges.2 _)]
    split
    · rfl
    · exact hds e he

/-! ## Pairs -/

variable {plan : Plan} {w : World Memory} {condition : Condition} {pair : Pair}
  {ds : List Document}

/-- The contents after a pair that changes no key: its matches patched, or the document of its
record written when there are none. -/
def contentsAfter (l : Layout) (k : String) (pair : Pair) (ds : List Document) (c : Contents) :
    Contents :=
  match ds, pair.insert with
  | [], some r => c.accept (keyDocument l k r)
  | ds, _ => patchAll pair.changes ds c

theorem filed_contentsAfter (h : Filed k past c) (hl : HasKey l k)
    (hchanges : SpareKey k pair.changes) (hpast : pair.changes ∈ past)
    (hfits : ∀ r ∈ pair.insert, Fits l.columns r) (hds : ∀ d ∈ ds, d ∈ c.documents) :
    Filed k past (contentsAfter l k pair ds c) := by
  have hfound : ∀ d ∈ ds, (c.find (oldId d)).isSome = true := fun d hd => by
    rw [h.keyed.find_eq (hds d hd) (getText?_eq_oldId h.keyed (hds d hd))]
    rfl
  rw [contentsAfter.eq_def]
  split
  · rename_i r hinsert
    exact h.accept_keyDocument hl (hfits r hinsert)
  · exact h.patchAll hl hchanges hpast hfound

/-- A pair whose matches can be read leaves the contents, and does not fail. -/
theorem run_runPair_contentsAfter (plan : Plan) (pair : Pair) (hl : HasKey plan.layout k)
    (hrotating : plan.rotating = []) (hfits : ∀ r ∈ pair.insert, Fits plan.layout.columns r)
    (report : UpdateReport) (hopen : w.store.check = .ok ())
    (hcontents : w.store.collections.get? plan.collection = some c) (hc : Keyed c.documents)
    (hcollected : collected c condition pair.params = .ok ds) :
    ∃ w' report', (runPair Memory.service plan condition pair).run ⟨w, report⟩ =
        (.ok (), ⟨w', report'⟩) ∧
      w'.store = w.store.setContents plan.collection (contentsAfter plan.layout k pair ds c) ∧
      report'.failed = report.failed := by
  obtain ⟨q, hq⟩ := exists_select_of_collected hcollected
  have hids : ∀ d ∈ ds, (d.get? idField).isSome = true := fun d hd =>
    isSome_get? hc (List.mem_of_mem_filter (hq ▸ hd))
  by_cases hfound : pair.insert = none ∨ ds ≠ []
  · obtain ⟨flushes, hrun⟩ :=
      runPair_memory_of_found report hopen hcontents pair hcollected hids hfound
    refine ⟨_, _, hrun, ?_, rfl⟩
    have hafter : contentsAfter plan.layout k pair ds c = patchAll pair.changes ds c := by
      obtain ⟨params, changes, insert⟩ := pair
      rcases hfound with rfl | hne
      · cases ds <;> rfl
      · obtain ⟨d, ds, rfl⟩ := List.exists_cons_of_ne_nil hne
        rfl
    rw [hafter, sendAll_of_rotating_nil hrotating]
    rfl
  · obtain ⟨params, changes, insert⟩ := pair
    rw [not_or, not_not] at hfound
    obtain ⟨hsome, rfl⟩ := hfound
    obtain ⟨r, rfl⟩ := Option.ne_none_iff_exists'.1 hsome
    obtain ⟨supply, hbuild⟩ := build_keyDocument hl (hfits r rfl) w.supply
    exact ⟨_, _, runPair_memory_insert report hopen hcontents changes hcollected hbuild
      (isSome_keyDocument plan.layout k r), rfl, rfl⟩

/-! ## Calls -/

/-- The store is in reach, and a collection in it is filed. -/
structure HoldsFiled (name k : String) (past : List Changes) (m : Memory) : Prop where
  isOpen : m.check = .ok ()
  filed : ∃ c, m.collections.get? name = some c ∧ Filed k past c

theorem HoldsFiled.mono {name : String} {past' : List Changes} {m : Memory}
    (h : HoldsFiled name k past m) (hsub : past ⊆ past') : HoldsFiled name k past' m := by
  obtain ⟨c, hcontents, hc⟩ := h.filed
  exact ⟨h.isOpen, c, hcontents, hc.mono hsub⟩

theorem HoldsFiled.setContents {name : String} {m : Memory} (h : HoldsFiled name k past m)
    (hc : Filed k past c) : HoldsFiled name k past (m.setContents name c) :=
  ⟨h.isOpen, c, get?_setContents m name c, hc⟩

theorem holdsFiled_runPair (hl : HasKey plan.layout k) (hrotating : plan.rotating = [])
    (hchanges : SpareKey k pair.changes) (hpast : pair.changes ∈ past)
    (hfits : ∀ r ∈ pair.insert, Fits plan.layout.columns r) {p : Progress Memory}
    (h : HoldsFiled plan.collection k past p.world.store) :
    HoldsFiled plan.collection k past
      ((runPair Memory.service plan condition pair).run p).2.world.store := by
  obtain ⟨w, report⟩ := p
  obtain ⟨c, hcontents, hc⟩ := h.filed
  cases hcollected : collected c condition pair.params with
  | error e =>
    rw [runPair_memory_error report h.isOpen hcontents hcollected]
    exact h
  | ok ds =>
    obtain ⟨w', report', hrun, hstore, -⟩ := run_runPair_contentsAfter plan pair hl hrotating hfits
      report h.isOpen hcontents hc.keyed hcollected
    obtain ⟨q, rfl⟩ := exists_select_of_collected hcollected
    rw [hrun]
    show HoldsFiled plan.collection k past w'.store
    rw [hstore]
    exact h.setContents (filed_contentsAfter hc hl hchanges hpast hfits fun d hd =>
      List.mem_of_mem_filter hd)

/-! ## One row -/

/-- Whoever reads as a text of a key, has its identity. -/
theorem Filed.getText?_eq (h : Filed k past c) (hd : d ∈ c.documents) (hs : keyOf k d = .text s) :
    d.getText? idField = some (Identity.ofKey [.text s]) := by
  rw [getText?_eq_oldId h.keyed hd, (h.isFiled hd).id_eq hs]

section Written

variable (hx : Addresses x (Identity.ofKey [.text s]))
  (hwritten : keyOf k (withVersion (c.accepted + 1)
    (writtenOver x (c.find (Identity.ofKey [.text s])))) = .text s)

include hx hwritten

/-- A write that leaves a text of the key under its identity leaves no other document with it. -/
theorem countP_keyOf_accept (h : Filed k past (c.accept x)) :
    (c.accept x).documents.countP (keyOf k · = .text s) = 1 := by
  have hfind := find_accept hx c (Identity.ofKey [.text s])
  rw [if_pos rfl] at hfind
  have hsame : ∀ d ∈ (c.accept x).documents,
      decide (keyOf k d = .text s) = true ↔
        (d.getText? idField == some (Identity.ofKey [.text s])) = true := fun d hd => by
    rw [decide_eq_true_eq, beq_iff_eq]
    refine ⟨h.getText?_eq hd, fun hid => ?_⟩
    rw [h.keyed.find_eq hd hid, Option.some.injEq] at hfind
    rw [hfind, hwritten]
  have hmem : some (Identity.ofKey [.text s]) ∈
      (c.accept x).documents.map (Document.getText? · idField) :=
    List.mem_map.2 ⟨_, List.mem_of_find?_eq_some hfind, getText?_of_find hfind⟩
  have hcount := List.count_eq_one_of_mem h.keyed.nodup hmem
  rw [List.count, List.countP_map] at hcount
  exact (List.countP_congr hsame).trans hcount

/-- It leaves the other documents alone exactly when what had the identity had the text. -/
theorem spares_accept_iff (h : Filed k past c) :
    (∀ d ∈ c.documents, keyOf k d ≠ .text s → d ∈ (c.accept x).documents) ↔
      ∀ d ∈ c.documents, d.getText? idField = some (Identity.ofKey [.text s]) →
        keyOf k d = .text s := by
  constructor
  · intro hspared d hd hid
    by_contra hother
    have hfound := (h.keyed.accept hx).find_eq (hspared d hd hother) hid
    rw [find_accept hx, if_pos rfl, Option.some.injEq] at hfound
    exact hother (hfound ▸ hwritten)
  · intro hsame d hd hother
    have hid := getText?_eq_oldId h.keyed hd
    have hne : oldId d ≠ Identity.ofKey [.text s] := fun heq => hother (hsame d hd (heq ▸ hid))
    have hfound : (c.accept x).find (oldId d) = some d := by
      rw [find_accept hx, if_neg hne, h.keyed.find_eq hd hid]
    exact List.mem_of_find?_eq_some hfound

end Written

/-- As long as identities tell names of keys apart and nothing has been emptied, a document has the
identity of another key exactly when the keys clash. -/
theorem Filed.forall_keyOf_eq_iff (h : Filed k past c) (hpast : [] ∉ past)
    (hinjective : ∀ d ∈ c.documents, Identity.ofKey [keyOf k d] = Identity.ofKey [.text s] →
      Identity.keyName [keyOf k d] = Identity.keyName [.text s]) :
    (∀ d ∈ c.documents, d.getText? idField = some (Identity.ofKey [.text s]) →
        keyOf k d = .text s) ↔
      ∀ d ∈ c.documents, ¬ Clashes s (keyOf k d) := by
  refine forall₂_congr fun d hd => ?_
  obtain ⟨hv, hid⟩ := (h.isFiled hd).keyOf_eq hpast
  rw [getText?_eq_oldId h.keyed hd, hid, Option.some.injEq]
  constructor
  · intro hsame hclash
    have hname := (keyName_eq_iff hv).2 (.inr hclash)
    exact hclash.ne (hsame (congrArg Identity.ofName hname))
  · intro hclash heq
    exact ((keyName_eq_iff hv).1 (hinjective d hd heq)).resolve_right hclash

/-- A pair that has found the documents with the text of its record writes once, and it leaves the
text under its identity. -/
theorem exists_write_contentsAfter (h : Filed k past c) (hl : HasKey l k)
    (hchanges : SpareKey k changes) (hne : changes ≠ []) (hfits : Fits l.columns r)
    (hr : valueIn l.columns r k = .text s) (params : Bindings)
    (hds : ∀ d, d ∈ ds ↔ d ∈ c.documents ∧ keyOf k d = .text s) (hnodup : ds.Nodup) :
    ∃ x, contentsAfter l k ⟨params, changes, some r⟩ ds c = c.accept x ∧
      Addresses x (Identity.ofKey [.text s]) ∧
      keyOf k (withVersion (c.accepted + 1)
        (writtenOver x (c.find (Identity.ofKey [.text s])))) = .text s := by
  cases ds with
  | nil =>
    refine ⟨keyDocument l k r, rfl, hr ▸ addresses_keyDocument l k r, ?_⟩
    refine keyOf_of_get? (hr ▸ hasType_valueIn hl hfits) ?_
    rw [get?_withVersion hl.ne_version, writtenOver_keyDocument hl hfits,
      get?_keyDocument hl hfits, hr]
  | cons d others =>
    obtain ⟨hd, hs⟩ := (hds d).1 List.mem_cons_self
    have hid := h.getText?_eq hd hs
    -- Both would have the identity of the text.
    have hnone : others = [] := by
      refine List.eq_nil_iff_forall_not_mem.2 fun e he => ?_
      obtain ⟨he', hs'⟩ := (hds e).1 (List.mem_cons_of_mem _ he)
      have heq : e = d := List.inj_on_of_nodup_map h.keyed.nodup he' hd
        ((h.getText?_eq he' hs').trans hid.symm)
      exact (List.nodup_cons.1 hnodup).1 (heq ▸ he)
    subst hnone
    refine ⟨patchDocument (oldId d) changes, rfl, ?_, ?_⟩
    · rw [oldId_eq hid]
      exact addresses_patchDocument hchanges.2 _
    · rw [h.keyed.find_eq hd hid, ← hs]
      refine keyOf_congr ?_
      rw [get?_withVersion hl.ne_version]
      exact (get?_writtenOver_patchDocument hl hchanges _ d).resolve_right fun h => hne h.1

/-! ## The condition -/

/-- The condition that the key is the value of a stream variable. -/
def keyCondition (k : String) (type : ColumnType) (p : String) : Expression :=
  .compare .equal (.field k type) (.variable p)

/-- A filed document has the text in the column of its key exactly when it reads as the text. -/
theorem IsFiled.someValue_iff (h : IsFiled k past id d) :
    Comparison.someValue d k s Ordering.isEq = true ↔ keyOf k d = .text s := by
  obtain ⟨v, hv, -, hfield⟩ := h
  have hnone : d.get? k = none →
      (Comparison.someValue d k s Ordering.isEq = true ↔ keyOf k d = .text s) := fun hnone => by
    simp [Comparison.someValue, Query.fieldValues, hnone, keyOf, readColumn]
  rcases hfield with hfield | ⟨-, hfield⟩
  · obtain rfl | ⟨text, rfl⟩ := hv.string_cases
    · exact hnone hfield
    · rw [keyOf_of_get? hv hfield, Comparison.someValue, Query.fieldValues, hfield]
      simp [Value.field?, Value.isNull, Value.toStored, Query.compareLiteral, Query.toNumber?]
  · exact hnone hfield

/-- The condition always resolves, and the query finds what reads as the text, unless it is too
long. -/
theorem exists_resolve_keyCondition {params : Bindings} {p : String} (hk : IsPlainName k)
    (hp : IsPlainName p) (hs : params.get? p = some (.text s)) (type : ColumnType) :
    ∃ query, (compile (keyCondition k type p)).resolve params = .ok query ∧
      (Query.maxLength < query.utf8ByteSize → ∃ e, Query.parse query = .error e) ∧
      (query.utf8ByteSize ≤ Query.maxLength → ∃ node, Query.parse query = .ok node ∧
        ∀ d, node.holds d = Comparison.someValue d k s Ordering.isEq) := by
  have hparts : Expression.comparison? (.field k type) (.variable p) =
      some (k, .left, .slot p) := rfl
  have hbound : ∀ id ∈ (compile (keyCondition k type p)).placeholders,
      params.contains id = true := fun id hid => by
    rw [placeholders_compile, mem_fragmentIds, keyCondition, Expression.slots, hparts] at hid
    rw [List.mem_singleton.1 hid, Dictionary.contains, hs]
    rfl
  have hranges : (keyCondition k type p).rangeValues params = [] := by
    rw [keyCondition, Expression.rangeValues, hparts]
    rfl
  have hnesting : (keyCondition k type p).nesting ≤ Query.maxDepth := by
    rw [Expression.nesting, keyCondition, Expression.levels?, hparts]
    exact (by decide : 2 ≤ Query.maxDepth)
  obtain ⟨node, hresolve, hread, htruth⟩ := exists_readsAs_resolve (e := keyCondition k type p)
    (by simpa [keyCondition, Expression.fields] using hk)
    (by simpa [keyCondition, Expression.slotIds] using hp) hbound (by simp [hranges])
    (by simp [keyCondition, Expression.constants])
  refine ⟨_, hresolve, fun hlong => ⟨_, if_pos hlong⟩, fun hlength =>
    ⟨node, Query.parse_eq_ok hread hlength hnesting, fun d => ?_⟩⟩
  rw [htruth, keyCondition, Expression.reading, hparts]
  simp [Comparand.value?, hs, Comparison.holdsOf, Value.plain]

namespace Table

variable {t : Table} {params : Bindings} {p : String}

/-- The worlds that a table comes to from an empty collection by adding records, and by updates and
upserts that spare the key, with the lists of changes that have been made. -/
inductive KeyReachable (t : Table) (k : String) : List Changes → World Memory → Prop
  | start {w : World Memory} {c : Contents} (hopen : w.store.check = .ok ())
      (hcontents : w.store.collections.get? t.collection.name = some c)
      (hempty : c.documents = []) : KeyReachable t k [] w
  | add {past : List Changes} {w : World Memory} (h : KeyReachable t k past w)
      {records : List Record} (hfits : ∀ r ∈ records, Fits t.layout.columns r) :
      KeyReachable t k past (t.add Memory.service records w).2
  | update {past : List Changes} {w : World Memory} (h : KeyReachable t k past w)
      (condition : Condition) (sets : List Bindings) {changes : List Changes}
      (hchanges : ∀ cs ∈ changes, SpareKey k cs) :
      KeyReachable t k (past ++ changes) (t.update Memory.service condition sets changes w).2
  | updateOrAdd {past : List Changes} {w : World Memory} (h : KeyReachable t k past w)
      (condition : Condition) (sets : List Bindings) {changes : List Changes}
      (hchanges : ∀ cs ∈ changes, SpareKey k cs) {records : List Record}
      (hfits : ∀ r ∈ records, Fits t.layout.columns r) :
      KeyReachable t k (past ++ changes)
        (t.updateOrAdd Memory.service condition sets changes records w).2

theorem rotating_planFor {changes : List Changes} (hl : HasKey t.layout k)
    (hchanges : ∀ cs ∈ changes, SpareKey k cs) : (planFor t changes).rotating = [] := by
  refine rotatingKeys_of_notMem fun name hname cs hcs => ?_
  rw [hl.key, Option.getD_some, List.mem_singleton] at hname
  exact hname ▸ (hchanges cs hcs).1

theorem holdsFiled_reconcile {changes : List Changes} {inserts : Option (List Record)}
    (hl : HasKey t.layout k) (hchanges : ∀ cs ∈ changes, SpareKey k cs)
    (hfits : ∀ records ∈ inserts, ∀ r ∈ records, Fits t.layout.columns r) (operation : String)
    (sets : List Bindings) (h : HoldsFiled t.collection.name k past w.store) :
    HoldsFiled t.collection.name k (past ++ changes)
      (t.reconcile Memory.service operation condition sets changes inserts w).2.store := by
  refine reconcile_induction (fun pair hpair hinsert p hp => ?_) operation
    (h.mono (List.subset_append_left past changes))
  refine holdsFiled_runPair hl (rotating_planFor hl hchanges) (hchanges _ hpair)
    (List.mem_append_right past hpair) (fun r hr => ?_) hp
  obtain ⟨records, hrecords, hmem⟩ := hinsert r hr
  exact hfits records hrecords r hmem

theorem holdsFiled_add {records : List Record} (hconnected : t.isConnected = true)
    (hl : HasKey t.layout k) (hfits : ∀ r ∈ records, Fits t.layout.columns r)
    (h : HoldsFiled t.collection.name k past w.store) :
    HoldsFiled t.collection.name k past (t.add Memory.service records w).2.store := by
  obtain ⟨c, hcontents, hc⟩ := h.filed
  obtain ⟨supply, hbuild⟩ := buildAll_eq hl.proper hl.key hfits w.supply
  have hids : ∀ d ∈ records.map (keyDocument t.layout k), (d.get? idField).isSome = true := by
    intro d hd
    obtain ⟨r, -, rfl⟩ := List.mem_map.1 hd
    exact isSome_keyDocument t.layout k r
  obtain ⟨w', hadd, hstore⟩ := add_memory hconnected h.isOpen hcontents hbuild hids
  rw [hadd, hstore]
  exact h.setContents (hc.foldl_accept_keyDocument hl hfits)

/-- The collections that a table comes to are filed under its key. -/
theorem KeyReachable.holdsFiled (h : t.KeyReachable k past w) (hconnected : t.isConnected = true)
    (hl : HasKey t.layout k) : HoldsFiled t.collection.name k past w.store := by
  induction h with
  | @start w c hopen hcontents hempty =>
    have hnone : ∀ id, c.find id = none := fun id => by rw [Contents.find, hempty, List.find?_nil]
    exact ⟨hopen, c, hcontents, hempty ▸ ⟨by simp, List.nodup_nil⟩, fun id d hd => by
      simp [hnone] at hd⟩
  | add _ hfits ih => exact holdsFiled_add hconnected hl hfits ih
  | update _ _ sets hchanges ih => exact holdsFiled_reconcile hl hchanges (by simp) "update" sets ih
  | updateOrAdd _ _ sets hchanges hfits ih =>
    exact holdsFiled_reconcile hl hchanges (by simpa using hfits) "upsert" sets ih

/-- An upsert of one pair whose matches can be read leaves the contents, and does not fail. -/
theorem updateOrAdd_eq (hconnected : t.isConnected = true) (hl : HasKey t.layout k)
    (hchanges : SpareKey k changes) (hfits : Fits t.layout.columns r)
    (hopen : w.store.check = .ok ())
    (hcontents : w.store.collections.get? t.collection.name = some c) (hc : Keyed c.documents)
    (hcollected : collected c condition params = .ok ds) :
    ∃ report w', t.updateOrAdd Memory.service condition [params] [changes] [r] w = (report, w') ∧
      report.failed = false ∧
      w'.store = w.store.setContents t.collection.name
        (contentsAfter t.layout k ⟨params, changes, some r⟩ ds c) := by
  have hinsert : ∀ s ∈ (Pair.mk params changes (some r)).insert, Fits t.layout.columns s := by
    simpa using hfits
  have hrotating := rotating_planFor hl (List.forall_mem_singleton.2 hchanges)
  have hpairs : makePairs [params] [changes] (some [r]) = .ok [⟨params, changes, some r⟩] := rfl
  obtain ⟨w', report, hrun, hstore, hfailed⟩ :=
    run_runPair_contentsAfter (planFor t [changes]) ⟨params, changes, some r⟩ hl hrotating hinsert
      UpdateReport.empty hopen hcontents hc hcollected
  obtain ⟨log, hout⟩ := reconcile_of_runPairs "upsert" hconnected hpairs (run_bind hrun _)
  exact ⟨_, _, hout, hfailed, hstore⟩

/-- An upsert of one pair whose matches cannot be read fails. -/
theorem failed_updateOrAdd {e : StoreError} (hconnected : t.isConnected = true)
    (hopen : w.store.check = .ok ())
    (hcontents : w.store.collections.get? t.collection.name = some c)
    (hcollected : collected c condition params = .error e) (changes : Changes) (r : Record) :
    (t.updateOrAdd Memory.service condition [params] [changes] [r] w).1.failed = true := by
  have hpairs : makePairs [params] [changes] (some [r]) = .ok [⟨params, changes, some r⟩] := rfl
  have hrun : (runPair Memory.service (planFor t [changes]) condition
      ⟨params, changes, some r⟩).run ⟨w, .empty⟩ = (.error e, ⟨w, .empty⟩) :=
    runPair_memory_error _ hopen hcontents hcollected
  obtain ⟨log, hout⟩ := reconcile_of_runPairs "upsert" hconnected hpairs (run_bind_error hrun _)
  exact congrArg (fun out => out.1.failed) hout

/-- An upsert by the text of a key leaves one document with the text.  It touches no document of
another key exactly when none has the identity of the text, and that is so, as long as identities
tell names of keys apart and no list without changes has been made, exactly when no key clashes
with the text. -/
theorem updateOrAdd_spares_iff (h : t.KeyReachable k past w) (hconnected : t.isConnected = true)
    (hl : HasKey t.layout k) (hk : IsPlainName k) (hp : IsPlainName p) (type : ColumnType)
    (hs : params.get? p = some (.text s)) (hchanges : SpareKey k changes) (hne : changes ≠ [])
    (hfits : Fits t.layout.columns r) (hr : valueIn t.layout.columns r k = .text s) :
    let condition := compile (keyCondition k type p)
    let out := t.updateOrAdd Memory.service condition [params] [changes] [r] w
    let before := w.store.documents t.collection.name
    let after := out.2.store.documents t.collection.name
    let spares := ∀ d ∈ before, keyOf k d ≠ .text s → d ∈ after
    ∃ query, condition.resolve params = .ok query ∧
      (out.1.failed = false ↔ query.utf8ByteSize ≤ Query.maxLength) ∧
      (out.1.failed = false →
        after.countP (keyOf k · = .text s) = 1 ∧
        (spares ↔ ∀ d ∈ before, d.getText? idField = some (Identity.ofKey [.text s]) →
          keyOf k d = .text s) ∧
        ([] ∉ past →
          (∀ d ∈ before, Identity.ofKey [keyOf k d] = Identity.ofKey [.text s] →
            Identity.keyName [keyOf k d] = Identity.keyName [.text s]) →
          (spares ↔ ∀ d ∈ before, ¬ Clashes s (keyOf k d)))) := by
  intro condition out before after spares
  obtain ⟨hopen, c, hcontents, hc⟩ := h.holdsFiled hconnected hl
  have hbefore : before = c.documents := by
    simp only [before, Memory.documents, hcontents]
    rfl
  obtain ⟨query, hresolve, hlong, hshort⟩ := exists_resolve_keyCondition hk hp hs type
  refine ⟨query, hresolve, ?_⟩
  by_cases hlength : query.utf8ByteSize ≤ Query.maxLength
  · obtain ⟨node, hparse, htruth⟩ := hshort hlength
    have hds : ∀ d, d ∈ c.select node ↔ d ∈ c.documents ∧ keyOf k d = .text s := fun d => by
      rw [Contents.select, List.mem_filter]
      refine and_congr_right fun hd => ?_
      rw [htruth, (hc.isFiled hd).someValue_iff]
    have hnodup : (c.select node).Nodup := (hc.keyed.nodup.of_map _).sublist List.filter_sublist
    obtain ⟨report, w', hout, hfailed, hstore⟩ := updateOrAdd_eq hconnected hl hchanges hfits hopen
      hcontents hc.keyed (collected_eq_ok hresolve hparse)
    obtain ⟨x, hx, haddresses, hwritten⟩ :=
      exists_write_contentsAfter hc hl hchanges hne hfits hr params hds hnodup
    have hafter : after = (c.accept x).documents := by
      simp only [after, out, condition, hout, hstore, hx, Memory.documents, get?_setContents]
      rfl
    have hfiled : Filed k (past ++ [changes]) (c.accept x) := by
      rw [← hx]
      exact filed_contentsAfter (hc.mono (List.subset_append_left past _)) hl hchanges (by simp)
        (by simpa using hfits) fun d hd => ((hds d).1 hd).1
    have hspares := spares_accept_iff haddresses hwritten hc
    refine ⟨iff_of_true (by simp only [out, condition, hout, hfailed]) hlength, fun _ => ?_⟩
    simp only [spares, hbefore, hafter]
    exact ⟨countP_keyOf_accept haddresses hwritten hfiled, hspares, fun hpast hinjective =>
      hspares.trans (hc.forall_keyOf_eq_iff hpast hinjective)⟩
  · obtain ⟨e, hparse⟩ := hlong (not_le.1 hlength)
    have hcollected : collected c condition params = .error e := by
      simp only [collected, condition, hresolve, hparse, bind, Except.bind]
    have hfailed : out.1.failed = true :=
      failed_updateOrAdd hconnected hopen hcontents hcollected changes r
    rw [hfailed]
    exact ⟨iff_of_false (by simp) hlength, by simp⟩

theorem updateOrAdd_spares_peopleTable :
    let w := (peopleTable.add Memory.service
      [[.text "alice", .int 30, .text "Oslo"], [.null, .int 40, .null]] nobody).2
    let params : Bindings := .ofList [("who", .text "bob")]
    let out := peopleTable.updateOrAdd Memory.service (compile (keyCondition "name" .string "who"))
      [params] [[("age", .int 50)]] [[.text "bob", .int 50, .null]] w
    let before := w.store.documents peopleTable.collection.name
    let after := out.2.store.documents peopleTable.collection.name
    out.1.failed = false ∧ after.countP (keyOf "name" · = .text "bob") = 1 ∧
      ∀ d ∈ before, keyOf "name" d ≠ .text "bob" → d ∈ after := by
  intro w params out before after
  have hcontents : nobody.store.collections.get? peopleTable.collection.name =
      some ⟨true, none, [], 0⟩ := get?_setContents _ _ _
  have hreachable : peopleTable.KeyReachable "name" [] w :=
    (KeyReachable.start rfl hcontents rfl).add (by decide +kernel)
  have hfailed : out.1.failed = false := by decide +kernel
  have hnames : ∀ d ∈ before,
      Identity.ofKey [keyOf "name" d] = Identity.ofKey [.text "bob"] →
        Identity.keyName [keyOf "name" d] = Identity.keyName [.text "bob"] := by decide +kernel
  have hclash : ∀ d ∈ before, ¬ Clashes "bob" (keyOf "name" d) := by decide +kernel
  have hl : HasKey peopleTable.layout "name" := by decide +kernel
  have hs : params.get? "who" = some (.text "bob") := by decide +kernel
  have hfits : Fits peopleTable.layout.columns [.text "bob", .int 50, .null] := by decide +kernel
  have hr : valueIn peopleTable.layout.columns [.text "bob", .int 50, .null] "name" =
      .text "bob" := by decide +kernel
  -- What is said of the world is known now, so it need not be computed again.
  clear_value w params
  have hchanges : SpareKey "name" [("age", .int 50)] := by decide
  have hall := updateOrAdd_spares_iff hreachable rfl hl (by decide) (by decide) .string hs hchanges
    (by decide) hfits hr
  obtain ⟨query, -, -, hafter⟩ := hall
  obtain ⟨hone, -, hspares⟩ := hafter hfailed
  exact ⟨hfailed, hone, (hspares (by simp) hnames).2 hclash⟩

/-- A row without a key is written over by an upsert of the text that absent values have. -/
theorem not_updateOrAdd_spares_peopleTable :
    let w := (peopleTable.add Memory.service [[.null, .int 40, .text "Oslo"]] nobody).2
    let params : Bindings := .ofList [("who", .text "null")]
    let out := peopleTable.updateOrAdd Memory.service (compile (keyCondition "name" .string "who"))
      [params] [[("age", .int 50)]] [[.text "null", .int 50, .null]] w
    peopleTable.KeyReachable "name" [] w ∧ out.1.failed = false ∧
      ¬ ∀ d ∈ w.store.documents "people", keyOf "name" d ≠ .text "null" →
        d ∈ out.2.store.documents "people" := by
  intro w params out
  have hcontents : nobody.store.collections.get? peopleTable.collection.name =
      some ⟨true, none, [], 0⟩ := get?_setContents _ _ _
  have hreachable : peopleTable.KeyReachable "name" [] w :=
    (KeyReachable.start rfl hcontents rfl).add (by decide +kernel)
  have hfailed : out.1.failed = false := by decide +kernel
  have hlost : ¬ ∀ d ∈ w.store.documents "people", keyOf "name" d ≠ .text "null" →
      d ∈ out.2.store.documents "people" := by decide +kernel
  exact ⟨hreachable, hfailed, hlost⟩

end Table

end SearchTable
