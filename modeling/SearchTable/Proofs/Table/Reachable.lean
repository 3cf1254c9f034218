import SearchTable.Proofs.Table.Staging
/-!
# Collections that a table comes to

Adding records and updating them keeps the collection of a table ordinary, when the values are
scalars, identities among them are texts, and no change names the identity (`Reachable.holdsOrdinary`).
This holds for calls that fail, too: what an update has sent before it failed are ordinary writes.
-/

namespace SearchTable

open Memory Document Reconcile

variable {name : String} {m : Memory} {w : World Memory} {c : Contents} {d : Document}

/-! ## Records -/

/-- A record of scalars, with a text or nothing in the column of the identity. -/
def IsPlainRecord (columns : List Column) (r : Record) : Prop :=
  ∀ f ∈ columns.zip r, f.2.IsScalar ∧ (f.1.name = idField → f.2.isNull = true ∨ ∃ s, f.2 = .text s)

/-- A document without repeated fields or markers, whose identity, if it has one, is a text. -/
structure IsPlainDocument (d : Document) : Prop where
  names : d.HasDistinctNames
  plain : isPatch d = false
  id : ∀ v, d.get? idField = some v → ∃ s, v = .text s

theorem IsPlainDocument.insert (h : IsPlainDocument d) {v : Stored} (hv : v.unmark? = none)
    (hid : name = idField → ∃ s, v = .text s) : IsPlainDocument (d.insert name v) where
  names := h.names.insert name v
  plain := isPatch_insert h.plain hv name
  id u hu := by
    rw [get?_insert] at hu
    split at hu
    · rename_i heq
      obtain rfl := Option.some.inj hu
      exact hid heq.symm
    · exact h.id u hu

/-- A plain document with an identity is an ordinary write. -/
theorem IsPlainDocument.isOrdinaryWrite (h : IsPlainDocument d)
    (hid : (d.get? idField).isSome = true) : IsOrdinaryWrite d := by
  obtain ⟨v, hv⟩ := Option.isSome_iff_exists.1 hid
  obtain ⟨s, rfl⟩ := h.id v hv
  exact ⟨⟨s, addresses_of_getText? h.names (getText?_eq_some_iff.2 hv)⟩, h.names,
    leavesPlain_of_isPatch h.plain⟩

namespace Layout

variable {l : Layout} {r : Record} {records : List Record} {supply supply' : Nat}

/-- A field of a plain record keeps a document plain. -/
theorem isPlainDocument_ite {f : Column × Value} (hd : IsPlainDocument d) (hscalar : f.2.IsScalar)
    (hid : f.1.name = idField → f.2.isNull = true ∨ ∃ s, f.2 = .text s) :
    IsPlainDocument (if f.2.isNull then d else d.insert f.1.name f.2.toStored) := by
  obtain ⟨c, v⟩ := f
  split
  · exact hd
  · rename_i hv
    refine hd.insert hscalar.unmark?_toStored fun hname => ?_
    obtain ⟨s, rfl⟩ := (hid hname).resolve_left hv
    exact ⟨s, rfl⟩

theorem isPlainDocument_fieldsOf {columns : List Column} (h : IsPlainRecord columns r) :
    IsPlainDocument (fieldsOf columns r) := by
  have hfold : ∀ (fields : List (Column × Value)) (d : Document), IsPlainDocument d →
      (∀ f ∈ fields, f.2.IsScalar ∧
        (f.1.name = idField → f.2.isNull = true ∨ ∃ s, f.2 = .text s)) →
      IsPlainDocument (fields.foldl
        (fun d f => if f.2.isNull then d else d.insert f.1.name f.2.toStored) d) := by
    intro fields
    induction fields with
    | nil => exact fun d hd _ => hd
    | cons f fields ih =>
      intro d hd hfields
      obtain ⟨hscalar, hid⟩ := hfields f List.mem_cons_self
      exact ih _ (isPlainDocument_ite hd hscalar hid) fun g hg =>
        hfields g (List.mem_cons_of_mem _ hg)
  exact hfold _ _ ⟨hasDistinctNames_empty, rfl, by simp [Document.get?, Document.empty]⟩ h

/-- A record becomes the document of its fields, with an identity added when there is none. -/
theorem build_cases (hbuild : l.build supply r = .ok (d, supply')) :
    ((fieldsOf l.columns r).contains idField = true ∧ d = fieldsOf l.columns r) ∨
      ∃ id, d = (fieldsOf l.columns r).insert idField (.text id) := by
  obtain ⟨-, -, hbuild⟩ := bind_eq_ok_iff.1 hbuild
  dsimp only at hbuild
  split at hbuild
  · rename_i hcontains
    obtain ⟨rfl, -⟩ := Prod.mk.inj (Except.ok.inj hbuild)
    exact .inl ⟨hcontains, rfl⟩
  · split at hbuild
    · obtain ⟨rfl, -⟩ := Prod.mk.inj (Except.ok.inj hbuild)
      exact .inr ⟨_, rfl⟩
    · obtain ⟨rfl, -⟩ := Prod.mk.inj (Except.ok.inj hbuild)
      exact .inr ⟨_, rfl⟩

/-- What holds of the document of every record, holds of all that are built. -/
theorem forall_mem_buildAll {P : Document → Prop}
    (h : ∀ r ∈ records, ∀ supply d supply', l.build supply r = .ok (d, supply') → P d)
    {ds : List Document} (hbuild : l.buildAll supply records = .ok (ds, supply')) :
    ∀ d ∈ ds, P d := by
  induction records generalizing supply ds with
  | nil =>
    obtain ⟨rfl, -⟩ := Prod.mk.inj (Except.ok.inj hbuild)
    simp
  | cons r records ih =>
    rw [List.forall_mem_cons] at h
    obtain ⟨⟨d, next⟩, hfirst, hbuild⟩ := bind_eq_ok_iff.1 hbuild
    obtain ⟨⟨es, last⟩, hrest, hbuild⟩ := bind_eq_ok_iff.1 hbuild
    obtain ⟨rfl, rfl⟩ := Prod.mk.inj (Except.ok.inj hbuild)
    exact List.forall_mem_cons.2 ⟨h.1 _ _ _ hfirst, ih h.2 hrest⟩

/-- The document of a plain record is an ordinary write. -/
theorem isOrdinaryWrite_build (h : IsPlainRecord l.columns r)
    (hbuild : l.build supply r = .ok (d, supply')) : IsOrdinaryWrite d := by
  have hfields := isPlainDocument_fieldsOf h
  obtain ⟨hcontains, rfl⟩ | ⟨id, rfl⟩ := build_cases hbuild
  · exact hfields.isOrdinaryWrite hcontains
  · exact (hfields.insert rfl fun _ => ⟨id, rfl⟩).isOrdinaryWrite (by simp)

end Layout

/-! ## The invariant -/

/-- The store is in reach and holds an ordinary collection under the name. -/
structure HoldsOrdinary (name : String) (m : Memory) : Prop where
  isOpen : m.check = .ok ()
  ordinary : ∃ c, m.collections.get? name = some c ∧ Ordinary c.documents

theorem HoldsOrdinary.setContents (h : HoldsOrdinary name m) (hc : Ordinary c.documents) :
    HoldsOrdinary name (m.setContents name c) :=
  ⟨h.isOpen, c, get?_setContents m name c, hc⟩

/-! ## Updates -/

namespace Reconcile

variable {plan : Plan} {condition : Condition}

/-- A pair that adds no record and makes scalar changes to other fields than the identity. -/
structure Pair.IsPlain (pair : Pair) : Prop where
  insert : pair.insert = none
  id : idField ∉ pair.changes.map Prod.fst
  scalar : ∀ f ∈ pair.changes, f.2.IsScalar

theorem holdsOrdinary_runPair {pair : Pair} (hpair : pair.IsPlain) {p : Progress Memory}
    (h : HoldsOrdinary plan.collection p.world.store) :
    HoldsOrdinary plan.collection
      ((runPair Memory.service plan condition pair).run p).2.world.store := by
  obtain ⟨w, r⟩ := p
  obtain ⟨c, hcontents, hc⟩ := h.ordinary
  cases hcollected : collected c condition pair.params with
  | error e =>
    rw [runPair_memory_error r h.isOpen hcontents hcollected]
    exact h
  | ok ds =>
    obtain ⟨q, rfl⟩ := exists_select_of_collected hcollected
    have hids : ∀ d ∈ c.select q, (d.get? idField).isSome = true := fun d hd =>
      isSome_get? hc.keyed (List.mem_of_mem_filter hd)
    obtain ⟨flushes, hrun⟩ := runPair_memory_of_found r h.isOpen hcontents pair hcollected hids
      (.inl hpair.insert)
    rw [hrun]
    exact h.setContents (ordinary_sendAll_stage hc hpair.id hpair.scalar plan q plan.updateBatch)

/-- What every pair of a list keeps, the list keeps, also when it fails. -/
theorem runPairs_induction {σ : Type} {service : Service σ} {P : σ → Prop} {pairs : List Pair}
    (hpairs : ∀ pair ∈ pairs, ∀ p : Progress σ, P p.world.store →
      P ((runPair service plan condition pair).run p).2.world.store)
    {p : Progress σ} (h : P p.world.store) :
    P ((runPairs service plan condition pairs).run p).2.world.store := by
  induction pairs generalizing p with
  | nil => exact h
  | cons pair pairs ih =>
    obtain ⟨hpair, hrest⟩ := List.forall_mem_cons.1 hpairs
    have hfirst := hpair p h
    rw [runPairs]
    cases hrun : (runPair service plan condition pair).run p with
    | mk result p' =>
      rw [hrun] at hfirst
      cases result with
      | error e =>
        rw [run_bind_error hrun]
        exact hfirst
      | ok _ =>
        rw [run_bind hrun]
        exact ih hrest hfirst

end Reconcile

/-! ## Calls -/

namespace Table

variable {t : Table} {condition : Condition} {sets : List Bindings} {changes : List Changes}

/-- Beside carrying out its pairs, a call adds to the log only. -/
theorem store_reconcile {σ : Type} (service : Service σ) (t : Table) (operation : String)
    (condition : Condition) (sets : List Bindings) (changes : List Changes)
    (inserts : Option (List Record)) (w : World σ) :
    (t.reconcile service operation condition sets changes inserts w).2.store =
      if t.isConnected then (runAll service t condition sets changes inserts w).2.store
      else w.store := by
  by_cases hconnected : t.isConnected = true
  · rw [if_pos hconnected]
    simp only [reconcile, checkConnected_eq_ok hconnected, bind, StateT.bind]
    cases runAll service t condition sets changes inserts w with
    | mk result w' =>
      obtain ⟨outcome, report⟩ := result
      cases outcome <;> rfl
  · rw [if_neg hconnected]
    simp only [reconcile, checkConnected, hconnected, Bool.false_eq_true, if_false]
    rfl

theorem store_update (w : World Memory) :
    (t.update Memory.service condition sets changes w).2.store =
      if t.isConnected then
        (runAll Memory.service t condition sets changes none w).2.store
      else w.store :=
  store_reconcile Memory.service t "update" condition sets changes none w

/-- What every pair of a call keeps, the call keeps, also when it fails. -/
theorem reconcile_induction {σ : Type} {service : Service σ} {P : σ → Prop}
    {inserts : Option (List Record)} {w : World σ}
    (hpairs : ∀ pair : Pair, pair.changes ∈ changes →
      (∀ r ∈ pair.insert, ∃ records ∈ inserts, r ∈ records) → ∀ p : Progress σ, P p.world.store →
      P ((runPair service (planFor t changes) condition pair).run p).2.world.store)
    (operation : String) (h : P w.store) :
    P (t.reconcile service operation condition sets changes inserts w).2.store := by
  rw [store_reconcile]
  split
  · rw [runAll]
    cases hmake : makePairs sets changes inserts with
    | error e => exact h
    | ok pairs =>
      exact runPairs_induction (fun pair hpair =>
        hpairs pair (mem_of_makePairs hmake hpair).1 (mem_of_makePairs hmake hpair).2)
        (p := ⟨w, .empty⟩) h
  · exact h

theorem holdsOrdinary_update (h : HoldsOrdinary t.collection.name w.store)
    (hid : ∀ cs ∈ changes, idField ∉ cs.map Prod.fst)
    (hscalar : ∀ cs ∈ changes, ∀ f ∈ cs, f.2.IsScalar) :
    HoldsOrdinary t.collection.name
      (t.update Memory.service condition sets changes w).2.store := by
  refine reconcile_induction (fun pair hchanges hinsert p hp => ?_) "update" h
  have hplain : pair.IsPlain :=
    ⟨Option.eq_none_iff_forall_not_mem.2 fun r hr => by simpa using hinsert r hr,
      hid _ hchanges, hscalar _ hchanges⟩
  have hholds : HoldsOrdinary (planFor t changes).collection p.world.store := hp
  exact holdsOrdinary_runPair hplain hholds

/-- Beside writing its records, an addition adds to the log only. -/
theorem store_add (records : List Record) (w : World Memory) :
    (t.add Memory.service records w).2.store =
      if records.isEmpty then w.store
      else (t.writeRecords Memory.service records w).2.store := by
  by_cases hempty : records.isEmpty = true
  · simp only [add, hempty, if_true]
    rfl
  · rw [if_neg hempty]
    simp only [add, hempty, Bool.false_eq_true, if_false, bind, StateT.bind]
    cases t.writeRecords Memory.service records w with
    | mk result w' => cases result <;> rfl

/-- An addition leaves the store as it is, or writes the documents of its records. -/
theorem store_add_cases (records : List Record) (w : World Memory) :
    (t.add Memory.service records w).2.store = w.store ∨
      ∃ ds supply, t.layout.buildAll w.supply records = .ok (ds, supply) ∧
        (t.add Memory.service records w).2.store = (w.store.write t.collection.name ds).2 := by
  rw [store_add]
  split
  · exact .inl rfl
  · cases hbuild : t.buildRecords w.supply records with
    | error e =>
      have hwrite : t.writeRecords Memory.service records w = (.error e, w) := by
        simp only [writeRecords, bind, StateT.bind, get, getThe, MonadStateOf.get, StateT.get, pure,
          hbuild]
        rfl
      exact .inl (by rw [hwrite])
    | ok built =>
      obtain ⟨ds, supply⟩ := built
      obtain ⟨-, -, hall⟩ := bind_eq_ok_iff.1 hbuild
      refine .inr ⟨ds, supply, hall, ?_⟩
      simp only [writeRecords, bind, StateT.bind, get, getThe, MonadStateOf.get, StateT.get, pure,
        hbuild]
      rfl

theorem holdsOrdinary_add (h : HoldsOrdinary t.collection.name w.store) {records : List Record}
    (hrecords : ∀ r ∈ records, IsPlainRecord t.layout.columns r) :
    HoldsOrdinary t.collection.name (t.add Memory.service records w).2.store := by
  obtain hstore | ⟨ds, supply, hbuild, hstore⟩ := t.store_add_cases records w
  · rwa [hstore]
  · obtain ⟨c, hcontents, hc⟩ := h.ordinary
    have hds := Layout.forall_mem_buildAll (P := IsOrdinaryWrite)
      (fun r hr _ _ _ hfirst => Layout.isOrdinaryWrite_build (hrecords r hr) hfirst) hbuild
    rw [hstore, write_eq h.isOpen hcontents fun d hd => (hds d hd).isSome]
    exact h.setContents (hc.foldl_accept hds)

/-- The worlds that a table comes to from an empty collection by adding records of scalars and
updating with scalars, without changes of the identity. -/
inductive Reachable (t : Table) : World Memory → Prop
  | start {w : World Memory} {c : Contents} (hopen : w.store.check = .ok ())
      (hcontents : w.store.collections.get? t.collection.name = some c)
      (hempty : c.documents = []) : Reachable t w
  | add {w : World Memory} (h : Reachable t w) {records : List Record}
      (hrecords : ∀ r ∈ records, IsPlainRecord t.layout.columns r) :
      Reachable t (t.add Memory.service records w).2
  | update {w : World Memory} (h : Reachable t w) (condition : Condition) (sets : List Bindings)
      {changes : List Changes} (hid : ∀ cs ∈ changes, idField ∉ cs.map Prod.fst)
      (hscalar : ∀ cs ∈ changes, ∀ f ∈ cs, f.2.IsScalar) :
      Reachable t (t.update Memory.service condition sets changes w).2

/-- The collections that a table comes to are ordinary. -/
theorem Reachable.holdsOrdinary (h : t.Reachable w) :
    HoldsOrdinary t.collection.name w.store := by
  induction h with
  | @start w c hopen hcontents hempty =>
    exact ⟨hopen, c, hcontents, hempty ▸ ⟨⟨by simp, List.nodup_nil⟩, by simp, by simp⟩⟩
  | add _ hrecords ih => exact holdsOrdinary_add ih hrecords
  | update _ _ _ hid hscalar ih => exact holdsOrdinary_update ih hid hscalar

end Table

end SearchTable
