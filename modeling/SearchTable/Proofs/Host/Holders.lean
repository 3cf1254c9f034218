import SearchTable.Host
import SearchTable.Proofs.Dictionary
import SearchTable.Store.Observed
/-!
# Who holds a client

A host decides by a count whether a client is closed: the entries of five dictionaries that stand
for it.  `Host.clientOf` reads the same dictionaries as one map from holders to clients, and the
count is zero exactly when no holder is mapped to the client (`Host.holders_eq_zero_iff`).

What a host does to its clients is put together from few kinds of steps: one holder is given a
client or none (`Host.Reassigns`), a client is added, and a client gets requests.  As long as none
of the requests is to close it, such a step extends the host
(`Host.Extends`).  `Host.closings_closeUnheld` is about the one place where a client is closed.
-/

namespace SearchTable

open Observed

namespace Host

variable {σ α β : Type} {inner : Service σ}

/-! ## Holders -/

/-- What holds a client, by the name under which it is kept. -/
inductive Holder where
  | handle (name : String)
  | endpoint (name : String)
  | table (name : String)
  | records (name : String)
  | cursor (name : String)
  deriving DecidableEq

/-- The client of a holder. -/
def clientOf (h : Host σ) : Holder → Option Nat
  | .handle name => h.handles.get? name
  | .endpoint name => h.registry.get? name
  | .table name => (h.tables.get? name).map Held.client
  | .records name => (h.records.get? name).map Held.client
  | .cursor name => (h.cursors.get? name).map Held.client

/-- Something holds the client. -/
def IsHeld (h : Host σ) (client : Nat) : Prop := ∃ x, h.clientOf x = some client

theorem countIn_eq_zero_iff (number : α → Nat) (client : Nat) (d : Dictionary α) :
    countIn number client d = 0 ↔ ∀ name, (d.get? name).map number ≠ some client := by
  simp only [countIn, List.countP_eq_zero, beq_iff_eq, ne_eq, Option.map_eq_some_iff, not_exists,
    not_and]
  exact ⟨fun h name v hv => h (name, v) (Dictionary.mem_entries_iff.2 hv),
    fun h e he => h e.1 e.2 (Dictionary.mem_entries_iff.1 he)⟩

/-- The count of holders is zero exactly when nothing holds the client. -/
theorem holders_eq_zero_iff (h : Host σ) (client : Nat) :
    h.holders client = 0 ↔ ¬ h.IsHeld client := by
  simp only [holders, Nat.add_eq_zero_iff, countIn_eq_zero_iff, Option.map_id_fun, id, IsHeld,
    not_exists]
  constructor
  · rintro ⟨⟨⟨⟨hhandles, hregistry⟩, htables⟩, hrecords⟩, hcursors⟩
      (name | name | name | name | name)
    · exact hhandles name
    · exact hregistry name
    · exact htables name
    · exact hrecords name
    · exact hcursors name
  · intro h
    exact ⟨⟨⟨⟨fun name => h (.handle name), fun name => h (.endpoint name)⟩,
      fun name => h (.table name)⟩, fun name => h (.records name)⟩, fun name => h (.cursor name)⟩

instance (h : Host σ) (client : Nat) : Decidable (h.IsHeld client) :=
  decidable_of_iff (h.holders client ≠ 0) (by rw [ne_eq, holders_eq_zero_iff, not_not])

/-! ## Requests that close nothing -/

/-- How often the client has been asked to close. -/
def closings (h : Host (Observed σ)) (client : Nat) : Nat :=
  (h.clients[client]?.map fun c => c.store.requests.count .close).getD 0

/-- An operation on a store that does not ask it to close. -/
def IsQuiet (act : Act (Observed σ) α) : Prop :=
  ∀ w, (act w).2.store.requests.count .close = w.store.requests.count .close

theorem requests_ask (inner : Service σ) (r : Request) (w : World (Observed σ)) :
    (Act.ask (service inner) r w).2.store.requests = w.store.requests ++ [r] := by
  have hnote : (w.store.note r).2.requests = w.store.requests ++ [r] := by
    rw [note]
    split <;> rfl
  simp only [Act.ask, service, answer]
  split <;> rename_i heq <;> rw [← hnote, heq]

theorem isQuiet_ask {r : Request} (h : r ≠ .close) (inner : Service σ) :
    IsQuiet (Act.ask (service inner) r) := fun w => by
  rw [requests_ask, List.count_append, List.count_singleton, if_neg (by simpa using h),
    Nat.add_zero]

theorem isQuiet_pure (a : α) : IsQuiet (pure a : Act (Observed σ) α) := fun _ => rfl

theorem isQuiet_report (entry : Log.Entry) :
    IsQuiet (Act.report entry : Act (Observed σ) Unit) := fun _ => rfl

theorem IsQuiet.bind {act : Act (Observed σ) α} {next : α → Act (Observed σ) β}
    (h : IsQuiet act) (hnext : ∀ a, IsQuiet (next a)) : IsQuiet (act >>= next) :=
  fun w => (hnext (act w).1 (act w).2).trans (h w)

theorem isQuiet_putSchema (inner : Service σ) (t : Table) :
    IsQuiet (t.putSchema (service inner)) := by
  rw [Table.putSchema]
  split
  · exact isQuiet_pure _
  · refine (isQuiet_ask (by simp) inner).bind fun answer => ?_
    cases answer <;> exact isQuiet_pure _

theorem isQuiet_connect (inner : Service σ) (t : Table) :
    IsQuiet (t.connect (service inner)) := by
  rw [Table.connect]
  split
  · exact isQuiet_pure _
  · refine (isQuiet_ask (by simp) inner).bind fun answer => ?_
    cases answer with
    | error e => exact (isQuiet_report _).bind fun _ => isQuiet_pure _
    | ok _ =>
      refine (isQuiet_putSchema inner t).bind fun result => ?_
      cases result with
      | error e => exact (isQuiet_report _).bind fun _ => isQuiet_pure _
      | ok t => exact isQuiet_pure _

theorem isQuiet_find (t : Table) (params : Bindings) (condition : Condition) :
    IsQuiet (t.find params condition : Act (Observed σ) _) := by
  have hresolve : IsQuiet (t.resolveQuery params condition : Act (Observed σ) _) := by
    rw [Table.resolveQuery]
    split
    · exact isQuiet_pure _
    · exact ((isQuiet_report _).bind fun _ => isQuiet_pure _).bind fun _ => isQuiet_pure _
  rw [Table.find]
  refine hresolve.bind fun result => ?_
  cases result <;> exact isQuiet_pure _

/-! ## Extensions -/

/-- There is such a client, and it has never been asked to close. -/
def IsOpen (h : Host (Observed σ)) (client : Nat) : Prop :=
  client < h.clients.length ∧ h.closings client = 0

/-- What a step does that closes nothing: clients and entries of the registry are added at most, and
what is held then has been held before or is open. -/
structure Extends (h h' : Host (Observed σ)) : Prop where
  length_le : h.clients.length ≤ h'.clients.length
  closings_eq : ∀ client, h'.closings client = h.closings client
  held : ∀ client, h'.IsHeld client → h.IsHeld client ∨ h'.IsOpen client
  registered : ∀ name client, h.clientOf (.endpoint name) = some client →
    h'.clientOf (.endpoint name) = some client

/-- Of all holders only one is given another client, or none. -/
structure Reassigns (x : Holder) (client : Option Nat) (h h' : Host σ) : Prop where
  clients_eq : h'.clients = h.clients
  clientOf_eq : ∀ y, h'.clientOf y = if y = x then client else h.clientOf y

section Extensions

variable {h h' h'' : Host (Observed σ)} {x : Holder} {client : Nat}

theorem Extends.refl (h : Host (Observed σ)) : h.Extends h :=
  ⟨le_rfl, fun _ => rfl, fun _ => .inl, fun _ _ => id⟩

theorem Extends.isOpen (hext : h.Extends h') (hopen : h.IsOpen client) : h'.IsOpen client :=
  ⟨hopen.1.trans_le hext.length_le, (hext.closings_eq client).trans hopen.2⟩

theorem Extends.trans (hext : h.Extends h') (hext' : h'.Extends h'') : h.Extends h'' where
  length_le := hext.length_le.trans hext'.length_le
  closings_eq client := (hext'.closings_eq client).trans (hext.closings_eq client)
  held client hheld := (hext'.held client hheld).elim
    (fun hheld => (hext.held client hheld).imp_right hext'.isOpen) .inr
  registered name client hclient :=
    hext'.registered name client (hext.registered name client hclient)

theorem closings_congr (h : h'.clients = h''.clients) (client : Nat) :
    h'.closings client = h''.closings client := by
  rw [closings, closings, h]

/-- A holder may be given any client that is held or open, but an entry of the registry is not given
another one. -/
theorem Reassigns.extends_some (hnew : Reassigns x (some client) h h')
    (hclient : h.IsHeld client ∨ h.IsOpen client)
    (hx : ∀ name, x = .endpoint name → h.clientOf x = none) : h.Extends h' where
  length_le := by rw [hnew.clients_eq]
  closings_eq := closings_congr hnew.clients_eq
  held other := by
    rintro ⟨y, hy⟩
    rw [hnew.clientOf_eq] at hy
    split at hy
    · obtain rfl := Option.some.inj hy
      refine hclient.imp_right fun hopen => ?_
      rwa [IsOpen, hnew.clients_eq, closings_congr hnew.clients_eq]
    · exact .inl ⟨y, hy⟩
  registered name registered hregistered := by
    have hne : .endpoint name ≠ x := fun heq => by
      obtain rfl := heq
      rw [hx name rfl] at hregistered
      cases hregistered
    rw [hnew.clientOf_eq, if_neg hne, hregistered]

theorem Reassigns.extends_none (hgone : Reassigns x none h h')
    (hx : ∀ name, x ≠ .endpoint name) : h.Extends h' where
  length_le := by rw [hgone.clients_eq]
  closings_eq := closings_congr hgone.clients_eq
  held other := by
    rintro ⟨y, hy⟩
    rw [hgone.clientOf_eq] at hy
    split at hy
    · cases hy
    · exact .inl ⟨y, hy⟩
  registered name registered hregistered := by
    rw [hgone.clientOf_eq, if_neg (hx name).symm, hregistered]

end Extensions

/-! ## Single holders -/

section Single

variable (h : Host σ) (name : String) (client : Nat)

theorem reassigns_bind : Reassigns (.handle name) (some client) h (h.bind name client) :=
  ⟨rfl, fun y => by cases y <;> simp [clientOf, bind]⟩

theorem reassigns_dropHandle : Reassigns (.handle name) none h (h.dropHandle name) :=
  ⟨rfl, fun y => by cases y <;> simp [clientOf, dropHandle]⟩

theorem reassigns_register : Reassigns (.endpoint name) (some client) h
    { h with registry := h.registry.insert name client } :=
  ⟨rfl, fun y => by cases y <;> simp [clientOf]⟩

theorem reassigns_unregister : Reassigns (.endpoint name) none h
    { h with registry := h.registry.erase name } :=
  ⟨rfl, fun y => by cases y <;> simp [clientOf]⟩

theorem reassigns_addTable (t : Table) :
    Reassigns (.table name) (some client) h (h.addTable name t client) :=
  ⟨rfl, fun y => by cases y <;> simp [clientOf, addTable, apply_ite (Option.map Held.client)]⟩

theorem reassigns_removeTable : Reassigns (.table name) none h
    { h with tables := h.tables.erase name } :=
  ⟨rfl, fun y => by cases y <;> simp [clientOf, apply_ite (Option.map Held.client)]⟩

theorem reassigns_addRecords (r : RecordCursor) :
    Reassigns (.records name) (some client) h (h.addRecords name r client) :=
  ⟨rfl, fun y => by cases y <;> simp [clientOf, addRecords, apply_ite (Option.map Held.client)]⟩

theorem reassigns_dropRecords : Reassigns (.records name) none h (h.dropRecords name) :=
  ⟨rfl, fun y => by cases y <;> simp [clientOf, dropRecords, apply_ite (Option.map Held.client)]⟩

theorem reassigns_addCursor (c : Cursor) :
    Reassigns (.cursor name) (some client) h (h.addCursor name c client) :=
  ⟨rfl, fun y => by cases y <;> simp [clientOf, addCursor, apply_ite (Option.map Held.client)]⟩

theorem reassigns_dropCursor : Reassigns (.cursor name) none h (h.dropCursor name) :=
  ⟨rfl, fun y => by cases y <;> simp [clientOf, dropCursor, apply_ite (Option.map Held.client)]⟩

end Single

/-! ## Operations on clients -/

section Clients

variable {h h' : Host (Observed σ)} {client : Nat} {act : Act (Observed σ) α} {a : α}

theorem clientOf_of_run {h h' : Host σ} {act : Act σ α} (hrun : h.run client act = some (a, h'))
    (x : Holder) : h'.clientOf x = h.clientOf x := by
  obtain ⟨c, -, hresult⟩ := Option.map_eq_some_iff.1 hrun
  obtain ⟨-, rfl⟩ := Prod.mk.inj hresult
  cases x <;> rfl

theorem length_of_run {h h' : Host σ} {act : Act σ α} (hrun : h.run client act = some (a, h')) :
    h'.clients.length = h.clients.length := by
  obtain ⟨c, -, hresult⟩ := Option.map_eq_some_iff.1 hrun
  obtain ⟨-, rfl⟩ := Prod.mk.inj hresult
  simp [modifyStore]

/-- The client of an operation is the only one that gets requests. -/
theorem closings_of_run (hrun : h.run client act = some (a, h')) :
    ∃ w, (∃ c, h.clients[client]? = some c ∧ c.store = w.store) ∧ ∀ other, h'.closings other =
      if other = client then (act w).2.store.requests.count .close else h.closings other := by
  obtain ⟨c, hc, hresult⟩ := Option.map_eq_some_iff.1 hrun
  obtain ⟨-, rfl⟩ := Prod.mk.inj hresult
  refine ⟨⟨c.store, h.supply, h.log⟩, ⟨c, hc, rfl⟩, fun other => ?_⟩
  simp only [closings, modifyStore, List.getElem?_modify]
  split_ifs with hother hother' hother'
  · obtain rfl := hother
    simp [hc]
  · exact absurd hother.symm hother'
  · exact absurd hother'.symm hother
  · simp

theorem closings_eq {c : Client (Observed σ)} (hc : h.clients[client]? = some c) :
    h.closings client = c.store.requests.count .close := by
  rw [closings, hc, Option.map_some, Option.getD_some]

/-- An operation that does not ask its client to close extends the host. -/
theorem IsQuiet.extends (hquiet : IsQuiet act) (hrun : h.run client act = some (a, h')) :
    h.Extends h' where
  length_le := (length_of_run hrun).ge
  closings_eq other := by
    obtain ⟨w, ⟨c, hc, hstore⟩, hclosings⟩ := closings_of_run hrun
    rw [hclosings]
    split
    · rename_i hother
      rw [hother, closings_eq hc, hstore, hquiet]
    · rfl
  held other := by
    rintro ⟨y, hy⟩
    exact .inl ⟨y, (clientOf_of_run hrun y).symm.trans hy⟩
  registered name registered := (clientOf_of_run hrun (.endpoint name)).trans

/-- A new client is open. -/
theorem extends_addClient (h : Host (Observed σ)) (label : String) (store : σ) :
    h.Extends (h.addClient label (ofStore store)).2 ∧
      (h.addClient label (ofStore store)).2.IsOpen (h.addClient label (ofStore store)).1 := by
  have hclosings : ∀ other, (h.addClient label (ofStore store)).2.closings other =
      h.closings other := fun other => by
    simp only [closings, addClient, List.getElem?_append]
    split_ifs with hother
    · rfl
    · rw [List.getElem?_eq_none (not_lt.1 hother)]
      rcases hsucc : other - h.clients.length with _ | n <;> simp [ofStore]
  refine ⟨⟨by simp [addClient], hclosings, fun _ => .inl, fun _ _ => id⟩, by simp [addClient], ?_⟩
  rw [hclosings]
  simp [closings, addClient]

theorem count_close (inner : Service σ) (name : String) (w : World (Observed σ)) :
    (close (service inner) name w).2.store.requests.count .close =
      w.store.requests.count .close + 1 := by
  have hask := requests_ask inner .close w
  cases hanswer : Act.ask (service inner) .close w with
  | mk answer w₁ =>
    rw [hanswer] at hask
    have hclose : (close (service inner) name w).2.store.requests = w₁.store.requests := by
      simp only [close, Bind.bind, StateT.bind, hanswer]
      cases answer <;> rfl
    rw [hclose, hask, List.count_append, List.count_singleton_self]

/-- A client is closed when nothing holds it, and no other one is. -/
theorem closings_closeUnheld (inner : Service σ) (hclient : client < h.clients.length)
    (name : String) (other : Nat) :
    (h.closeUnheld (service inner) client name).closings other =
      h.closings other + if other = client ∧ h.holders client = 0 then 1 else 0 := by
  by_cases hunheld : h.holders client = 0
  · obtain ⟨⟨a, h'⟩, hrun⟩ : ∃ result, h.run client (close (service inner) name) = some result := by
      rw [run, List.getElem?_eq_getElem hclient]
      exact ⟨_, rfl⟩
    obtain ⟨w, ⟨c, hc, hstore⟩, hclosings⟩ := closings_of_run hrun
    rw [closeUnheld, if_pos hunheld, hrun, Option.map_some, Option.getD_some, hclosings]
    by_cases hother : other = client
    · rw [if_pos hother, if_pos ⟨hother, hunheld⟩, count_close, hother, closings_eq hc, hstore]
    · rw [if_neg hother, if_neg fun h => hother h.1, Nat.add_zero]
  · rw [closeUnheld, if_neg hunheld, if_neg fun h => hunheld h.2, Nat.add_zero]

theorem clientOf_closeUnheld (service : Service σ) (h : Host σ) (client : Nat) (name : String)
    (x : Holder) : (h.closeUnheld service client name).clientOf x = h.clientOf x := by
  rw [closeUnheld]
  split
  · cases hrun : h.run client (close service name) with
    | none => rfl
    | some result => exact clientOf_of_run hrun x
  · rfl

theorem length_closeUnheld (service : Service σ) (h : Host σ) (client : Nat) (name : String) :
    (h.closeUnheld service client name).clients.length = h.clients.length := by
  rw [closeUnheld]
  split
  · cases hrun : h.run client (close service name) with
    | none => rfl
    | some result => exact length_of_run hrun
  · rfl

end Clients

end Host

end SearchTable
