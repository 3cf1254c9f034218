import SearchTable.Proofs.Host.Holders
import SearchTable.Store.Memory
/-!
# Shared clients

Every operation of a host is one of two kinds.  Most of them extend the host
(`Host.Operation.extends_run`): no client is closed, and what is held then has been held before or
is a client that has not been closed.  A disposal, which is the destruction of a table or the
release of an endpoint, takes one holder away and closes its client if that was the last one
(`Host.Operation.disposed_run`).

So a client that is held has never been closed, at any point of any run (`Host.IsSound`).
`Host.clients_shared` adds which steps close a client, and that the registry gives one client for an
endpoint until the endpoint is released.
-/

namespace SearchTable

open Observed

namespace Host

variable {σ : Type} {inner : Service σ}

/-! ## The operations of a host -/

/-- A disposal: one holder is taken away, and then its client is closed unless it is held. -/
structure Disposed (inner : Service σ) (h h' : Host (Observed σ)) (x : Holder) (client : Nat)
    (name : String) : Prop where
  held : h.clientOf x = some client
  closed : ∃ h₁, Reassigns x none h h₁ ∧ h' = h₁.closeUnheld (service inner) client name

/-- What a connection may give: a new client, by its label and its store, or the one of a handle. -/
inductive Offer (σ : Type) where
  | opened (label : String) (store : σ)
  | shared (handle : String)

/-- The connection that an offer stands for; nothing when there is no such handle. -/
def connection? (h : Host (Observed σ)) : Offer σ → Option (Connection (Observed σ))
  | .opened label store => some (.opened label (ofStore store))
  | .shared handle => (h.handles.get? handle).map .shared

/-- What a host does with its clients.  A request other than a closing one may come from any holder
of a client; the operations of tables and cursors are made of such requests. -/
inductive Operation (σ : Type) where
  | openClient (label : String) (store : σ)
  | copyHandle (handle copy : String)
  | dropHandle (handle : String)
  | getOrConnect (endpoint handle : String) (connect : Except StoreError (Offer σ))
  | release (endpoint : String)
  | declareTable (table name handle : String) (columns : List Column) (key : Option (List String))
      (options : Options)
  | connect (table : String)
  | destroy (table : String)
  | find (table records : String) (params : Bindings) (condition : Condition)
  | dropRecords (records : String)
  | openCursor (cursor handle collection query : String) (batch : Nat)
  | dropCursor (cursor : String)
  | request (holder : Holder) (r : Request) (other : r ≠ .close)

namespace Operation

/-- The holder that it disposes of: a table that is destroyed, or an endpoint that is released. -/
def disposal? : Operation σ → Option Holder
  | release endpoint => some (.endpoint endpoint)
  | destroy table => some (.table table)
  | _ => none

theorem disposal?_eq_endpoint_iff {op : Operation σ} {name : String} :
    op.disposal? = some (.endpoint name) ↔ op = .release name := by
  cases op <;> simp [disposal?]

/-- The client for an endpoint, kept under a handle.  A connection that fails leaves the host as it
is. -/
def get (h : Host (Observed σ)) (endpoint handle : String)
    (connection : Except StoreError (Connection (Observed σ))) : Host (Observed σ) :=
  match h.getOrRegister endpoint connection with
  | .ok (_, client, h) => h.bind handle client
  | .error _ => h

/-- The host after an operation.  One that lacks the handle or the table that it names changes
nothing, and neither does one that fails. -/
def run (inner : Service σ) (h : Host (Observed σ)) : Operation σ → Host (Observed σ)
  | openClient label store => h.openClient label (ofStore store)
  | copyHandle handle copy => ((h.handles.get? handle).map (h.bind copy)).getD h
  | dropHandle handle => h.dropHandle handle
  | getOrConnect endpoint handle (.error e) => get h endpoint handle (.error e)
  | getOrConnect endpoint handle (.ok offer) =>
    ((h.connection? offer).map fun connection => get h endpoint handle (.ok connection)).getD h
  | release endpoint => h.release (service inner) endpoint
  | declareTable table name handle columns key options =>
    match h.handles.get? handle, Table.declare name columns key options with
    | some client, .ok t => h.addTable table t client
    | _, _ => h
  | connect table => ((h.connect (service inner) table).map (·.2)).getD h
  | destroy table => h.destroy (service inner) table
  | find table records params condition =>
    ((h.find table records params condition).map (·.2)).getD h
  | dropRecords records => h.dropRecords records
  | openCursor cursor handle collection query batch =>
    ((h.handles.get? handle).map (h.addCursor cursor (.make collection query batch))).getD h
  | dropCursor cursor => h.dropCursor cursor
  | request holder r _ =>
    let result := (h.clientOf holder).bind fun client => h.run client (Act.ask (service inner) r)
    (result.map (·.2)).getD h

/-- The host after operations one after the other. -/
def runAll (inner : Service σ) (h : Host (Observed σ)) (ops : List (Operation σ)) :
    Host (Observed σ) :=
  ops.foldl (run inner) h

theorem registry_accept (h : Host σ) (connection : Connection σ) :
    (h.accept connection).2.registry = h.registry := by
  cases connection <;> rfl

theorem extends_accept {h : Host (Observed σ)} {offer : Offer σ}
    {connection : Connection (Observed σ)} (hoffer : h.connection? offer = some connection) :
    h.Extends (h.accept connection).2 ∧
      ((h.accept connection).2.IsHeld (h.accept connection).1 ∨
        (h.accept connection).2.IsOpen (h.accept connection).1) := by
  cases offer with
  | opened label store =>
    obtain rfl := Option.some.inj hoffer
    exact (extends_addClient h label store).imp_right .inr
  | shared handle =>
    obtain ⟨client, hclient, rfl⟩ := Option.map_eq_some_iff.1 hoffer
    exact ⟨.refl h, .inl ⟨.handle handle, hclient⟩⟩

/-- The client for an endpoint is held by its entry, or it comes from the connection. -/
theorem extends_get {h : Host (Observed σ)}
    {connection : Except StoreError (Connection (Observed σ))}
    (hconnection : ∀ given, connection = .ok given → ∃ offer, h.connection? offer = some given)
    (endpoint handle : String) : h.Extends (get h endpoint handle connection) := by
  rw [get, getOrRegister]
  cases hclient : h.registry.get? endpoint with
  | some client =>
    exact (reassigns_bind h handle client).extends_some (.inl ⟨.endpoint endpoint, hclient⟩)
      (by simp)
  | none =>
    cases connection with
    | error e => exact .refl h
    | ok given =>
      obtain ⟨offer, hoffer⟩ := hconnection given rfl
      obtain ⟨haccept, hgiven⟩ := extends_accept hoffer
      have hregister := reassigns_register (h.accept given).2 endpoint (h.accept given).1
      have hheld : IsHeld _ (h.accept given).1 :=
        ⟨.endpoint endpoint, (hregister.clientOf_eq _).trans (if_pos rfl)⟩
      have hnew : (h.accept given).2.clientOf (.endpoint endpoint) = none :=
        (congrArg (Dictionary.get? · endpoint) (registry_accept h given)).trans hclient
      exact haccept.trans ((hregister.extends_some hgiven fun _ _ => hnew).trans
        ((reassigns_bind _ handle _).extends_some (.inl hheld) (by simp)))

theorem extends_connect (inner : Service σ) (h : Host (Observed σ)) (table : String) :
    h.Extends (((h.connect (service inner) table).map (·.2)).getD h) := by
  cases hconnect : h.connect (service inner) table with
  | none => exact .refl h
  | some result =>
    obtain ⟨held, htable, hresult⟩ := Option.bind_eq_some_iff.1 hconnect
    obtain ⟨⟨⟨answer, t⟩, h₁⟩, hrun, rfl⟩ := Option.map_eq_some_iff.1 hresult
    have hheld : h₁.clientOf (.table table) = some held.client := by
      rw [clientOf_of_run hrun, clientOf, htable, Option.map_some]
    exact ((isQuiet_connect inner held.item).extends hrun).trans
      ((reassigns_addTable h₁ table held.client t).extends_some (.inl ⟨_, hheld⟩) (by simp))

theorem extends_find (h : Host (Observed σ)) (table records : String) (params : Bindings)
    (condition : Condition) :
    h.Extends (((h.find table records params condition).map (·.2)).getD h) := by
  cases hfind : h.find table records params condition with
  | none => exact .refl h
  | some result =>
    obtain ⟨held, htable, hresult⟩ := Option.bind_eq_some_iff.1 hfind
    obtain ⟨⟨answer, h₁⟩, hrun, rfl⟩ := Option.map_eq_some_iff.1 hresult
    have hext := (isQuiet_find held.item params condition).extends hrun
    have hheld : h₁.clientOf (.table table) = some held.client := by
      rw [clientOf_of_run hrun, clientOf, htable, Option.map_some]
    cases answer with
    | error e => exact hext
    | ok r =>
      exact hext.trans
        ((reassigns_addRecords h₁ records _ r).extends_some (.inl ⟨_, hheld⟩) (by simp))

/-- An operation that disposes of no holder extends the host. -/
theorem extends_run (inner : Service σ) (h : Host (Observed σ)) {op : Operation σ}
    (hop : op.disposal? = none) : h.Extends (op.run inner h) := by
  cases op with
  | openClient label store =>
    obtain ⟨hext, hopen⟩ := extends_addClient h label store
    exact hext.trans ((reassigns_bind _ _ _).extends_some (.inr hopen) (by simp))
  | copyHandle handle copy =>
    rw [run]
    cases hclient : h.handles.get? handle with
    | none => exact .refl h
    | some client =>
      exact (reassigns_bind h copy client).extends_some (.inl ⟨.handle handle, hclient⟩) (by simp)
  | dropHandle handle => exact (reassigns_dropHandle h handle).extends_none (by simp)
  | getOrConnect endpoint handle connect =>
    cases connect with
    | error e => exact extends_get (fun _ hgiven => by cases hgiven) endpoint handle
    | ok offer =>
      rw [run]
      cases hoffer : h.connection? offer with
      | none => exact .refl h
      | some given =>
        exact extends_get (fun _ hgiven => ⟨offer, by rw [hoffer, Except.ok.inj hgiven]⟩) endpoint
          handle
  | release endpoint => cases hop
  | declareTable table name handle columns key options =>
    rw [run]
    split
    · rename_i client t hclient _
      exact (reassigns_addTable h table client t).extends_some (.inl ⟨.handle handle, hclient⟩)
        (by simp)
    · exact .refl h
  | connect table => exact extends_connect inner h table
  | destroy table => cases hop
  | find table records params condition => exact extends_find h table records params condition
  | dropRecords records => exact (reassigns_dropRecords h records).extends_none (by simp)
  | openCursor cursor handle collection query batch =>
    rw [run]
    cases hclient : h.handles.get? handle with
    | none => exact .refl h
    | some client =>
      exact (reassigns_addCursor h cursor client _).extends_some (.inl ⟨.handle handle, hclient⟩)
        (by simp)
  | dropCursor cursor => exact (reassigns_dropCursor h cursor).extends_none (by simp)
  | request holder r other =>
    rw [run]
    cases hrun : (h.clientOf holder).bind fun client =>
      h.run client (Act.ask (service inner) r) with
    | none => exact .refl h
    | some result =>
      obtain ⟨client, -, hask⟩ := Option.bind_eq_some_iff.1 hrun
      exact (isQuiet_ask other inner).extends hask

/-- An operation that disposes of a holder does so, unless there is no such holder. -/
theorem disposed_run (inner : Service σ) (h : Host (Observed σ)) {op : Operation σ} {x : Holder}
    (hop : op.disposal? = some x) :
    op.run inner h = h ∨ ∃ client name, Disposed inner h (op.run inner h) x client name := by
  cases op with
  | release endpoint =>
    obtain rfl := Option.some.inj hop
    rw [run, Host.release]
    cases hclient : h.registry.get? endpoint with
    | none => exact .inl rfl
    | some client => exact .inr ⟨client, endpoint, hclient, _, reassigns_unregister h endpoint, rfl⟩
  | destroy table =>
    obtain rfl := Option.some.inj hop
    rw [run, Host.destroy]
    cases htable : h.tables.get? table with
    | none => exact .inl rfl
    | some t =>
      exact .inr ⟨t.client, t.item.collection.name, by rw [clientOf, htable, Option.map_some], _,
        reassigns_removeTable h table, rfl⟩
  | _ => cases hop

end Operation

/-! ## Closing -/

/-- Every client is closed at most once, and never one that is held. -/
structure IsSound (h : Host (Observed σ)) : Prop where
  once : ∀ client, h.closings client ≤ 1
  held : ∀ client, h.IsHeld client → h.IsOpen client

/-- What an operation closes: nothing but the client whose last holder a disposal takes away, and
that one always. -/
structure ClosesLast (op : Operation σ) (h h' : Host (Observed σ)) (client : Nat) : Prop where
  only : h'.closings client ≠ h.closings client →
    ∃ x, op.disposal? = some x ∧ h.clientOf x = some client ∧ ¬ h'.IsHeld client
  last : op.disposal?.isSome → h.IsHeld client → ¬ h'.IsHeld client → h'.closings client = 1

section Closing

variable {h h' : Host (Observed σ)} {x : Holder} {client : Nat} {name : String}

theorem isSound_empty : IsSound (empty : Host (Observed σ)) where
  once client := by simp [closings, empty]
  held client := by
    rintro ⟨_ | _ | _ | _ | _, hx⟩ <;> cases hx

theorem IsSound.extends (hsound : h.IsSound) (hext : h.Extends h') : h'.IsSound where
  once client := (hext.closings_eq client).trans_le (hsound.once client)
  held client hheld := (hext.held client hheld).elim
    (fun hheld => hext.isOpen (hsound.held client hheld)) id

theorem isHeld_closeUnheld (service : Service σ) (h : Host σ) (client : Nat) (name : String)
    (other : Nat) : (h.closeUnheld service client name).IsHeld other ↔ h.IsHeld other :=
  exists_congr fun x => by rw [clientOf_closeUnheld]

/-- A disposal closes its client exactly when nothing holds it any more. -/
theorem Disposed.closings (hdisposed : Disposed inner h h' x client name) (hsound : h.IsSound)
    (other : Nat) :
    h'.closings other =
      h.closings other + if other = client ∧ ¬ h'.IsHeld client then 1 else 0 := by
  obtain ⟨hheld, h₁, hgone, rfl⟩ := hdisposed
  have hclient : client < h₁.clients.length := hgone.clients_eq ▸ (hsound.held client ⟨x, hheld⟩).1
  simp only [closings_closeUnheld inner hclient, isHeld_closeUnheld, ← holders_eq_zero_iff,
    closings_congr hgone.clients_eq]

/-- Of what was held before a disposal, at most the client of the holder is not held any more. -/
theorem Disposed.isHeld_iff (hdisposed : Disposed inner h h' x client name) {other : Nat}
    (hother : other ≠ client) : h'.IsHeld other ↔ h.IsHeld other := by
  obtain ⟨hheld, h₁, hgone, rfl⟩ := hdisposed
  rw [isHeld_closeUnheld]
  refine exists_congr fun y => ?_
  rw [hgone.clientOf_eq]
  split
  · rename_i hy
    rw [hy, hheld, Option.some_inj]
    exact ⟨by simp, fun h => absurd h.symm hother⟩
  · rfl

theorem IsSound.disposed (hsound : h.IsSound) (hdisposed : Disposed inner h h' x client name) :
    h'.IsSound := by
  have hopen := hsound.held client ⟨x, hdisposed.held⟩
  have hlength : h'.clients.length = h.clients.length := by
    obtain ⟨-, h₁, hgone, rfl⟩ := hdisposed
    rw [length_closeUnheld, hgone.clients_eq]
  refine ⟨fun other => ?_, fun other hheld => ?_⟩
  · rw [hdisposed.closings hsound]
    split_ifs with hother
    · rw [hother.1, hopen.2]
    · exact hsound.once other
  · have hnot : ¬(other = client ∧ ¬ h'.IsHeld client) := fun hother => hother.2 (hother.1 ▸ hheld)
    rw [IsOpen, hdisposed.closings hsound, if_neg hnot, hlength, Nat.add_zero]
    by_cases hother : other = client
    · exact hother ▸ hopen
    · exact hsound.held other ((hdisposed.isHeld_iff hother).1 hheld)

theorem IsSound.run (hsound : h.IsSound) (inner : Service σ) (op : Operation σ) :
    (op.run inner h).IsSound := by
  cases hop : op.disposal? with
  | none => exact hsound.extends (Operation.extends_run inner h hop)
  | some x =>
    rcases Operation.disposed_run inner h hop with hsame | ⟨client, name, hdisposed⟩
    · rwa [hsame]
    · exact hsound.disposed hdisposed

theorem IsSound.closesLast (hsound : h.IsSound) (inner : Service σ) (op : Operation σ)
    (client : Nat) : ClosesLast op h (op.run inner h) client := by
  cases hop : op.disposal? with
  | none =>
    have hsame := (Operation.extends_run inner h hop).closings_eq client
    exact ⟨fun hchanged => absurd hsame hchanged, by simp [hop]⟩
  | some x =>
    rcases Operation.disposed_run inner h hop with hsame | ⟨disposed, name, hdisposed⟩
    · rw [hsame]
      exact ⟨fun hchanged => absurd rfl hchanged, fun _ hheld hnot => absurd hheld hnot⟩
    · refine ⟨fun hchanged => ?_, fun _ hheld hnot => ?_⟩
      · rw [hdisposed.closings hsound, ne_eq, Nat.add_eq_left, ite_eq_right_iff] at hchanged
        push Not at hchanged
        obtain ⟨⟨rfl, hnot⟩, -⟩ := hchanged
        exact ⟨x, hop, hdisposed.held, hnot⟩
      · by_cases hclient : client = disposed
        · obtain rfl := hclient
          rw [hdisposed.closings hsound, if_pos ⟨rfl, hnot⟩, (hsound.held client hheld).2]
        · exact absurd ((hdisposed.isHeld_iff hclient).2 hheld) hnot

/-- In every run each client is closed at most once, and never while it is held. -/
theorem isSound_runAll (inner : Service σ) (ops : List (Operation σ)) :
    (Operation.runAll inner .empty ops).IsSound := by
  induction ops using List.reverseRecOn with
  | nil => exact isSound_empty
  | append_singleton ops op ih =>
    rw [Operation.runAll, List.foldl_concat]
    exact ih.run inner op

end Closing

/-! ## The registry -/

/-- Whether a connection has been asked for: it says so, or the connection has failed. -/
def asked : Except StoreError (Bool × Nat × Host σ) → Bool
  | .ok (asked, _, _) => asked
  | .error _ => true

/-- How the registry hands out the client for an endpoint.  A connection is asked for exactly when
there is no client; one that fails changes nothing, and the client that has been given stays the
client for the endpoint until that is released. -/
structure Registers (inner : Service σ) (h : Host (Observed σ)) (endpoint : String) : Prop where
  asked_iff : ∀ connection, asked (h.getOrRegister endpoint connection) = true ↔
    h.registry.get? endpoint = none
  failed : ∀ handle e, h.registry.get? endpoint = none →
    h.getOrRegister endpoint (.error e) = .error e ∧
      Operation.run inner h (.getOrConnect endpoint handle (.error e)) = h
  same : ∀ connection handle wasAsked client h₁,
    h.getOrRegister endpoint connection = .ok (wasAsked, client, h₁) →
      ∀ ops : List (Operation σ), (∀ op ∈ ops, op ≠ .release endpoint) → ∀ connection',
        (Operation.runAll inner (h₁.bind handle client) ops).getOrRegister endpoint connection' =
          .ok (false, client, Operation.runAll inner (h₁.bind handle client) ops)

section Registry

variable {h h' : Host (Observed σ)} {endpoint : String} {client : Nat}

theorem getOrRegister_of_some {h : Host σ} (hclient : h.registry.get? endpoint = some client)
    (connection : Except StoreError (Connection σ)) :
    h.getOrRegister endpoint connection = .ok (false, client, h) := by
  rw [getOrRegister, hclient]

theorem getOrRegister_of_none {h : Host σ} (hnone : h.registry.get? endpoint = none)
    (connection : Except StoreError (Connection σ)) :
    h.getOrRegister endpoint connection = connection.map fun given =>
      (true, (h.accept given).1,
        { (h.accept given).2 with
          registry := (h.accept given).2.registry.insert endpoint (h.accept given).1 }) := by
  rw [getOrRegister, hnone]
  cases connection <;> rfl

/-- The client that is given is the one in the registry from then on. -/
theorem registry_of_getOrRegister {h h₁ : Host σ} {connection : Except StoreError (Connection σ)}
    {wasAsked : Bool} (hgiven : h.getOrRegister endpoint connection = .ok (wasAsked, client, h₁)) :
    h₁.registry.get? endpoint = some client := by
  cases hclient : h.registry.get? endpoint with
  | some registered =>
    rw [getOrRegister_of_some hclient] at hgiven
    obtain ⟨-, rfl, rfl⟩ : _ ∧ registered = client ∧ h = h₁ := by simpa using hgiven
    exact hclient
  | none =>
    rw [getOrRegister_of_none hclient] at hgiven
    cases connection with
    | error e => cases hgiven
    | ok given =>
      obtain ⟨-, rfl, rfl⟩ : _ ∧ (h.accept given).1 = client ∧ _ = h₁ := by
        simpa [Except.map] using hgiven
      simp

/-- An operation keeps the client for an endpoint that it does not release. -/
theorem registry_run (hclient : h.registry.get? endpoint = some client) (inner : Service σ)
    {op : Operation σ} (hop : op ≠ .release endpoint) :
    (op.run inner h).registry.get? endpoint = some client := by
  cases hx : op.disposal? with
  | none => exact (Operation.extends_run inner h hx).registered endpoint client hclient
  | some x =>
    have hne : Holder.endpoint endpoint ≠ x := fun heq =>
      hop (Operation.disposal?_eq_endpoint_iff.1 (heq ▸ hx))
    rcases Operation.disposed_run inner h hx with hsame | ⟨disposed, name, -, h₁, hgone, heq⟩
    · rwa [hsame]
    · show (op.run inner h).clientOf (.endpoint endpoint) = some client
      rw [heq, clientOf_closeUnheld, hgone.clientOf_eq, if_neg hne]
      exact hclient

theorem registry_runAll (hclient : h.registry.get? endpoint = some client) (inner : Service σ)
    {ops : List (Operation σ)} (hops : ∀ op ∈ ops, op ≠ .release endpoint) :
    (Operation.runAll inner h ops).registry.get? endpoint = some client := by
  induction ops generalizing h with
  | nil => exact hclient
  | cons op ops ih =>
    rw [List.forall_mem_cons] at hops
    exact ih (registry_run hclient inner hops.1) hops.2

theorem registers (inner : Service σ) (h : Host (Observed σ)) (endpoint : String) :
    Registers inner h endpoint where
  asked_iff connection := by
    cases hclient : h.registry.get? endpoint with
    | some client => simp [getOrRegister_of_some hclient, asked]
    | none => cases connection <;> simp [getOrRegister_of_none hclient, asked, Except.map]
  failed handle e hnone := by
    have herror : h.getOrRegister endpoint (.error e) = .error e := getOrRegister_of_none hnone _
    exact ⟨herror, by rw [Operation.run, Operation.get, herror]⟩
  same connection handle wasAsked client h₁ hgiven ops hops connection' := by
    have hentry : h₁.registry.get? endpoint = some client := registry_of_getOrRegister hgiven
    have hbound : (h₁.bind handle client).registry.get? endpoint = some client := hentry
    exact getOrRegister_of_some (registry_runAll hbound inner hops) connection'

end Registry

/-- Shared clients, at every point of every run: a client that is held has never been closed, and
none is closed twice; the next operation closes the client whose last holder it disposes of, and no
other one; and the registry gives one client for an endpoint until it is released. -/
theorem clients_shared (inner : Service σ) (ops : List (Operation σ)) :
    (Operation.runAll inner .empty ops).IsSound ∧
      (∀ op client, ClosesLast op (Operation.runAll inner .empty ops)
        (op.run inner (Operation.runAll inner .empty ops)) client) ∧
      ∀ endpoint, Registers inner (Operation.runAll inner .empty ops) endpoint :=
  have hsound := isSound_runAll inner ops
  ⟨hsound, hsound.closesLast inner, registers inner _⟩

/-- A handle, an endpoint, a table and a cursor give up a client, and one table is left. -/
def untilLastTable : List (Operation Memory) :=
  [.getOrConnect "local" "c" (.ok (.opened "m" .empty)),
    .declareTable "a" "A" "c" [⟨"name", .string⟩] none {},
    .declareTable "b" "B" "c" [⟨"name", .string⟩] none {}, .dropHandle "c", .connect "b",
    .find "b" "r" .empty .all, .release "local", .destroy "a", .dropRecords "r"]

theorem clients_shared_untilLastTable :
    let h := Operation.runAll Memory.service .empty untilLastTable
    let h' := (Operation.destroy "b").run Memory.service h
    h.IsHeld 0 ∧ h.closings 0 = 0 ∧ ¬ h'.IsHeld 0 ∧ h'.closings 0 = 1 := by
  intro h h'
  obtain ⟨hsound, hcloses, -⟩ := clients_shared Memory.service untilLastTable
  have hheld : h.IsHeld 0 := by decide +kernel
  have hnot : ¬ h'.IsHeld 0 := by decide +kernel
  exact ⟨hheld, (hsound.held 0 hheld).2, hnot, (hcloses (.destroy "b") 0).last rfl hheld hnot⟩

end Host

end SearchTable
