import SearchTable.Proofs.Failure
import SearchTable.Proofs.Store.Unreliable
import SearchTable.Store.Memory
import SearchTable.Table.Reconcile
/-!
# Connecting once

Connecting is a latch.  Until it has succeeded, every connect asks the store for the collection and,
when it has got it, puts the schema into effect; if one of the two calls fails, the connect fails
and leaves the table as it was.  After the first success a connect is answered by the table alone.

`Table.connect_latches` states this for every run of operations over a store of any kind that fails
as planned, while others use the store, too.  What a run preserves is that the table is as it was
declared, or as its first successful connect has left it (`Table.Latched`): its two marks, that it
is connected and that it knows the schema in effect, are set by different steps, and never apart.
-/

namespace SearchTable

open Unreliable

namespace Table

variable {σ : Type}

/-- A table that has been connected, with the schema in effect. -/
def connectedWith (t : Table) (s : Schema) : Table := { t with connected := true, schema := some s }

/-- The request that puts the schema of a table into effect. -/
abbrev schemaRequest (t : Table) : Request :=
  .syncSchema t.collection.name t.collection.schema t.options.mergeSchema

/-- A table that has not been connected knows no schema. -/
structure IsUnconnected (t : Table) : Prop where
  connected : t.connected = false
  schema : t.schema = none

theorem declare_eq_ok_iff {t : Table} {name : String} {columns : List Column}
    {key : Option (List String)} {options : Options} :
    declare name columns key options = .ok t ↔ options.validate = .ok () ∧
      ∃ collection layout, Collection.ofTable name columns options = .ok collection ∧
        Layout.make columns key = .ok layout ∧
        t = ⟨name, layout, options, collection, false, none⟩ := by
  simp only [declare, bind_eq_ok_iff, Except.ok.injEq]
  constructor
  · rintro ⟨⟨⟩, hvalid, collection, hcollection, layout, hlayout, rfl⟩
    exact ⟨hvalid, collection, layout, hcollection, hlayout, rfl⟩
  · rintro ⟨hvalid, collection, layout, hcollection, hlayout, rfl⟩
    exact ⟨(), hvalid, collection, hcollection, layout, hlayout, rfl⟩

theorem isUnconnected_of_declare {t : Table} {name : String} {columns : List Column}
    {key : Option (List String)} {options : Options}
    (h : declare name columns key options = .ok t) : t.IsUnconnected := by
  obtain ⟨-, collection, layout, -, -, rfl⟩ := declare_eq_ok_iff.1 h
  exact ⟨rfl, rfl⟩

/-! ## One connect -/

section Connect

variable {service : Service σ} {t : Table} {w w₁ w₂ : World σ} {e : StoreError} {s : Schema}

/-- A table that is connected answers by itself. -/
theorem connect_of_connected (h : t.connected = true) (service : Service σ) (w : World σ) :
    t.connect service w = ((.ok (), t), w) := by
  simp only [connect, isConnected, h, if_true]
  rfl

theorem connect_of_ensure_error (h : t.IsUnconnected)
    (hensure : Act.ask service (.ensure t.collection) w = (.error e, w₁)) :
    ∃ log, t.connect service w =
      ((.error (t.connectError "creating collection" e), t), { w₁ with log := log }) := by
  simp only [connect, isConnected, h.connected, Bool.false_eq_true, if_false, bind, StateT.bind,
    hensure]
  exact ⟨_, rfl⟩

theorem connect_of_schema_error (h : t.IsUnconnected)
    (hensure : Act.ask service (.ensure t.collection) w = (.ok (), w₁))
    (hschema : Act.ask service t.schemaRequest w₁ = (.error e, w₂)) :
    ∃ log, t.connect service w =
      ((.error (t.connectError "synchronizing schema" e), t), { w₂ with log := log }) := by
  have hput : t.putSchema service w₁ = (.error e, w₂) := by
    simp only [putSchema, h.schema, bind, StateT.bind, hschema]
    rfl
  simp only [connect, isConnected, h.connected, Bool.false_eq_true, if_false, bind, StateT.bind,
    hensure, hput]
  exact ⟨_, rfl⟩

theorem connect_of_ok (h : t.IsUnconnected)
    (hensure : Act.ask service (.ensure t.collection) w = (.ok (), w₁))
    (hschema : Act.ask service t.schemaRequest w₁ = (.ok s, w₂)) :
    t.connect service w = ((.ok (), t.connectedWith s), w₂) := by
  have hput : t.putSchema service w₁ = (.ok { t with schema := some s }, w₂) := by
    simp only [putSchema, h.schema, bind, StateT.bind, hschema]
    rfl
  simp only [connect, isConnected, h.connected, Bool.false_eq_true, if_false, bind, StateT.bind,
    hensure, hput]
  rfl

end Connect

variable {inner : Service σ} {failures : Nat → Option StoreError} {t t₀ : Table}
  {w : World (Unreliable σ)}

/-- A connect of a table that is not connected: its calls, its result, and the table it leaves.  The
schema that the table knows then is the one that the store has answered. -/
inductive Attempt (inner : Service σ) (t : Table) :
    List Call → Except StoreError Unit → Table → Prop
  | refused (reason : StoreError) (unavailable : reason.isConnection = true) :
      Attempt inner t [⟨.ensure t.collection, false⟩] (.error reason) t
  | unsynchronized (reason : StoreError) (unavailable : reason.isConnection = true) :
      Attempt inner t [⟨.ensure t.collection, true⟩, ⟨t.schemaRequest, false⟩] (.error reason) t
  | succeeded (s : Schema) (answered : ∃ store, (inner.answer t.schemaRequest store).1 = .ok s) :
      Attempt inner t [⟨.ensure t.collection, true⟩, ⟨t.schemaRequest, true⟩] (.ok ())
        (t.connectedWith s)

/-- An answer that an unreliable store gives comes from the store behind it. -/
theorem answer_of_ask_eq_ok {r : Request} {a : r.Answer} {w' : World (Unreliable σ)}
    (h : Act.ask (service inner failures) r w = (.ok a, w')) :
    ∃ store, (inner.answer r store).1 = .ok a := by
  refine ⟨w.store.store, ?_⟩
  have hresult := congrArg Prod.fst h
  simp only [Act.ask, service, answer] at hresult
  split at hresult
  · cases hresult
  · exact hresult

/-- Every connect of a table that is not connected is an attempt. -/
theorem attempt_connect (h : t.IsUnconnected) (inner : Service σ)
    (failures : Nat → Option StoreError) (w : World (Unreliable σ)) :
    ∃ calls result t' w', t.connect (service inner failures) w = ((result, t'), w') ∧
      w'.store.calls = w.store.calls ++ calls ∧ Attempt inner t calls result t' := by
  have hcalls := calls_ask inner failures (.ensure t.collection) w
  cases hensure : Act.ask (service inner failures) (.ensure t.collection) w with
  | mk created w₁ =>
    rw [hensure] at hcalls
    cases created with
    | error e =>
      obtain ⟨log, hconnect⟩ := connect_of_ensure_error h hensure
      exact ⟨_, _, _, _, hconnect, hcalls, .refused _ rfl⟩
    | ok _ =>
      have hcalls' := calls_ask inner failures t.schemaRequest w₁
      cases hschema : Act.ask (service inner failures) t.schemaRequest w₁ with
      | mk synchronized w₂ =>
        rw [hschema, hcalls, List.append_assoc] at hcalls'
        cases synchronized with
        | error e =>
          obtain ⟨log, hconnect⟩ := connect_of_schema_error h hensure hschema
          exact ⟨_, _, _, _, hconnect, hcalls', .unsynchronized _ rfl⟩
        | ok s =>
          exact ⟨_, _, _, _, connect_of_ok h hensure hschema, hcalls',
            .succeeded s (answer_of_ask_eq_ok hschema)⟩

/-! ## Operations -/

/-- What is done with a table, and what others do to its store meanwhile. -/
inductive Operation (σ : Type) where
  | connect
  | disconnect
  | add (records : List Record)
  | find (params : Bindings) (condition : Condition)
  | contains (params : Bindings) (condition : Condition)
  | delete (condition : Condition) (sets : List Bindings)
  | update (condition : Condition) (sets : List Bindings) (changes : List Changes)
  | updateOrAdd (condition : Condition) (sets : List Bindings) (changes : List Changes)
      (records : List Record)
  | meanwhile (change : σ → σ)

/-- Carries out an operation.  Beside the table it gives the result of a connect. -/
def Operation.run (service : Service (Unreliable σ)) (t : Table) :
    Operation σ → Act (Unreliable σ) (Option (Except StoreError Unit) × Table)
  | .connect => do
    let (result, t) ← t.connect service
    return (some result, t)
  | .disconnect => do
    t.disconnect
    return (none, t)
  | .add records => do
    let _ ← t.add service records
    return (none, t)
  | .find params condition => do
    let _ ← t.find params condition
    return (none, t)
  | .contains params condition => do
    let _ ← t.contains service params condition
    return (none, t)
  | .delete condition sets => do
    let _ ← t.delete service condition sets
    return (none, t)
  | .update condition sets changes => do
    let _ ← t.update service condition sets changes
    return (none, t)
  | .updateOrAdd condition sets changes records => do
    let _ ← t.updateOrAdd service condition sets changes records
    return (none, t)
  | .meanwhile change => do
    modify fun w => { w with store := { w.store with store := change w.store.store } }
    return (none, t)

/-- Carries out operations one after the other.  Lists the results of the connects. -/
def runOperations (service : Service (Unreliable σ)) :
    Table → List (Operation σ) → Act (Unreliable σ) (List (Except StoreError Unit) × Table)
  | t, [] => return ([], t)
  | t, op :: ops => do
    let (result, t) ← op.run service t
    let (results, t) ← runOperations service t ops
    return (result.toList ++ results, t)

/-- No operation but a connect changes the table. -/
theorem Operation.snd_run {op : Operation σ} (hop : op ≠ .connect)
    (service : Service (Unreliable σ)) (t : Table) (w : World (Unreliable σ)) :
    (op.run service t w).1 = (none, t) := by
  cases op with
  | connect => exact absurd rfl hop
  | _ => rfl

/-- A table that is not connected makes no call but to connect. -/
theorem Operation.calls_run {op : Operation σ} (hop : op ≠ .connect) (h : t.IsUnconnected)
    (service : Service (Unreliable σ)) (w : World (Unreliable σ)) :
    (op.run service t w).2.store.calls = w.store.calls := by
  have hchecked := checkConnected_eq_error (t := t) h.connected
  cases op with
  | connect => exact absurd rfl hop
  | disconnect => rfl
  | add records =>
    cases records with
    | nil => rfl
    | cons r records =>
      simp only [run, Table.add, writeRecords, buildRecords, hchecked]
      rfl
  | find params condition =>
    simp only [run, Table.find, resolveQuery, hchecked]
    rfl
  | contains params condition =>
    simp only [run, Table.contains, resolveQuery, hchecked]
    rfl
  | delete condition sets =>
    simp only [run, Table.delete, hchecked]
    rfl
  | update condition sets changes =>
    simp only [run, Table.update, reconcile, hchecked]
    rfl
  | updateOrAdd condition sets changes records =>
    simp only [run, Table.updateOrAdd, reconcile, hchecked]
    rfl
  | meanwhile change => rfl

/-! ## Runs -/

/-- A table is as it was declared while no connect has succeeded, and then as the first connect that
succeeded has left it. -/
inductive Latched (t₀ : Table) : List (Except StoreError Unit) → Table → Prop
  | before {results : List (Except StoreError Unit)} (failed : .ok () ∉ results) :
      Latched t₀ results t₀
  | after {results : List (Except StoreError Unit)} (s : Schema) (succeeded : .ok () ∈ results) :
      Latched t₀ results (t₀.connectedWith s)

variable {results : List (Except StoreError Unit)}

theorem Latched.isConnected_iff (h : Latched t₀ results t) (h₀ : t₀.IsUnconnected) :
    t.isConnected = true ↔ .ok () ∈ results := by
  cases h with
  | before failed => simp [isConnected, h₀.connected, failed]
  | after s succeeded => simp [isConnected, connectedWith, succeeded]

theorem Latched.isSome_schema (h : Latched t₀ results t) (h₀ : t₀.IsUnconnected) :
    t.schema.isSome = t.isConnected := by
  cases h with
  | before failed => simp [isConnected, h₀.connected, h₀.schema]
  | after s succeeded => rfl

theorem Latched.isUnconnected (h : Latched t₀ results t) (h₀ : t₀.IsUnconnected)
    (hconnected : t.isConnected = false) : t.IsUnconnected := by
  cases h with
  | before failed => exact h₀
  | after s succeeded => cases hconnected

/-- Results that say nothing of a success leave the latch as it is. -/
theorem Latched.append_failed (h : Latched t₀ results t) {more : List (Except StoreError Unit)}
    (hmore : .ok () ∉ more) : Latched t₀ (results ++ more) t := by
  cases h with
  | before failed => exact .before (by simp [failed, hmore])
  | after s succeeded => exact .after s (List.mem_append_left _ succeeded)

/-- What one operation preserves. -/
theorem Latched.run (h : Latched t₀ results t) (h₀ : t₀.IsUnconnected) (inner : Service σ)
    (failures : Nat → Option StoreError) (op : Operation σ) (w : World (Unreliable σ)) :
    Latched t₀ (results ++ (op.run (service inner failures) t w).1.1.toList)
      (op.run (service inner failures) t w).1.2 := by
  by_cases hop : op = .connect
  · subst hop
    cases hconnected : t.isConnected with
    | true =>
      have hrun : Operation.connect.run (service inner failures) t w = ((some (.ok ()), t), w) := by
        simp only [Operation.run, bind, StateT.bind, connect_of_connected hconnected]
        rfl
      rw [hrun]
      cases h with
      | before failed => rw [isConnected, h₀.connected] at hconnected; cases hconnected
      | after s succeeded => exact .after s (List.mem_append_left _ succeeded)
    | false =>
      obtain ⟨calls, result, t', w', hconnect, -, hattempt⟩ :=
        attempt_connect (h.isUnconnected h₀ hconnected) inner failures w
      have hrun : Operation.connect.run (service inner failures) t w = ((some result, t'), w') := by
        simp only [Operation.run, bind, StateT.bind, hconnect]
        rfl
      rw [hrun]
      cases hattempt with
      | refused reason _ => exact h.append_failed (by simp)
      | unsynchronized reason _ => exact h.append_failed (by simp)
      | succeeded s _ =>
        cases h with
        | before failed => exact .after s (by simp)
        | after s' succeeded => cases hconnected
  · rw [op.snd_run hop]
    exact h.append_failed (by simp)

/-- What a whole run preserves. -/
theorem Latched.runOperations (h : Latched t₀ results t) (h₀ : t₀.IsUnconnected)
    (inner : Service σ) (failures : Nat → Option StoreError) (ops : List (Operation σ))
    (w : World (Unreliable σ)) :
    Latched t₀ (results ++ (runOperations (service inner failures) t ops w).1.1)
      (Table.runOperations (service inner failures) t ops w).1.2 := by
  induction ops generalizing t results w with
  | nil => exact (List.append_nil results).symm ▸ h
  | cons op ops ih =>
    have hstep := ih (h.run h₀ inner failures op w) (op.run (service inner failures) t w).2
    rwa [List.append_assoc] at hstep

/-- How connecting stands after a run, by the results of its connects. -/
structure IsLatch (inner : Service σ) (failures : Nat → Option StoreError)
    (results : List (Except StoreError Unit)) (t : Table) (w : World (Unreliable σ)) : Prop where
  /-- The table is connected when a connect has succeeded, -/
  isConnected_iff : t.isConnected = true ↔ .ok () ∈ results
  /-- and when it knows the schema in effect. -/
  isSome_schema_iff : t.schema.isSome = true ↔ t.isConnected = true
  /-- From then on every connect succeeds, and makes no call. -/
  connect_of_connected : t.isConnected = true →
    t.connect (service inner failures) w = ((.ok (), t), w)
  /-- Until then every connect makes its calls, and fails when one of them does, -/
  connect_of_not_connected : t.isConnected = false →
    ∃ calls result t' w', t.connect (service inner failures) w = ((result, t'), w') ∧
      w'.store.calls = w.store.calls ++ calls ∧ Attempt inner t calls result t'
  /-- and every other operation makes no call. -/
  calls_of_not_connected : t.isConnected = false → ∀ op : Operation σ, op ≠ .connect →
    (op.run (service inner failures) t w).2.store.calls = w.store.calls

/-- However a store fails, and whatever others do to it, connecting a table that has been declared
is a latch after every run. -/
theorem connect_latches {name : String} {columns : List Column} {key : Option (List String)}
    {options : Options} (hdeclare : declare name columns key options = .ok t₀) (inner : Service σ)
    (failures : Nat → Option StoreError) (ops : List (Operation σ)) (w : World (Unreliable σ)) :
    let reached := runOperations (service inner failures) t₀ ops w
    IsLatch inner failures reached.1.1 reached.1.2 reached.2 := by
  intro reached
  have h₀ := isUnconnected_of_declare hdeclare
  have hlatched : Latched t₀ reached.1.1 reached.1.2 :=
    (Latched.before List.not_mem_nil).runOperations h₀ inner failures ops _
  exact {
    isConnected_iff := hlatched.isConnected_iff h₀
    isSome_schema_iff := by rw [hlatched.isSome_schema h₀]
    connect_of_connected := fun hconnected => Table.connect_of_connected hconnected _ _
    connect_of_not_connected := fun hconnected =>
      attempt_connect (hlatched.isUnconnected h₀ hconnected) inner failures _
    calls_of_not_connected := fun hconnected op hop =>
      op.calls_run hop (hlatched.isUnconnected h₀ hconnected) _ _ }

/-- The schema of a new table is refused first, then the store is out of reach for a while; the
third connect succeeds, and so does one that finds the store out of reach again. -/
theorem connect_latches_outage :
    let failures : Nat → Option StoreError := fun n => if n = 1 then some .io else none
    let reach (available : Bool) : Operation Memory := .meanwhile fun m =>
      { m with available := available }
    let w : World (Unreliable Memory) := ⟨⟨.empty, []⟩, 0, []⟩
    ∃ t₀, declare "people" [⟨"name", .string⟩] none {} = .ok t₀ ∧
      let reached := runOperations (service Memory.service failures) t₀
        [.connect, reach false, .connect, .add [[.text "alice"]], reach true, .connect, reach false,
          .disconnect, .connect] w
      reached.1.1.map (·.isOk) = [false, false, true, true] ∧
        reached.2.store.calls.map (·.succeeded) = [true, false, false, true, true] ∧
        IsLatch Memory.service failures reached.1.1 reached.1.2 reached.2 := by
  intro failures reach w
  have hdeclare : declare "people" [⟨"name", .string⟩] none {} = .ok _ := rfl
  exact ⟨_, hdeclare, by decide +kernel, by decide +kernel,
    connect_latches hdeclare Memory.service failures _ w⟩

end Table

end SearchTable
