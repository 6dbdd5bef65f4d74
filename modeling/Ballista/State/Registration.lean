import Ballista.State.ExecutorManager

/-
  `register_executor` as one sequential call of `ExecutorManager`
  against a backend that may fail at any of its calls: the
  connectivity probe, the clock, and the separate puts of the
  executor's metadata, its heartbeat and its `Slots` ledger. The
  puts are not one transaction, so a failure keeps every put
  before it.

  Every heartbeat put is also a watch event on `Heartbeats`; the
  store queues the events the manager's `ExecutorHeartbeatListener`
  has not yet received.

  Main declarations:
    * `ExecutorMetadata`, `Store`, `PutFaults`, `RegisterFaults`
    * `putRecord`, `saveExecutorMetadata`, `saveExecutorHeartbeat`
    * `slotsOnRegister`, `registerExecutor`
    * `registerExecutor_healthy`, `registerExecutor_cases`
-/

------------------------------------------------------------
-- The Registration Call
------------------------------------------------------------

namespace Ballista

namespace ExecutorManager

/- `ExecutorSpecification`: the task slots an executor offers. -/
structure ExecutorSpecification where
  taskSlots : Nat
deriving DecidableEq, Repr

/- `ExecutorMetadata`: where an executor listens, and what it offers. -/
structure ExecutorMetadata where
  id : String
  host : String
  port : UInt16
  grpcPort : UInt16
  specification : ExecutorSpecification
deriving DecidableEq, Repr

/-
  The keyspaces a registration writes, `Executors`, `Heartbeats`
  and `Slots`, with the manager's heartbeat cache and the watch
  events on `Heartbeats` its listener has yet to receive, oldest
  first.
-/
structure Store where
  executors : String → Option ExecutorMetadata
  heartbeats : String → Option ExecutorHeartbeat
  slots : SlotsKeyspace
  executorsHeartbeat : HeartbeatCache
  watchEvents : List ExecutorHeartbeat

/- Whether the encode and the put of one record fail, and how. -/
structure PutFaults where
  encode : Option BallistaError
  put : Option BallistaError

/- An encode and a put that both succeed. -/
def PutFaults.healthy : PutFaults :=
  ⟨none, none⟩

/-
  Which call of one registration fails, and how. The probe and
  the clock fail with the debug text of their own error.
-/
structure RegisterFaults where
  connect : Option String
  clock : Option String
  metadata : PutFaults
  heartbeat : PutFaults
  slots : PutFaults

/- A backend, a network and a clock on which every call succeeds. -/
def RegisterFaults.healthy : RegisterFaults :=
  ⟨none, none, .healthy, .healthy, .healthy⟩

/-
  `encode_protobuf(..)?` then `state.put(..).await?`: the store
  becomes `written` only if both succeed.
-/
def putRecord
    (faults : PutFaults)
    (store written : Store) :
    Except BallistaError Unit × Store :=
  match orFail faults.encode () >>= fun _ => orFail faults.put () with
  | .error error => (.error error, store)
  | .ok () => (.ok (), written)

/- The store once `metadata` is put under `Executors`. -/
def Store.withMetadata
    (store : Store)
    (metadata : ExecutorMetadata) : Store :=
  { store with executors := Function.update store.executors metadata.id (some metadata) }

/-
  The store once `heartbeat` is put under `Heartbeats`, which
  queues its watch event, and inserted into the cache.
-/
def Store.withHeartbeat
    (store : Store)
    (heartbeat : ExecutorHeartbeat) : Store :=
  { store with
    heartbeats := Function.update store.heartbeats heartbeat.executorId (some heartbeat)
    executorsHeartbeat :=
      insertHeartbeat store.executorsHeartbeat heartbeat.executorId heartbeat
    watchEvents := store.watchEvents ++ [heartbeat] }

/- The store once `data` is put under `Slots` for `executorId`. -/
def Store.withSlots
    (store : Store)
    (executorId : String)
    (data : ExecutorData) : Store :=
  { store with slots := Function.update store.slots executorId (some data) }

/- `save_executor_metadata`. -/
def saveExecutorMetadata
    (faults : PutFaults)
    (store : Store)
    (metadata : ExecutorMetadata) :
    Except BallistaError Unit × Store :=
  putRecord faults store (store.withMetadata metadata)

/- `save_executor_heartbeat`: the cache is written after the put. -/
def saveExecutorHeartbeat
    (faults : PutFaults)
    (store : Store)
    (heartbeat : ExecutorHeartbeat) :
    Except BallistaError Unit × Store :=
  putRecord faults store (store.withHeartbeat heartbeat)

/- `test_scheduler_connectivity`: connect to the executor's gRPC port. -/
def testSchedulerConnectivity
    (connectError : Option String)
    (metadata : ExecutorMetadata) :
    Except BallistaError Unit :=
  match connectError with
  | some error => .error (.internal ("Failed to register executor at " ++ metadata.host ++
      ":" ++ toString metadata.grpcPort ++ ", could not connect: " ++ error))
  | none => .ok ()

/- `SystemTime::now()` in seconds since the epoch, `now` unless the clock fails. -/
def currentTimestamp
    (clockError : Option String)
    (now : Nat) :
    Except BallistaError Nat :=
  match clockError with
  | some error => .error (.internal ("Error getting current timestamp: " ++ error))
  | none => .ok now

/-
  What `register_executor` hands out and stores in `Slots`: with
  `reserve`, every free slot as a free reservation and none left
  free; without, nothing and the record as given.
-/
def slotsOnRegister
    (executorId : String)
    (specification : ExecutorData) :
    Bool → List ExecutorReservation × ExecutorData
| false => ([], specification)
| true =>
    (List.replicate specification.availableTaskSlots (ExecutorReservation.newFree executorId),
      { specification with availableTaskSlots := 0 })

/-
  `register_executor(metadata, specification, reserve)` at unix
  time `now`: probe, read the clock, then put metadata, heartbeat
  and ledger one after another.
-/
def registerExecutor
    (faults : RegisterFaults)
    (store : Store)
    (metadata : ExecutorMetadata)
    (specification : ExecutorData)
    (reserve : Bool)
    (now : Nat) :
    Except BallistaError (List ExecutorReservation) × Store :=
  match testSchedulerConnectivity faults.connect metadata >>= fun _ =>
      currentTimestamp faults.clock now with
  | .error error => (.error error, store)
  | .ok currentTs =>
      match saveExecutorMetadata faults.metadata store metadata with
      | (.error error, store) => (.error error, store)
      | (.ok (), store) =>
          match saveExecutorHeartbeat faults.heartbeat store ⟨metadata.id, currentTs⟩ with
          | (.error error, store) => (.error error, store)
          | (.ok (), store) =>
              match putRecord faults.slots store
                  (store.withSlots metadata.id
                    (slotsOnRegister metadata.id specification reserve).2) with
              | (.error error, store) => (.error error, store)
              | (.ok (), store) => (.ok (slotsOnRegister metadata.id specification reserve).1, store)

end ExecutorManager

end Ballista

------------------------------------------------------------
-- What a Registration Leaves
------------------------------------------------------------

namespace Ballista

namespace ExecutorManager

/- A put either lands, or fails and leaves the store. -/
theorem putRecord_cases
    (faults : PutFaults)
    (store written : Store) :
    putRecord faults store written = (.ok (), written) ∨
      ∃ error, putRecord faults store written = (.error error, store) := by
  obtain ⟨encode, put⟩ := faults
  unfold putRecord
  cases encode <;> cases put <;> simp

@[simp] theorem putRecord_healthy
    (store written : Store) :
    putRecord .healthy store written = (.ok (), written) :=
  rfl

@[simp] theorem withMetadata_slots
    (store : Store)
    (metadata : ExecutorMetadata) :
    (store.withMetadata metadata).slots = store.slots :=
  rfl

@[simp] theorem withHeartbeat_slots
    (store : Store)
    (heartbeat : ExecutorHeartbeat) :
    (store.withHeartbeat heartbeat).slots = store.slots :=
  rfl

/-
  On a healthy backend `register_executor` puts the metadata, the
  heartbeat at `now` and the ledger, and hands out what
  `slotsOnRegister` says.
-/
theorem registerExecutor_healthy
    (store : Store)
    (metadata : ExecutorMetadata)
    (specification : ExecutorData)
    (reserve : Bool)
    (now : Nat) :
    registerExecutor RegisterFaults.healthy store metadata specification reserve now =
      (.ok (slotsOnRegister metadata.id specification reserve).1,
        ((store.withMetadata metadata).withHeartbeat ⟨metadata.id, now⟩).withSlots metadata.id
          (slotsOnRegister metadata.id specification reserve).2) :=
  rfl

/-
  What one `register_executor` can do: fail before any put, fail
  at the heartbeat put with the metadata put, fail at the ledger
  put with both before it, or put all three.
-/
theorem registerExecutor_cases
    (faults : RegisterFaults)
    (store : Store)
    (metadata : ExecutorMetadata)
    (specification : ExecutorData)
    (reserve : Bool)
    (now : Nat) :
    (∃ error, registerExecutor faults store metadata specification reserve now =
      (.error error, store)) ∨
    (∃ error, registerExecutor faults store metadata specification reserve now =
      (.error error, store.withMetadata metadata)) ∨
    (∃ error, registerExecutor faults store metadata specification reserve now =
      (.error error, (store.withMetadata metadata).withHeartbeat ⟨metadata.id, now⟩)) ∨
    registerExecutor faults store metadata specification reserve now =
      (.ok (slotsOnRegister metadata.id specification reserve).1,
        ((store.withMetadata metadata).withHeartbeat ⟨metadata.id, now⟩).withSlots metadata.id
          (slotsOnRegister metadata.id specification reserve).2) := by
  unfold registerExecutor saveExecutorMetadata saveExecutorHeartbeat
  cases hConnect : faults.connect with
  | some error => exact .inl ⟨_, rfl⟩
  | none =>
      cases hClock : faults.clock with
      | some error => exact .inl ⟨_, rfl⟩
      | none =>
          simp only [testSchedulerConnectivity, currentTimestamp, except_ok_bind]
          rcases putRecord_cases faults.metadata store
              (store.withMetadata metadata) with hMetadata | ⟨_, hMetadata⟩ <;>
            simp only [hMetadata]
          · rcases putRecord_cases faults.heartbeat
                (store.withMetadata metadata)
                ((store.withMetadata metadata).withHeartbeat ⟨metadata.id, now⟩)
                with hHeartbeat | ⟨_, hHeartbeat⟩ <;> simp only [hHeartbeat]
            · rcases putRecord_cases faults.slots
                  ((store.withMetadata metadata).withHeartbeat ⟨metadata.id, now⟩)
                  (((store.withMetadata metadata).withHeartbeat ⟨metadata.id, now⟩).withSlots
                    metadata.id (slotsOnRegister metadata.id specification reserve).2)
                  with hSlots | ⟨_, hSlots⟩ <;> simp only [hSlots]
              · simp
              · exact .inr (.inr (.inl ⟨_, rfl⟩))
            · exact .inr (.inl ⟨_, rfl⟩)
          · exact .inl ⟨_, rfl⟩

end ExecutorManager

end Ballista
