import Ballista.State.SequentialCalls

/-
  The executor-facing handlers of the scheduler's gRPC service,
  `SchedulerGrpc` for `SchedulerServer`: `register_executor`,
  `heart_beat_from_executor` and `poll_work`, over the executor
  manager's store. A handler answers, with a result or an error
  status, or panics where the code unwraps. The task manager's
  side of `poll_work`, `update_task_status` and the fill of a free
  reservation, is taken as the outcomes it returns. The event
  loop's sender and the `Display` and `Debug` texts come from
  crates not under `src/`: `post_event` fails once the loop has
  stopped receiving, and the texts are taken as given.

  Each handler writes to the store what a run of the manager's
  calls writes (`ServerCall.step_refines`), and a manager call it
  makes frees an executor's slots only where the handler may.

  Main declarations:
    * `Status`, `Handled`, `EventLoop`, `SchedulerServer`,
      `ExecutorRegistration`, `Formats`
    * `toExecutorMetadata`, `eventSender`, `EventLoop.postEvent`
    * `registerExecutor`, `heartBeatFromExecutor`, `pollWork`,
      `updateTaskStatus`
    * `ServerCall`, `ServerCall.step`, `ServerCall.managerCalls`
    * `ServerCall.step_refines`, `ServerCall.mayFree_of_managerCalls`
-/

------------------------------------------------------------
-- Requests and Answers
------------------------------------------------------------

namespace Ballista

namespace Grpc

open ExecutorManager

/- The status codes the handlers answer with. -/
inductive Code
| invalidArgument
| failedPrecondition
| internal
deriving DecidableEq, Repr

/- `tonic::Status`: a code and a message. -/
structure Status where
  code : Code
  message : String
deriving DecidableEq, Repr

/- What a handler does: answer, or panic at an `unwrap` or `expect`. -/
inductive Handled
    (α : Type)
| answered (result : Except Status α)
| panicked

/- `TaskSchedulingPolicy`. -/
inductive TaskSchedulingPolicy
| pullStaged
| pushStaged
deriving DecidableEq, Repr

/-
  The scheduler's event loop: whether it has started, so that
  `get_sender` succeeds, whether it has stopped receiving, so that
  `post_event` fails, and the `Offer` events posted to it.
-/
structure EventLoop where
  started : Bool
  closed : Bool
  offers : List (List ExecutorReservation)

/- The parts of `SchedulerServer` the handlers read and write. -/
structure SchedulerServer where
  policy : TaskSchedulingPolicy
  eventLoop : Option EventLoop
  store : Store

/- `ExecutorRegistration` as it arrives: host and specification optional. -/
structure ExecutorRegistration where
  id : String
  optionalHost : Option String
  port : Nat
  grpcPort : Nat
  specification : Option ExecutorSpecification

/-
  The `ExecutorMetadata` a handler builds: the peer's address when
  no host is given, and the `u32` ports cast to `u16`; `none` where
  the code panics, at `remote_addr.unwrap()` or at
  `specification.unwrap()`.
-/
def toExecutorMetadata
    (registration : ExecutorRegistration)
    (remoteAddr : Option String) :
    Option ExecutorMetadata :=
  match registration.optionalHost.or remoteAddr, registration.specification with
  | some host, some specification =>
      some ⟨registration.id, host, UInt16.ofNat registration.port,
        UInt16.ofNat registration.grpcPort, specification⟩
  | _, _ => none

/-
  `event_loop.as_ref().map(|e| e.get_sender()).transpose()` matched
  against `Ok(Some(sender))`: a loop that has not started has no
  sender, and counts as no loop.
-/
def eventSender :
    Option EventLoop → Option EventLoop
| some eventLoop => if eventLoop.started then some eventLoop else none
| none => none

/-
  `sender.post_event(Offer(reservations))`: the offer is queued,
  unless the loop has stopped receiving and the send fails.
-/
def EventLoop.postEvent
    (eventLoop : EventLoop)
    (reservations : List ExecutorReservation) :
    Option EventLoop :=
  if eventLoop.closed then none
  else some { eventLoop with offers := eventLoop.offers ++ [reservations] }

/-
  The texts `format!` writes: `{}` and `{:?}` of a `BallistaError`,
  and `{:?}` of a string, quoted with Rust's escapes.
-/
structure Formats where
  display : BallistaError → String
  debug : BallistaError → String
  debugStr : String → String

/-
  The status both `poll_work` and `update_task_status` answer when
  the task manager refuses an executor's task statuses.
-/
def taskStatusFailure
    (formats : Formats)
    (executorId : String)
    (error : BallistaError) : Status :=
  ⟨.internal, "Fail to update tasks status from executor " ++ formats.debugStr executorId ++
    " due to " ++ formats.debug error⟩

end Grpc

end Ballista

------------------------------------------------------------
-- The Handlers
------------------------------------------------------------

namespace Ballista

namespace Grpc

open ExecutorManager

/-
  `register_executor`: with a started event loop, register with
  `reserve` and post the reservations as one `Offer`; otherwise
  register without. A failed registration panics at its `unwrap`,
  and so does a failed `post_event`, after every put has landed.
  The answer is always `success: true`.
-/
def registerExecutor
    (faults : RegisterFaults)
    (server : SchedulerServer)
    (remoteAddr : Option String)
    (metadata : Option ExecutorRegistration)
    (now : Nat) :
    Handled Bool × SchedulerServer :=
  match metadata with
  | none => (.answered (.error ⟨.invalidArgument, "Missing metadata in request"⟩), server)
  | some registration =>
      match toExecutorMetadata registration remoteAddr with
      | none => (.panicked, server)
      | some metadata =>
          let executorData : ExecutorData :=
            ⟨metadata.id, metadata.specification.taskSlots, metadata.specification.taskSlots⟩
          match eventSender server.eventLoop with
          | some eventLoop =>
              match ExecutorManager.registerExecutor faults server.store metadata executorData
                  true now with
              | (.error _, store) => (.panicked, { server with store := store })
              | (.ok reservations, store) =>
                  match eventLoop.postEvent reservations with
                  | none => (.panicked, { server with store := store })
                  | some eventLoop =>
                      (.answered (.ok true), { server with
                        store := store
                        eventLoop := some eventLoop })
          | none =>
              match ExecutorManager.registerExecutor faults server.store metadata executorData
                  false now with
              | (.error _, store) => (.panicked, { server with store := store })
              | (.ok _, store) => (.answered (.ok true), { server with store := store })

/-
  `heart_beat_from_executor` at clock reading `clock` (`none`
  before the epoch, where `expect` panics): save the heartbeat.
  The answer is `reregister: false`.
-/
def heartBeatFromExecutor
    (formats : Formats)
    (faults : PutFaults)
    (server : SchedulerServer)
    (executorId : String)
    (clock : Option Nat) :
    Handled Bool × SchedulerServer :=
  match clock with
  | none => (.panicked, server)
  | some now =>
      match saveExecutorHeartbeat faults server.store ⟨executorId, now⟩ with
      | (.error error, store) =>
          (.answered (.error ⟨.internal,
            "Could not save executor heartbeat: " ++ formats.display error⟩),
            { server with store := store })
      | (.ok (), store) => (.answered (.ok false), { server with store := store })

/-
  `poll_work`: refused under push scheduling; otherwise save the
  metadata, then the heartbeat, then hand the task statuses to
  `update_task_status`, and answer the filled task if the executor
  can take one. `taskStatusError` and `nextTask` are what the task
  manager returns.
-/
def pollWork
    {α : Type}
    (formats : Formats)
    (metadataFaults heartbeatFaults : PutFaults)
    (taskStatusError : Option BallistaError)
    (nextTask : Option α)
    (server : SchedulerServer)
    (remoteAddr : Option String)
    (metadata : Option ExecutorRegistration)
    (canAcceptTask : Bool)
    (clock : Option Nat) :
    Handled (Option α) × SchedulerServer :=
  match server.policy with
  | .pushStaged =>
      (.answered (.error ⟨.failedPrecondition,
        "Bad request because poll work is not supported for push-based task scheduling"⟩),
        server)
  | .pullStaged =>
      match metadata with
      | none => (.answered (.error ⟨.invalidArgument, "Missing metadata in request"⟩), server)
      | some registration =>
          match toExecutorMetadata registration remoteAddr, clock with
          | some metadata, some now =>
              match saveExecutorMetadata metadataFaults server.store metadata with
              | (.error error, store) =>
                  (.answered (.error ⟨.internal,
                    "Could not save executor metadata: " ++ formats.display error⟩),
                    { server with store := store })
              | (.ok (), store) =>
                  match saveExecutorHeartbeat heartbeatFaults store ⟨metadata.id, now⟩ with
                  | (.error error, store) =>
                      (.answered (.error ⟨.internal,
                        "Could not save executor heartbeat: " ++ formats.display error⟩),
                        { server with store := store })
                  | (.ok (), store) =>
                      match taskStatusError with
                      | some error =>
                          (.answered (.error (taskStatusFailure formats metadata.id error)),
                            { server with store := store })
                      | none =>
                          (.answered (.ok (if canAcceptTask then nextTask else none)),
                            { server with store := store })
          | _, _ => (.panicked, server)

/-
  `update_task_status`: hand the statuses to the task manager, whose
  refusal `taskStatusError` is answered as an internal error.
-/
def updateTaskStatus
    (formats : Formats)
    (taskStatusError : Option BallistaError)
    (executorId : String) :
    Handled Bool :=
  match taskStatusError with
  | some error => .answered (.error (taskStatusFailure formats executorId error))
  | none => .answered (.ok true)

end Grpc

end Ballista

------------------------------------------------------------
-- Each Handler Is a Run of Manager Calls
------------------------------------------------------------

namespace Ballista

namespace Grpc

open ExecutorManager

/-
  One step the scheduler takes: an executor's RPC, a call its event
  loop makes on the executor manager, or a turn of the heartbeat
  listener's loop. `Task` is what `poll_work` hands out; no write
  reads it.
-/
inductive ServerCall
    (Task : Type)
| registerExecutor
    (faults : RegisterFaults)
    (remoteAddr : Option String)
    (metadata : Option ExecutorRegistration)
    (now : Nat)
| heartBeatFromExecutor
    (formats : Formats)
    (faults : PutFaults)
    (executorId : String)
    (clock : Option Nat)
| pollWork
    (formats : Formats)
    (metadataFaults heartbeatFaults : PutFaults)
    (taskStatusError : Option BallistaError)
    (nextTask : Option Task)
    (remoteAddr : Option String)
    (metadata : Option ExecutorRegistration)
    (canAcceptTask : Bool)
    (clock : Option Nat)
| eventLoop
    (call : ManagerCall)
| heartbeatListener

/- The server after one step, whatever the call answers. -/
def ServerCall.step
    {Task : Type}
    (server : SchedulerServer) :
    ServerCall Task → Option SchedulerServer
| .registerExecutor faults remoteAddr metadata now =>
    some (Grpc.registerExecutor faults server remoteAddr metadata now).2
| .heartBeatFromExecutor formats faults executorId clock =>
    some (Grpc.heartBeatFromExecutor formats faults server executorId clock).2
| .pollWork formats metadataFaults heartbeatFaults taskStatusError nextTask remoteAddr
    metadata canAcceptTask clock =>
    some (Grpc.pollWork formats metadataFaults heartbeatFaults taskStatusError nextTask
      server remoteAddr metadata canAcceptTask clock).2
| .eventLoop call => (call.step server.store).map fun store => { server with store := store }
| .heartbeatListener =>
    (ManagerCall.deliverWatchEvent.step server.store).map fun store =>
      { server with store := store }

/-
  The manager's calls a server step makes, in order: a resolved
  registration registers, reserving when the event loop has a
  sender; a clocked heartbeat saves it; a resolved pull-mode poll
  saves the metadata, then the heartbeat if that save succeeded;
  the listener delivers one watch event.
-/
def ServerCall.managerCalls
    {Task : Type}
    (server : SchedulerServer) :
    ServerCall Task → List ManagerCall
| .registerExecutor faults remoteAddr metadata now =>
    match metadata.bind fun registration => toExecutorMetadata registration remoteAddr with
    | some metadata =>
        [.registerExecutor faults metadata
          ⟨metadata.id, metadata.specification.taskSlots, metadata.specification.taskSlots⟩
          (eventSender server.eventLoop).isSome now]
    | none => []
| .heartBeatFromExecutor _ faults executorId clock =>
    match clock with
    | some now => [.saveExecutorHeartbeat faults ⟨executorId, now⟩]
    | none => []
| .pollWork _ metadataFaults heartbeatFaults _ _ remoteAddr metadata _ clock =>
    match server.policy,
        metadata.bind (fun registration => toExecutorMetadata registration remoteAddr), clock with
    | .pullStaged, some metadata, some now =>
        .saveExecutorMetadata metadataFaults metadata ::
          match (saveExecutorMetadata metadataFaults server.store metadata).1 with
          | .ok () => [.saveExecutorHeartbeat heartbeatFaults ⟨metadata.id, now⟩]
          | .error _ => []
    | _, _, _ => []
| .eventLoop call => [call]
| .heartbeatListener => [.deliverWatchEvent]

/-
  Whether a server step may give the executor free slots: an RPC
  registering it, or an event-loop call that may.
-/
def ServerCall.mayFree
    {Task : Type}
    (executorId : String) :
    ServerCall Task → Bool
| .registerExecutor _ _ metadata _ => metadata.any fun registration => registration.id == executorId
| .heartBeatFromExecutor _ _ _ _ => false
| .pollWork _ _ _ _ _ _ _ _ _ => false
| .eventLoop call => call.mayFree executorId
| .heartbeatListener => false

theorem toExecutorMetadata_id
    {registration : ExecutorRegistration}
    {remoteAddr : Option String}
    {metadata : ExecutorMetadata}
    (hMetadata : toExecutorMetadata registration remoteAddr = some metadata) :
    metadata.id = registration.id := by
  unfold toExecutorMetadata at hMetadata
  split at hMetadata
  · cases hMetadata
    rfl
  · cases hMetadata

theorem runCalls_singleton
    (store : Store)
    (call : ManagerCall) :
    runCalls store [call] = call.step store := by
  simp [runCalls, runSteps]

/-
  `register_executor` writes what its one manager registration
  writes, whether it answers or panics at either `unwrap`.
-/
theorem registerExecutor_refines
    {Task : Type}
    (faults : RegisterFaults)
    (server : SchedulerServer)
    (remoteAddr : Option String)
    (metadata : Option ExecutorRegistration)
    (now : Nat) :
    runCalls server.store
        ((ServerCall.registerExecutor faults remoteAddr metadata now : ServerCall Task).managerCalls
          server) =
      some (Grpc.registerExecutor faults server remoteAddr metadata now).2.store := by
  cases metadata with
  | none => rfl
  | some registration =>
      simp only [ServerCall.managerCalls, Option.some_bind]
      cases hMetadata : toExecutorMetadata registration remoteAddr with
      | none => simp [Grpc.registerExecutor, hMetadata, runCalls, runSteps]
      | some metadata =>
          simp only [runCalls_singleton, ManagerCall.step, Grpc.registerExecutor, hMetadata]
          cases eventSender server.eventLoop with
          | none =>
              dsimp only
              split <;> rename_i hCall <;> simp only [Option.isSome_none, hCall]
          | some eventLoop =>
              -- the store is the registration's, whether `post_event` panics or not
              dsimp only
              split <;> rename_i hCall
              · simp only [Option.isSome_some, hCall]
              · simp only [Option.isSome_some, hCall]
                split <;> rfl

/- `heart_beat_from_executor` writes what its heartbeat save writes. -/
theorem heartBeatFromExecutor_refines
    {Task : Type}
    (formats : Formats)
    (faults : PutFaults)
    (server : SchedulerServer)
    (executorId : String)
    (clock : Option Nat) :
    runCalls server.store
        ((ServerCall.heartBeatFromExecutor formats faults executorId clock :
          ServerCall Task).managerCalls server) =
      some (Grpc.heartBeatFromExecutor formats faults server executorId clock).2.store := by
  cases clock with
  | none => rfl
  | some now =>
      simp only [ServerCall.managerCalls, runCalls_singleton, ManagerCall.step,
        Grpc.heartBeatFromExecutor]
      split <;> rename_i hCall <;> simp [hCall]

/-
  `poll_work` writes what its metadata save and, after a success,
  its heartbeat save write; under push scheduling, nothing.
-/
theorem pollWork_refines
    {Task : Type}
    (formats : Formats)
    (metadataFaults heartbeatFaults : PutFaults)
    (taskStatusError : Option BallistaError)
    (nextTask : Option Task)
    (server : SchedulerServer)
    (remoteAddr : Option String)
    (metadata : Option ExecutorRegistration)
    (canAcceptTask : Bool)
    (clock : Option Nat) :
    runCalls server.store
        ((ServerCall.pollWork formats metadataFaults heartbeatFaults taskStatusError nextTask
          remoteAddr metadata canAcceptTask clock).managerCalls server) =
      some (Grpc.pollWork formats metadataFaults heartbeatFaults taskStatusError nextTask
        server remoteAddr metadata canAcceptTask clock).2.store := by
  cases hPolicy : server.policy with
  | pushStaged => simp [ServerCall.managerCalls, Grpc.pollWork, hPolicy, runCalls, runSteps]
  | pullStaged =>
      cases metadata with
      | none => simp [ServerCall.managerCalls, Grpc.pollWork, hPolicy, runCalls, runSteps]
      | some registration =>
          cases hMetadata : toExecutorMetadata registration remoteAddr with
          | none =>
              simp [ServerCall.managerCalls, Grpc.pollWork, hPolicy, hMetadata, runCalls, runSteps]
          | some metadata =>
              cases clock with
              | none =>
                  simp [ServerCall.managerCalls, Grpc.pollWork, hPolicy, hMetadata, runCalls,
                    runSteps]
              | some now =>
                  simp only [ServerCall.managerCalls, Grpc.pollWork, hPolicy, hMetadata,
                    Option.some_bind]
                  rcases putRecord_cases metadataFaults server.store
                      (server.store.withMetadata metadata) with hSaved | ⟨_, hSaved⟩
                  · rcases putRecord_cases heartbeatFaults (server.store.withMetadata metadata)
                        ((server.store.withMetadata metadata).withHeartbeat ⟨metadata.id, now⟩)
                      with hBeat | ⟨_, hBeat⟩ <;>
                      cases taskStatusError <;>
                      simp [saveExecutorMetadata, saveExecutorHeartbeat, hSaved, hBeat, runCalls,
                        runSteps, ManagerCall.step]
                  · simp [saveExecutorMetadata, hSaved, runCalls, runSteps, ManagerCall.step]

/- One server step writes what a run of its manager calls writes. -/
theorem ServerCall.step_refines
    {Task : Type}
    {server server' : SchedulerServer}
    {call : ServerCall Task}
    (hStep : call.step server = some server') :
    runCalls server.store (call.managerCalls server) = some server'.store := by
  cases call with
  | registerExecutor faults remoteAddr metadata now =>
      obtain rfl := Option.some.inj hStep
      exact registerExecutor_refines faults server remoteAddr metadata now
  | heartBeatFromExecutor formats faults executorId clock =>
      obtain rfl := Option.some.inj hStep
      exact heartBeatFromExecutor_refines formats faults server executorId clock
  | pollWork formats metadataFaults heartbeatFaults taskStatusError nextTask remoteAddr
      metadata canAcceptTask clock =>
      obtain rfl := Option.some.inj hStep
      exact pollWork_refines formats metadataFaults heartbeatFaults taskStatusError nextTask
        server remoteAddr metadata canAcceptTask clock
  | eventLoop call =>
      obtain ⟨store, hCall, rfl⟩ := Option.map_eq_some.mp hStep
      rw [ServerCall.managerCalls, runCalls_singleton, hCall]
  | heartbeatListener =>
      obtain ⟨store, hCall, rfl⟩ := Option.map_eq_some.mp hStep
      rw [ServerCall.managerCalls, runCalls_singleton, hCall]

/-
  A manager call a server step makes frees the executor's slots
  only if the step may: the registration it makes is of the
  executor the RPC names.
-/
theorem ServerCall.mayFree_of_managerCalls
    {Task : Type}
    {server : SchedulerServer}
    {call : ServerCall Task}
    {managerCall : ManagerCall}
    {executorId : String}
    (hMem : managerCall ∈ call.managerCalls server)
    (hKept : call.mayFree executorId = false) :
    managerCall.mayFree executorId = false := by
  cases call with
  | registerExecutor faults remoteAddr metadata now =>
      cases metadata with
      | none => cases hMem
      | some registration =>
          simp only [ServerCall.managerCalls, Option.some_bind] at hMem
          cases hMetadata : toExecutorMetadata registration remoteAddr with
          | none => simp [hMetadata] at hMem
          | some metadata =>
              simp only [hMetadata, List.mem_singleton] at hMem
              subst hMem
              simpa [ServerCall.mayFree, ManagerCall.mayFree, toExecutorMetadata_id hMetadata]
                using hKept
  | heartBeatFromExecutor formats faults executorId clock =>
      cases clock <;> simp_all [ServerCall.managerCalls, ManagerCall.mayFree]
  | pollWork formats metadataFaults heartbeatFaults taskStatusError nextTask remoteAddr
      metadata canAcceptTask clock =>
      simp only [ServerCall.managerCalls] at hMem
      split at hMem
      · simp only [List.mem_cons] at hMem
        rcases hMem with rfl | hMem
        · rfl
        · split at hMem <;> simp_all [ManagerCall.mayFree]
      · cases hMem
  | eventLoop call =>
      simp only [ServerCall.managerCalls, List.mem_singleton] at hMem
      subst hMem
      exact hKept
  | heartbeatListener =>
      simp only [ServerCall.managerCalls, List.mem_singleton] at hMem
      subst hMem
      rfl

end Grpc

end Ballista
