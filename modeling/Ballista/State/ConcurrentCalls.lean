import Ballista.State.ExecutorManager

/-
  Concurrent `register_executor`, `reserve_slots` and
  `cancel_reservations` calls of one `ExecutorManager`, step by
  step. A step is one action that another call can observe:
    * a heartbeat inserted into the cache,
    * the global `Slots` lock taken,
    * the alive set read from the cache,
    * one `get` of a ledger,
    * a `put` to `Slots`,
    * a `put_txn` together with the release of the lock after it.
  Calls are numbered in the order they start and keep their number
  once done.

  The backend is healthy here; failures of single calls are the
  business of `ExecutorManager`. Ghost state records the
  reservations handed out and not yet cancelled, and the executors
  whose registration has begun, with their totals.

  `registerLocks` selects the discipline for `register_executor`'s
  put to `Slots`. The code (`false`) puts without the `Slots` lock;
  with `true` the put waits until the lock is free.

  Main declarations:
    * `Call`, `Cluster`, `Action`, `step`, `run`
    * `Quiescent`, `Conserved`, `ConservedAtRegistration`
    * `registerExecutor_races_reserveSlots`
-/

------------------------------------------------------------
-- Calls and Their Steps
------------------------------------------------------------

namespace Ballista

namespace ConcurrentCalls

open ExecutorManager

/- Where one call stands. -/
inductive Call
/- `register_executor` after its heartbeat is cached, before its put. -/
| registerSaving (specification : ExecutorData) (reserve : Bool)
/- `reserve_slots(n)` waiting for the `Slots` lock. -/
| reserveWaiting (n : Nat)
/- `reserve_slots(n)` holding the lock, before it reads the alive set. -/
| reserveLocked (n : Nat)
/-
  `reserve_slots` in its loop: executors left, slots still desired,
  what it has queued, and (ghost) the alive set it read and the
  slots it was asked for.
-/
| reserveLooping
    (aliveExecutors : List String)
    (desired : Nat)
    (reservations : List ExecutorReservation)
    (txnOps : List (String × ExecutorData))
    (snapshot : List String)
    (requested : Nat)
/- `cancel_reservations(R)` waiting for the `Slots` lock. -/
| cancelWaiting (reservations : List ExecutorReservation)
/-
  `cancel_reservations` in its loop: reservations left, local map,
  and (ghost) every reservation the call cancels.
-/
| cancelLooping
    (reservations : List ExecutorReservation)
    (executorSlots : List (String × ExecutorData))
    (cancelling : List ExecutorReservation)
/- The call has returned. -/
| done
deriving DecidableEq, Repr

/- The shared state and the ghost state of a run. -/
structure Cluster where
  slots : SlotsKeyspace
  executorsHeartbeat : HeartbeatCache
  slotsLocked : Bool
  calls : List Call
  outstanding : List ExecutorReservation
  registered : List (String × Nat)

/- A fresh scheduler over an empty store. -/
def Cluster.initial : Cluster :=
  ⟨fun _ => none, [], false, [], [], []⟩

/- What a run can do next. -/
inductive Action
/-
  Start `register_executor` for a new executor whose free slots
  equal its total, a `u32`. The call saves its heartbeat at
  `timestamp`.
-/
| registerExecutor
    (executorId : String)
    (totalTaskSlots : Nat)
    (reserve : Bool)
    (timestamp : Nat)
/- Start `reserve_slots(n)`. -/
| reserveSlots (n : Nat)
/- Start `cancel_reservations(R)` on reservations handed out before. -/
| cancelReservations (reservations : List ExecutorReservation)
/- Call `call` reads the alive set at unix time `now`, in the given order. -/
| snapshotAlive (call : Nat) (aliveExecutors : List String) (now : Nat)
/- Call `call` takes its next step. -/
| advance (call : Nat)
deriving DecidableEq, Repr

/-
  The next step of call `i`, standing at `call`. A call that must
  wait, or that has returned, cannot step.
-/
def advanceCall
    (registerLocks : Bool)
    (c : Cluster)
    (i : Nat) :
    Call → Option Cluster
| .registerSaving specification reserve =>
    if registerLocks && c.slotsLocked then none
    else
      some { c with
        slots := Function.update c.slots specification.executorId
          (some (if reserve then { specification with availableTaskSlots := 0 }
            else specification))
        outstanding := c.outstanding ++
          (if reserve then
            List.replicate specification.availableTaskSlots
              (ExecutorReservation.newFree specification.executorId)
          else [])
        calls := c.calls.set i .done }
| .reserveWaiting n =>
    if c.slotsLocked then none
    else some { c with slotsLocked := true, calls := c.calls.set i (.reserveLocked n) }
| .reserveLocked _ => none
| .reserveLooping [] _ reservations txnOps _ _ =>
    some { c with
      slots := applyTxn c.slots txnOps
      slotsLocked := false
      outstanding := c.outstanding ++ reservations
      calls := c.calls.set i .done }
| .reserveLooping (executorId :: aliveExecutors) desired reservations txnOps snapshot
    requested =>
    let data := decodeExecutorData (c.slots executorId)
    let take := min data.availableTaskSlots desired
    some { c with
      calls := c.calls.set i (.reserveLooping
        (if desired - take = 0 then [] else aliveExecutors)
        (desired - take)
        (reservations ++ List.replicate take (ExecutorReservation.newFree executorId))
        (txnOps ++ [(executorId,
          { data with availableTaskSlots := data.availableTaskSlots - take })])
        snapshot requested) }
| .cancelWaiting reservations =>
    if c.slotsLocked then none
    else
      some { c with
        slotsLocked := true
        calls := c.calls.set i (.cancelLooping reservations [] reservations) }
| .cancelLooping [] executorSlots _ =>
    some { c with
      slots := applyTxn c.slots executorSlots
      slotsLocked := false
      calls := c.calls.set i .done }
| .cancelLooping (reservation :: reservations) executorSlots cancelling =>
    some { c with
      calls := c.calls.set i (.cancelLooping reservations
        (match executorSlots.lookup reservation.executorId with
        | some _ => bumpEntry reservation.executorId executorSlots
        | none => executorSlots ++ [(reservation.executorId,
            returnSlots (decodeExecutorData (c.slots reservation.executorId)) 1)])
        cancelling) }
| .done => none

/- One step of a run, if the action is enabled. -/
def step
    (registerLocks : Bool)
    (c : Cluster) :
    Action → Option Cluster
| .registerExecutor executorId totalTaskSlots reserve timestamp =>
    if executorId ∈ c.registered.map Prod.fst ∨ 2 ^ 32 ≤ totalTaskSlots then none
    else
      some { c with
        executorsHeartbeat := insertHeartbeat c.executorsHeartbeat executorId
          ⟨executorId, timestamp⟩
        registered := c.registered ++ [(executorId, totalTaskSlots)]
        calls := c.calls ++
          [.registerSaving ⟨executorId, totalTaskSlots, totalTaskSlots⟩ reserve] }
| .reserveSlots n =>
    some { c with calls := c.calls ++ [.reserveWaiting n] }
| .cancelReservations reservations =>
    if reservations.Subperm c.outstanding then
      some { c with
        outstanding := c.outstanding.diff reservations
        calls := c.calls ++ [.cancelWaiting reservations] }
    else none
| .snapshotAlive i aliveExecutors now =>
    match c.calls[i]? with
    | some (.reserveLocked n) =>
        if aliveExecutors.Perm
            (getAliveExecutorsWithinOneMinute c.executorsHeartbeat now) then
          some { c with
            calls := c.calls.set i (.reserveLooping aliveExecutors n [] [] aliveExecutors n) }
        else none
    | _ => none
| .advance i =>
    c.calls[i]?.bind (advanceCall registerLocks c i)

/- A run of actions, stopping at the first one not enabled. -/
def run
    (registerLocks : Bool) :
    Cluster → List Action → Option Cluster :=
  runSteps (step registerLocks)

/- No call is in flight. -/
def Quiescent
    (c : Cluster) : Prop :=
  ∀ call ∈ c.calls, call = .done

/-
  Every registered executor's free slots and outstanding
  reservations add up to the total its ledger records.
-/
def Conserved
    (c : Cluster) : Prop :=
  ∀ entry ∈ c.registered,
    availableTaskSlots c.slots entry.1 +
        reservationCount entry.1 c.outstanding =
      totalTaskSlots c.slots entry.1

/-
  Every registered executor's free slots and outstanding
  reservations add up to the total it registered with.
-/
def ConservedAtRegistration
    (c : Cluster) : Prop :=
  ∀ entry ∈ c.registered,
    availableTaskSlots c.slots entry.1 +
        reservationCount entry.1 c.outstanding =
      entry.2

instance (c : Cluster) : Decidable (Quiescent c) :=
  inferInstanceAs (Decidable (∀ _ ∈ _, _))

instance (c : Cluster) : Decidable (Conserved c) :=
  inferInstanceAs (Decidable (∀ _ ∈ _, _))

instance (c : Cluster) : Decidable (ConservedAtRegistration c) :=
  inferInstanceAs (Decidable (∀ _ ∈ _, _))

end ConcurrentCalls

end Ballista

------------------------------------------------------------
-- Registration Races a Reservation
------------------------------------------------------------

namespace Ballista

namespace ConcurrentCalls

/-
  Two executors register, one with `reserve = true` and one
  without, and a `reserve_slots(1)` runs between their heartbeats
  and their puts. The reservation reads both ledgers while they are
  still absent, so it queues their default records. Its `put_txn`
  then lands after both registrations have written. At rest,
  executor 1 has one reservation out against a ledger of zero
  slots, and executor 2's slot is gone, so both readings of the
  total fail.
-/
theorem registerExecutor_races_reserveSlots :
    ∃ c,
      run false Cluster.initial
          [.registerExecutor "executor-1" 1 true 100,
            .registerExecutor "executor-2" 1 false 100,
            .reserveSlots 1,
            .advance 2,
            .snapshotAlive 2 ["executor-1", "executor-2"] 100,
            .advance 2,
            .advance 2,
            .advance 0,
            .advance 1,
            .advance 2] = some c ∧
        Quiescent c ∧ ¬ Conserved c ∧ ¬ ConservedAtRegistration c :=
  ⟨_, rfl, by decide, by decide, by decide⟩

end ConcurrentCalls

end Ballista
