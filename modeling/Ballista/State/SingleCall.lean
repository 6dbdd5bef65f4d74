import Ballista.State.ConcurrentCalls

/-
  The step-by-step calls of `ConcurrentCalls` against the
  sequential calls of `ExecutorManager`, on a healthy backend. A
  `reserve_slots` or `cancel_reservations` call whose steps run
  with no other call's step in between ends where the sequential
  call ends: the same ledgers committed and, for `reserve_slots`,
  the same reservations handed out. The two models of
  `executor_manager.rs` agree, so a race between calls comes from
  the interleaving, not from the steps.

  Main declarations:
    * `step_reserveIterate`, `step_reserveCommit`, `step_cancelCommit`
    * `run_reserveLooping`, `run_cancelLooping`
    * `reserveSlots_alone_matches_sequential`
    * `cancelReservations_alone_matches_sequential`
-/

------------------------------------------------------------
-- One Call Running Alone
------------------------------------------------------------

namespace Ballista

namespace ConcurrentCalls

open ExecutorManager

variable {registerLocks : Bool}
variable {c : Cluster}
variable {i : Nat}

/- The commit of a reserve loop with no executor left. -/
theorem step_reserveCommit
    {desired : Nat}
    {reservations : List ExecutorReservation}
    {txnOps : List (String × ExecutorData)}
    {snapshot : List String}
    {requested : Nat}
    (hCall : c.calls[i]? = some
      (.reserveLooping [] desired reservations txnOps snapshot requested)) :
    step registerLocks c (.advance i) =
      some { c with
        slots := applyTxn c.slots txnOps
        slotsLocked := false
        outstanding := c.outstanding ++ reservations
        calls := c.calls.set i .done } := by
  simp only [step, hCall, Option.some_bind]
  rfl

/- A turn of a reserve loop queues the plan step of the executor it reads. -/
theorem step_reserveIterate
    {executorId : String}
    {aliveExecutors : List String}
    {desired : Nat}
    {reservations : List ExecutorReservation}
    {txnOps : List (String × ExecutorData)}
    {snapshot : List String}
    {requested : Nat}
    (hCall : c.calls[i]? = some (.reserveLooping (executorId :: aliveExecutors) desired
      reservations txnOps snapshot requested)) :
    step registerLocks c (.advance i) =
      some { c with
        calls := c.calls.set i (.reserveLooping
          (if desired - min (availableTaskSlots c.slots executorId) desired = 0 then []
            else aliveExecutors)
          (desired - min (availableTaskSlots c.slots executorId) desired)
          (reservations ++ List.replicate (min (availableTaskSlots c.slots executorId) desired)
            (ExecutorReservation.newFree executorId))
          (txnOps ++ planTxnOps c.slots
            [(executorId, min (availableTaskSlots c.slots executorId) desired)])
          snapshot requested) } := by
  simp only [step, hCall, Option.some_bind]
  rfl

/- The commit of a cancel loop with no reservation left. -/
theorem step_cancelCommit
    {executorSlots : List (String × ExecutorData)}
    {cancelling : List ExecutorReservation}
    (hCall : c.calls[i]? = some (.cancelLooping [] executorSlots cancelling)) :
    step registerLocks c (.advance i) =
      some { c with
        slots := applyTxn c.slots executorSlots
        slotsLocked := false
        calls := c.calls.set i .done } := by
  simp only [step, hCall, Option.some_bind]
  rfl

/- A call's entry after a step that replaces it and may move the lock. -/
theorem getElem?_calls_set
    {call : Call}
    (hCall : c.calls[i]? = some call)
    (locked : Bool)
    (new : Call) :
    ({ c with slotsLocked := locked, calls := c.calls.set i new } : Cluster).calls[i]? =
      some new :=
  List.getElem?_set_self (lt_length_of_getElem? hCall)

/-
  A reserve loop running alone commits what is left of its plan
  on the ledger it reads, after what it has queued.
-/
theorem run_reserveLooping
    (registerLocks : Bool)
    (i : Nat) :
    ∀ (aliveExecutors : List String) (desired : Nat)
      (reservations : List ExecutorReservation)
      (txnOps : List (String × ExecutorData)) (snapshot : List String) (requested : Nat)
      (c : Cluster),
      c.calls[i]? = some
        (.reserveLooping aliveExecutors desired reservations txnOps snapshot requested) →
      run registerLocks c
          (List.replicate ((reservePlan c.slots aliveExecutors desired).length + 1)
            (.advance i)) =
        some { c with
          slots := applyTxn c.slots
            (txnOps ++ planTxnOps c.slots (reservePlan c.slots aliveExecutors desired))
          slotsLocked := false
          outstanding := c.outstanding ++
            (reservations ++ planReservations (reservePlan c.slots aliveExecutors desired))
          calls := c.calls.set i .done }
| [], desired, reservations, txnOps, snapshot, requested, c, hCall => by
    simp [run, runSteps, step_reserveCommit hCall, reservePlan, planTxnOps, planReservations]
| executorId :: aliveExecutors, desired, reservations, txnOps, snapshot, requested, c,
    hCall => by
    have hTurn : step registerLocks c (.advance i) = _ := step_reserveIterate hCall
    rw [List.replicate_succ, run, runSteps_cons_of_step hTurn]
    by_cases hStop : desired - min (availableTaskSlots c.slots executorId) desired = 0
    · -- the executor read covers what is still desired: the next turn commits
      simp only [reservePlan, availableTaskSlots] at hStop
      simp only [reservePlan, availableTaskSlots, if_pos hStop, List.length_singleton,
        List.replicate_one]
      rw [runSteps_cons_of_step (step_reserveCommit (getElem?_calls_set hCall _ _))]
      simp [runSteps, planTxnOps, planReservations, availableTaskSlots]
    · rw [if_neg hStop] at hTurn ⊢
      simp only [reservePlan, availableTaskSlots] at hStop ⊢
      rw [if_neg hStop, List.length_cons, ← run]
      refine (run_reserveLooping registerLocks i aliveExecutors _ _ _ _ _ _
        (getElem?_calls_set hCall _ _)).trans ?_
      simp [planTxnOps, planReservations, availableTaskSlots]

/-
  A cancel loop running alone commits the map the coalescing loop
  of `cancel_reservations` ends with from where the call stands.
-/
theorem run_cancelLooping
    (registerLocks : Bool)
    (i : Nat) :
    ∀ (reservations : List ExecutorReservation)
      (executorSlots : List (String × ExecutorData))
      (cancelling : List ExecutorReservation) (c : Cluster)
      (result : List (String × ExecutorData)),
      c.calls[i]? = some (.cancelLooping reservations executorSlots cancelling) →
      cancelReservationsLoop Faults.healthy c.slots reservations executorSlots = .ok result →
      run registerLocks c (List.replicate (reservations.length + 1) (.advance i)) =
        some { c with
          slots := applyTxn c.slots result
          slotsLocked := false
          calls := c.calls.set i .done }
| [], executorSlots, cancelling, c, result, hCall, hLoop => by
    simp only [cancelReservationsLoop, Except.ok.injEq] at hLoop
    subst hLoop
    simp [run, runSteps, step_cancelCommit hCall]
| reservation :: reservations, executorSlots, cancelling, c, result, hCall, hLoop => by
    rw [cancelReservationsLoop_healthy_cons] at hLoop
    have hTurn : step registerLocks c (.advance i) = some { c with
        calls := c.calls.set i (.cancelLooping reservations
          (match executorSlots.lookup reservation.executorId with
          | some _ => bumpEntry reservation.executorId executorSlots
          | none => executorSlots ++ [(reservation.executorId,
              returnSlots (decodeExecutorData (c.slots reservation.executorId)) 1)])
          cancelling) } := by
      simp only [step, hCall, Option.some_bind]
      rfl
    rw [List.replicate_succ, run, runSteps_cons_of_step hTurn, List.length_cons, ← run]
    refine (run_cancelLooping registerLocks i reservations _ cancelling _ result
      (getElem?_calls_set hCall _ _) hLoop).trans ?_
    simp

/-
  A `reserve_slots` call that runs alone from its read of the alive
  set to its commit ends where the sequential `reserve_slots` ends
  on the ledger it reads: it hands out the same reservations and
  commits the same ledgers, under either locking discipline.
-/
theorem reserveSlots_alone_matches_sequential
    (registerLocks : Bool)
    (c : Cluster)
    (i n now : Nat)
    (aliveExecutors : List String)
    (hCall : c.calls[i]? = some (.reserveLocked n))
    (hIteration : aliveExecutors.Perm
      (getAliveExecutorsWithinOneMinute c.executorsHeartbeat now)) :
    ∃ (steps : Nat) (reservations : List ExecutorReservation),
      (reserveSlots Faults.healthy c.slots aliveExecutors n).1 = .ok reservations ∧
      run registerLocks c (.snapshotAlive i aliveExecutors now :: List.replicate steps (.advance i)) =
        some { c with
          slots := (reserveSlots Faults.healthy c.slots aliveExecutors n).2
          slotsLocked := false
          outstanding := c.outstanding ++ reservations
          calls := c.calls.set i .done } := by
  have hSnapshot : step registerLocks c (.snapshotAlive i aliveExecutors now) =
      some { c with
        calls := c.calls.set i (.reserveLooping aliveExecutors n [] [] aliveExecutors n) } := by
    simp [step, hCall, hIteration]
  refine ⟨(reservePlan c.slots aliveExecutors n).length + 1,
    planReservations (reservePlan c.slots aliveExecutors n), ?_, ?_⟩
  · rw [reserveSlots_healthy]
  · rw [run, runSteps_cons_of_step hSnapshot, ← run,
      run_reserveLooping registerLocks i aliveExecutors n [] [] aliveExecutors n _
        (getElem?_calls_set hCall _ _), reserveSlots_healthy]
    simp

/-
  One executor with two free slots, alive at the read, and a call
  asking for one slot.
-/
theorem reserveSlots_alone_matches_sequential_one_executor :
    ∃ (c : Cluster) (i n now : Nat) (aliveExecutors : List String),
      c.calls[i]? = some (.reserveLocked n) ∧
      aliveExecutors.Perm (getAliveExecutorsWithinOneMinute c.executorsHeartbeat now) ∧
      ∃ (steps : Nat) (reservations : List ExecutorReservation),
        (reserveSlots Faults.healthy c.slots aliveExecutors n).1 = .ok reservations ∧
        run true c (.snapshotAlive i aliveExecutors now :: List.replicate steps (.advance i)) =
          some { c with
            slots := (reserveSlots Faults.healthy c.slots aliveExecutors n).2
            slotsLocked := false
            outstanding := c.outstanding ++ reservations
            calls := c.calls.set i .done } :=
  ⟨⟨Function.update (fun _ => none) "executor-1" (some ⟨"executor-1", 2, 2⟩),
      [("executor-1", ⟨"executor-1", 100⟩)], true, [.reserveLocked 1], [], []⟩,
    0, 1, 100, ["executor-1"], rfl, by decide,
    reserveSlots_alone_matches_sequential true _ 0 1 100 ["executor-1"] rfl (by decide)⟩

/-
  A `cancel_reservations` call that runs alone from taking the free
  lock to its commit ends where the sequential `cancel_reservations`
  ends: it succeeds and commits the same ledgers, under either
  locking discipline.
-/
theorem cancelReservations_alone_matches_sequential
    (registerLocks : Bool)
    (c : Cluster)
    (i : Nat)
    (reservations : List ExecutorReservation)
    (hCall : c.calls[i]? = some (.cancelWaiting reservations))
    (hFree : c.slotsLocked = false) :
    (cancelReservations Faults.healthy c.slots reservations).1 = .ok () ∧
      run registerLocks c (List.replicate (reservations.length + 2) (.advance i)) =
        some { c with
          slots := (cancelReservations Faults.healthy c.slots reservations).2
          calls := c.calls.set i .done } := by
  obtain ⟨executorSlots, hLoop⟩ :=
    cancelReservationsLoop_healthy_ok c.slots reservations []
  have hLock : step registerLocks c (.advance i) = some { c with
      slotsLocked := true
      calls := c.calls.set i (.cancelLooping reservations [] reservations) } := by
    simp only [step, hCall, Option.some_bind, advanceCall, hFree, Bool.false_eq_true, if_false]
  rw [cancelReservations_healthy c.slots reservations executorSlots hLoop]
  refine ⟨rfl, ?_⟩
  rw [List.replicate_succ, run, runSteps_cons_of_step hLock, ← run,
    run_cancelLooping registerLocks i reservations [] reservations _ executorSlots
      (getElem?_calls_set hCall _ _) hLoop]
  simp [hFree]

/- One reservation handed back to an executor with one of two slots free. -/
theorem cancelReservations_alone_matches_sequential_one_reservation :
    ∃ (c : Cluster) (i : Nat) (reservations : List ExecutorReservation),
      c.calls[i]? = some (.cancelWaiting reservations) ∧ c.slotsLocked = false ∧
      (cancelReservations Faults.healthy c.slots reservations).1 = .ok () ∧
      run true c (List.replicate (reservations.length + 2) (.advance i)) =
        some { c with
          slots := (cancelReservations Faults.healthy c.slots reservations).2
          calls := c.calls.set i .done } :=
  ⟨⟨Function.update (fun _ => none) "executor-1" (some ⟨"executor-1", 2, 1⟩), [], false,
      [.cancelWaiting [ExecutorReservation.newFree "executor-1"]], [], []⟩,
    0, [ExecutorReservation.newFree "executor-1"], rfl, rfl,
    cancelReservations_alone_matches_sequential true _ 0 _ rfl rfl⟩

end ConcurrentCalls

end Ballista
