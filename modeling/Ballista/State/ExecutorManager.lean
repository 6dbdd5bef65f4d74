import Ballista.State.Backend

/-
  `ExecutorManager` of `state/executor_manager.rs`, one request at
  a time: liveness from the heartbeat cache, `reserve_slots` and
  `cancel_reservations` over the `Slots` keyspace.

  A hash set or map is a list of its entries in iteration order.
  `reserve_slots` walks the alive set in whatever order the set
  yields it, so the model takes that order as an argument and the
  theorems quantify over every permutation of the alive set.

  Main declarations:
    * `getAliveExecutors`, `getAliveExecutorsWithinOneMinute`
    * `reserveSlotsLoop`, `reserveSlots`
    * `reservePlan` and `reserveSlots_ok_eq`
    * `reserveSlots_reserves_min`
    * `cancelReservationsLoop`, `cancelReservations`
    * `cancelReservations_ok_slots`, `cancelReservations_undoes_reserveSlots`
    * `cancelReservations_wraps_at_u32_max`
    * `failed_call_leaves_slots`
    * `reserveSlots_healthy`, `cancelReservations_healthy`
-/

------------------------------------------------------------
-- Liveness
------------------------------------------------------------

namespace Ballista

namespace ExecutorManager

/- The heartbeat cache `executors_heartbeat`, in iteration order. -/
abbrev HeartbeatCache :=
  List (String × ExecutorHeartbeat)

/-
  `get_alive_executors`: the executors whose cached heartbeat is
  newer than the threshold, collected into a set.
-/
def getAliveExecutors
    (executorsHeartbeat : HeartbeatCache)
    (lastSeenTsThreshold : Nat) :
    List String :=
  ((executorsHeartbeat.filter (fun entry =>
      lastSeenTsThreshold < entry.2.timestamp)).map Prod.fst).dedup

/-
  `get_alive_executors_within_one_minute` at unix time `now`; the
  threshold saturates at zero as `checked_sub` does.
-/
def getAliveExecutorsWithinOneMinute
    (executorsHeartbeat : HeartbeatCache)
    (now : Nat) :
    List String :=
  getAliveExecutors executorsHeartbeat (now - 60)

/-
  `executors_heartbeat.insert(id, heartbeat)`: the new entry
  replaces any old one for the executor.
-/
def insertHeartbeat
    (executorsHeartbeat : HeartbeatCache)
    (executorId : String)
    (heartbeat : ExecutorHeartbeat) :
    HeartbeatCache :=
  (executorId, heartbeat) ::
    executorsHeartbeat.filter (fun entry => entry.1 ≠ executorId)

/- Dropping another executor's entries leaves this executor's answer. -/
theorem lookup_filter_key_ne
    {α : Type}
    (entries : List (String × α))
    {executorId other : String}
    (hOther : other ≠ executorId) :
    (entries.filter (fun entry => entry.1 ≠ executorId)).lookup other =
      entries.lookup other := by
  induction entries with
  | nil => rfl
  | cons entry entries ih =>
      obtain ⟨key, value⟩ := entry
      by_cases hKey : key = executorId
      · subst hKey
        simpa [List.filter_cons, hOther] using ih
      · by_cases hOtherKey : other = key
        · simp [List.filter_cons, hKey, hOtherKey]
        · simpa [List.filter_cons, hKey, hOtherKey] using ih

/- After an insert the cache answers the new heartbeat for its executor. -/
@[simp] theorem lookup_insertHeartbeat
    (executorsHeartbeat : HeartbeatCache)
    (executorId other : String)
    (heartbeat : ExecutorHeartbeat) :
    (insertHeartbeat executorsHeartbeat executorId heartbeat).lookup other =
      if other = executorId then some heartbeat
      else executorsHeartbeat.lookup other := by
  by_cases hOther : other = executorId
  · simp [insertHeartbeat, hOther]
  · simp only [insertHeartbeat, lookup_cons_ite, hOther, if_false]
    exact lookup_filter_key_ne _ hOther

/- The alive set has no repeated executor. -/
theorem getAliveExecutors_nodup
    (executorsHeartbeat : HeartbeatCache)
    (lastSeenTsThreshold : Nat) :
    (getAliveExecutors executorsHeartbeat lastSeenTsThreshold).Nodup :=
  List.nodup_dedup _

/-
  An executor is alive exactly when some cached heartbeat of it
  is newer than the threshold.
-/
theorem mem_getAliveExecutors
    (executorsHeartbeat : HeartbeatCache)
    (lastSeenTsThreshold : Nat)
    (executorId : String) :
    executorId ∈ getAliveExecutors executorsHeartbeat lastSeenTsThreshold ↔
      ∃ heartbeat, (executorId, heartbeat) ∈ executorsHeartbeat ∧
        lastSeenTsThreshold < heartbeat.timestamp := by
  simp [getAliveExecutors, List.mem_dedup]

end ExecutorManager

end Ballista

------------------------------------------------------------
-- reserve_slots
------------------------------------------------------------

namespace Ballista

namespace ExecutorManager

/-
  The loop of `reserve_slots` over the alive executors, under the
  `Slots` lock: read and decode each ledger, take what it can
  spare of the `desired` slots, queue the updated ledger, and stop
  once nothing more is desired. It only reads the keyspace.
-/
def reserveSlotsLoop
    (faults : Faults)
    (slots : SlotsKeyspace) :
    List String → Nat →
      Except BallistaError
        (List ExecutorReservation × List (String × ExecutorData))
| [], _ => .ok ([], [])
| executorId :: aliveExecutors, desired => do
    let value ← orFail (faults.get executorId) (slots executorId)
    let data ← orFail (faults.decode executorId)
      (decodeExecutorData value)
    let take := min data.availableTaskSlots desired
    let reserved :=
      List.replicate take (ExecutorReservation.newFree executorId)
    let newData ← orFail (faults.encode executorId)
      { data with availableTaskSlots := data.availableTaskSlots - take }
    if desired - take = 0 then
      pure (reserved, [(executorId, newData)])
    else do
      let (reservations, txnOps) ←
        reserveSlotsLoop faults slots aliveExecutors (desired - take)
      pure (reserved ++ reservations, (executorId, newData) :: txnOps)

/-
  `reserve_slots(n)`: take the global `Slots` lock, run the loop
  over the alive executors (`aliveExecutors`, in the set's
  iteration order) and commit every queued ledger in one
  `put_txn`. Returns the result and the keyspace after the call.
-/
def reserveSlots
    (faults : Faults)
    (slots : SlotsKeyspace)
    (aliveExecutors : List String)
    (n : Nat) :
    Except BallistaError (List ExecutorReservation) × SlotsKeyspace :=
  match orFail faults.lock () >>= fun _ =>
      reserveSlotsLoop faults slots aliveExecutors n with
  | .error error => (.error error, slots)
  | .ok (reservations, txnOps) =>
      ((putTxn faults slots txnOps).1.map (fun _ => reservations),
        (putTxn faults slots txnOps).2)

end ExecutorManager

end Ballista

------------------------------------------------------------
-- The Reservation Plan
------------------------------------------------------------

namespace Ballista

namespace ExecutorManager

/-
  What a fault-free run of the loop takes from each executor it
  visits, in visiting order.
-/
def reservePlan
    (slots : SlotsKeyspace) :
    List String → Nat → List (String × Nat)
| [], _ => []
| executorId :: aliveExecutors, desired =>
    let take := min (availableTaskSlots slots executorId) desired
    if desired - take = 0 then
      [(executorId, take)]
    else
      (executorId, take) :: reservePlan slots aliveExecutors (desired - take)

/- The reservations a plan hands out, in order. -/
def planReservations
    (plan : List (String × Nat)) :
    List ExecutorReservation :=
  plan.flatMap (fun step =>
    List.replicate step.2 (ExecutorReservation.newFree step.1))

/- The ledgers a plan writes back. -/
def planTxnOps
    (slots : SlotsKeyspace)
    (plan : List (String × Nat)) :
    List (String × ExecutorData) :=
  plan.map (fun step =>
    (step.1, { decodeExecutorData (slots step.1) with
      availableTaskSlots := availableTaskSlots slots step.1 - step.2 }))

/- A successful loop is its plan: faults can only stop it. -/
theorem reserveSlotsLoop_ok
    (faults : Faults)
    (slots : SlotsKeyspace)
    (aliveExecutors : List String)
    (desired : Nat)
    (reservations : List ExecutorReservation)
    (txnOps : List (String × ExecutorData))
    (hOk : reserveSlotsLoop faults slots aliveExecutors desired =
      .ok (reservations, txnOps)) :
    reservations = planReservations (reservePlan slots aliveExecutors desired) ∧
      txnOps = planTxnOps slots (reservePlan slots aliveExecutors desired) := by
  induction aliveExecutors generalizing desired reservations txnOps with
  | nil =>
      simp only [reserveSlotsLoop, Except.ok.injEq, Prod.mk.injEq] at hOk
      simp [hOk, reservePlan, planReservations, planTxnOps]
  | cons executorId aliveExecutors ih =>
      simp only [reserveSlotsLoop] at hOk
      cases hGet : faults.get executorId <;>
        cases hDecode : faults.decode executorId <;>
        cases hEncode : faults.encode executorId <;>
        simp only [hGet, hDecode, hEncode, orFail_none, orFail_some,
          except_ok_bind, except_error_bind, reduceCtorEq] at hOk
      by_cases hStop :
          desired - min (availableTaskSlots slots executorId) desired = 0
      · simp only [availableTaskSlots] at hStop
        simp only [hStop, if_true, except_pure, Except.ok.injEq,
          Prod.mk.injEq] at hOk
        simp [← hOk.1, ← hOk.2, reservePlan, availableTaskSlots, hStop,
          planReservations, planTxnOps]
      · simp only [availableTaskSlots] at hStop
        simp only [hStop, if_false] at hOk
        cases hRest : reserveSlotsLoop faults slots aliveExecutors
            (desired - min
              (decodeExecutorData (slots executorId)).availableTaskSlots
              desired) with
        | error error => simp [hRest] at hOk
        | ok rest =>
            obtain ⟨hReservations, hTxnOps⟩ := ih _ rest.1 rest.2 hRest
            simp only [hRest, except_ok_bind, except_pure, Except.ok.injEq,
              Prod.mk.injEq] at hOk
            simp [← hOk.1, ← hOk.2, reservePlan, availableTaskSlots, hStop,
              hReservations, hTxnOps, planReservations, planTxnOps]

/-
  A successful `reserve_slots` hands out its plan's reservations
  and commits its plan's ledgers in one transaction.
-/
theorem reserveSlots_ok_eq
    (faults : Faults)
    (slots slots' : SlotsKeyspace)
    (aliveExecutors : List String)
    (n : Nat)
    (reservations : List ExecutorReservation)
    (hOk : reserveSlots faults slots aliveExecutors n =
      (.ok reservations, slots')) :
    reservations = planReservations (reservePlan slots aliveExecutors n) ∧
      slots' = applyTxn slots
        (planTxnOps slots (reservePlan slots aliveExecutors n)) := by
  unfold reserveSlots at hOk
  cases hLock : faults.lock with
  | some error => simp [hLock] at hOk
  | none =>
      cases hLoop : reserveSlotsLoop faults slots aliveExecutors n with
      | error error => simp [hLock, hLoop] at hOk
      | ok result =>
          obtain ⟨hReservations, hTxnOps⟩ :=
            reserveSlotsLoop_ok faults slots aliveExecutors n
              result.1 result.2 hLoop
          simp only [hLock, hLoop, orFail_none, except_ok_bind,
            Prod.mk.injEq] at hOk
          unfold putTxn at hOk
          cases hPut : faults.putTxn <;>
            simp_all [Except.map]

/-
  The first turn of the loop heads the plan, and the plan of what
  the turn leaves is the rest.
-/
theorem reservePlan_cons
    (slots : SlotsKeyspace)
    (executorId : String)
    (aliveExecutors : List String)
    (desired : Nat) :
    reservePlan slots (executorId :: aliveExecutors) desired =
      (executorId, min (availableTaskSlots slots executorId) desired) ::
        reservePlan slots
          (if desired - min (availableTaskSlots slots executorId) desired = 0 then []
            else aliveExecutors)
          (desired - min (availableTaskSlots slots executorId) desired) := by
  simp only [reservePlan]
  split_ifs <;> rfl

/- The plan visits a prefix of the alive executors. -/
theorem reservePlan_visits_leading
    (slots : SlotsKeyspace)
    (aliveExecutors : List String)
    (desired : Nat) :
    (reservePlan slots aliveExecutors desired).map Prod.fst <+:
      aliveExecutors := by
  induction aliveExecutors generalizing desired with
  | nil => simp [reservePlan]
  | cons executorId aliveExecutors ih =>
      simp only [reservePlan]
      split
      · exact List.prefix_cons_inj _ |>.mpr (List.nil_prefix)
      · exact List.prefix_cons_inj _ |>.mpr (ih _)

/- The plan never takes more than an executor has free. -/
theorem reservePlan_le_available
    (slots : SlotsKeyspace)
    (aliveExecutors : List String)
    (desired : Nat)
    (step : String × Nat)
    (hStep : step ∈ reservePlan slots aliveExecutors desired) :
    step.2 ≤ availableTaskSlots slots step.1 := by
  induction aliveExecutors generalizing desired with
  | nil => simp [reservePlan] at hStep
  | cons executorId aliveExecutors ih =>
      simp only [reservePlan] at hStep
      split at hStep
      · rw [List.mem_singleton.mp hStep]
        exact min_le_left _ _
      · rcases List.mem_cons.mp hStep with hHead | hTail
        · rw [hHead]
          exact min_le_left _ _
        · exact ih _ hTail

/-
  The plan takes `min desired (free slots of the alive set)`
  slots in all.
-/
theorem reservePlan_sum
    (slots : SlotsKeyspace)
    (aliveExecutors : List String)
    (desired : Nat) :
    ((reservePlan slots aliveExecutors desired).map Prod.snd).sum =
      min desired
        ((aliveExecutors.map (availableTaskSlots slots)).sum) := by
  induction aliveExecutors generalizing desired with
  | nil => simp [reservePlan]
  | cons executorId aliveExecutors ih =>
      simp only [reservePlan, List.map_cons, List.sum_cons]
      split
      · simp
        omega
      · simp only [List.map_cons, List.sum_cons, ih]
        omega

@[simp] theorem planReservations_nil :
    planReservations [] = [] :=
  rfl

@[simp] theorem planReservations_cons
    (step : String × Nat)
    (plan : List (String × Nat)) :
    planReservations (step :: plan) =
      List.replicate step.2 (ExecutorReservation.newFree step.1) ++
        planReservations plan :=
  rfl

/- How many slots a plan hands out. -/
theorem length_planReservations
    (plan : List (String × Nat)) :
    (planReservations plan).length = (plan.map Prod.snd).sum := by
  induction plan with
  | nil => rfl
  | cons step plan ih =>
      simp [ih]

/- A plan's reservations are free and name visited executors. -/
theorem mem_planReservations
    (plan : List (String × Nat))
    (reservation : ExecutorReservation)
    (hMem : reservation ∈ planReservations plan) :
    ∃ step ∈ plan, reservation = ExecutorReservation.newFree step.1 := by
  obtain ⟨step, hStep, hIn⟩ := List.mem_flatMap.mp hMem
  exact ⟨step, hStep, List.eq_of_mem_replicate hIn⟩

/- A plan names no executor it does not visit. -/
theorem reservationCount_planReservations_of_not_mem
    (plan : List (String × Nat))
    (executorId : String)
    (hAbsent : executorId ∉ plan.map Prod.fst) :
    reservationCount executorId (planReservations plan) = 0 := by
  induction plan with
  | nil => rfl
  | cons step plan ih =>
      simp only [List.map_cons, List.mem_cons, not_or] at hAbsent
      simp [ih hAbsent.2, Ne.symm hAbsent.1]

/-
  A plan visiting each executor once names a visited executor
  exactly as often as it takes from it.
-/
theorem reservationCount_planReservations_of_mem
    (plan : List (String × Nat))
    (executorId : String)
    (take : Nat)
    (hNodup : (plan.map Prod.fst).Nodup)
    (hMem : (executorId, take) ∈ plan) :
    reservationCount executorId (planReservations plan) = take := by
  induction plan with
  | nil => cases hMem
  | cons step plan ih =>
      simp only [List.map_cons, List.nodup_cons] at hNodup
      rw [planReservations_cons, reservationCount_append,
        reservationCount_replicate_newFree]
      rcases List.mem_cons.mp hMem with hHead | hTail
      · subst hHead
        simp [reservationCount_planReservations_of_not_mem _ _ hNodup.1]
      · have hNe : step.1 ≠ executorId := fun hEq =>
          hNodup.1 (hEq ▸ List.mem_map_of_mem Prod.fst hTail)
        simp [hNe, ih hNodup.2 hTail]

/- The ledgers a plan writes are keyed by the executors it visits. -/
theorem planTxnOps_keys
    (slots : SlotsKeyspace)
    (plan : List (String × Nat)) :
    (planTxnOps slots plan).map Prod.fst = plan.map Prod.fst := by
  simp [planTxnOps]

/- A plan leaves the ledger of every executor it skips alone. -/
theorem applyTxn_planTxnOps_of_not_mem
    (slots : SlotsKeyspace)
    (plan : List (String × Nat))
    (executorId : String)
    (hAbsent : executorId ∉ plan.map Prod.fst) :
    applyTxn slots (planTxnOps slots plan) executorId = slots executorId :=
  applyTxn_of_not_mem _ _ _ (by rwa [planTxnOps_keys])

/-
  Committing a plan that visits each executor once, within its
  free slots, moves exactly the planned slots from each ledger to
  the reservations and keeps every total.
-/
theorem applyTxn_planTxnOps
    (slots : SlotsKeyspace)
    (plan : List (String × Nat))
    (hNodup : (plan.map Prod.fst).Nodup)
    (hLe : ∀ step ∈ plan, step.2 ≤ availableTaskSlots slots step.1)
    (executorId : String) :
    availableTaskSlots (applyTxn slots (planTxnOps slots plan)) executorId +
        reservationCount executorId (planReservations plan) =
      availableTaskSlots slots executorId ∧
    totalTaskSlots (applyTxn slots (planTxnOps slots plan)) executorId =
      totalTaskSlots slots executorId := by
  by_cases hPlanned : executorId ∈ plan.map Prod.fst
  · obtain ⟨⟨_, take⟩, hStep, rfl⟩ := List.mem_map.mp hPlanned
    have hWritten := applyTxn_of_mem slots (planTxnOps slots plan) _ _
      (by rwa [planTxnOps_keys]) (List.mem_map_of_mem _ hStep)
    have hTake := hLe _ hStep
    simp only [availableTaskSlots, totalTaskSlots, hWritten,
      decodeExecutorData] at hTake ⊢
    rw [reservationCount_planReservations_of_mem plan _ take hNodup hStep]
    exact ⟨by omega, trivial⟩
  · simp [availableTaskSlots, totalTaskSlots,
      applyTxn_planTxnOps_of_not_mem slots plan executorId hPlanned,
      reservationCount_planReservations_of_not_mem _ _ hPlanned]

/-
  `reserve_slots(n)`, when it returns `Ok(R)`, reserves
  `min n (free slots of the alive executors)` free slots on alive
  executors, lowers each alive executor's free slots by exactly
  its share of `R` (never past zero) with its total unchanged,
  and leaves every other executor's ledger untouched; this holds
  in every iteration order of the alive set.
-/
theorem reserveSlots_reserves_min
    (faults : Faults)
    (slots slots' : SlotsKeyspace)
    (executorsHeartbeat : HeartbeatCache)
    (now n : Nat)
    (aliveExecutors : List String)
    (reservations : List ExecutorReservation)
    (hIteration : aliveExecutors.Perm
      (getAliveExecutorsWithinOneMinute executorsHeartbeat now))
    (hOk : reserveSlots faults slots aliveExecutors n =
      (.ok reservations, slots')) :
    reservations.length =
        min n (((getAliveExecutorsWithinOneMinute executorsHeartbeat now).map
          (availableTaskSlots slots)).sum) ∧
      (∀ r ∈ reservations, r.jobId = none ∧
        r.executorId ∈ getAliveExecutorsWithinOneMinute executorsHeartbeat now) ∧
      (∀ executorId ∈ getAliveExecutorsWithinOneMinute executorsHeartbeat now,
        availableTaskSlots slots' executorId +
            reservationCount executorId reservations =
          availableTaskSlots slots executorId ∧
        totalTaskSlots slots' executorId = totalTaskSlots slots executorId) ∧
      (∀ executorId ∉ getAliveExecutorsWithinOneMinute executorsHeartbeat now,
        slots' executorId = slots executorId) := by
  obtain ⟨rfl, rfl⟩ := reserveSlots_ok_eq faults slots slots' aliveExecutors n
    reservations hOk
  set plan := reservePlan slots aliveExecutors n
  have hPrefix : plan.map Prod.fst <+: aliveExecutors :=
    reservePlan_visits_leading slots aliveExecutors n
  have hVisited : ∀ executorId ∈ plan.map Prod.fst,
      executorId ∈ getAliveExecutorsWithinOneMinute executorsHeartbeat now :=
    fun executorId hMem => hIteration.mem_iff.mp (hPrefix.subset hMem)
  have hNodup : (plan.map Prod.fst).Nodup :=
    hPrefix.sublist.nodup (hIteration.nodup_iff.mpr
      (getAliveExecutors_nodup _ _))
  refine ⟨?_, ?_, ?_, ?_⟩
  · rw [length_planReservations, reservePlan_sum,
      (hIteration.map _).sum_eq]
  · intro r hMem
    obtain ⟨step, hStep, rfl⟩ := mem_planReservations plan r hMem
    exact ⟨rfl, hVisited step.1 (List.mem_map_of_mem _ hStep)⟩
  · intro executorId _
    exact applyTxn_planTxnOps slots plan hNodup
      (fun step hStep => reservePlan_le_available slots aliveExecutors n step hStep)
      executorId
  · intro executorId hDead
    exact applyTxn_planTxnOps_of_not_mem slots plan executorId
      (fun hPlanned => hDead (hVisited executorId hPlanned))

/-
  One alive executor with four free slots, asked for two: two
  reservations, the whole request.
-/
theorem reserveSlots_reserves_min_one_executor :
    ["executor-1"].Perm (getAliveExecutorsWithinOneMinute
        [("executor-1", ⟨"executor-1", 100⟩)] 100) ∧
      (reserveSlots Faults.healthy
        (Function.update (fun _ => none) "executor-1"
          (some ⟨"executor-1", 4, 4⟩)) ["executor-1"] 2).1 =
        .ok [ExecutorReservation.newFree "executor-1",
          ExecutorReservation.newFree "executor-1"] ∧
      [ExecutorReservation.newFree "executor-1",
          ExecutorReservation.newFree "executor-1"].length =
        min 2 (((getAliveExecutorsWithinOneMinute
          [("executor-1", ⟨"executor-1", 100⟩)] 100).map
            (availableTaskSlots (Function.update (fun _ => none) "executor-1"
              (some ⟨"executor-1", 4, 4⟩)))).sum) :=
  ⟨by decide, by decide,
    (reserveSlots_reserves_min Faults.healthy
      (Function.update (fun _ => none) "executor-1"
        (some ⟨"executor-1", 4, 4⟩))
      (reserveSlots Faults.healthy
        (Function.update (fun _ => none) "executor-1"
          (some ⟨"executor-1", 4, 4⟩)) ["executor-1"] 2).2
      [("executor-1", ⟨"executor-1", 100⟩)] 100 2 ["executor-1"]
      [ExecutorReservation.newFree "executor-1",
        ExecutorReservation.newFree "executor-1"]
      (by decide) (Prod.ext (by decide) rfl)).1⟩

end ExecutorManager

end Ballista

------------------------------------------------------------
-- cancel_reservations
------------------------------------------------------------

namespace Ballista

namespace ExecutorManager

/- A ledger with `count` slots handed back, in `u32` arithmetic. -/
def returnSlots
    (data : ExecutorData)
    (count : Nat) :
    ExecutorData :=
  { data with
    availableTaskSlots := wrappingAdd data.availableTaskSlots count }

/- `get_mut` then `+= 1` on one executor's ledger in the local map. -/
def bumpEntry
    (executorId : String) :
    List (String × ExecutorData) → List (String × ExecutorData)
| [] => []
| (key, data) :: executorSlots =>
    if key = executorId then
      (key, returnSlots data 1) :: executorSlots
    else
      (key, data) :: bumpEntry executorId executorSlots

/-
  The loop of `cancel_reservations`, under the `Slots` lock: one
  ledger per executor in the local map `executor_slots`, read and
  decoded the first time the executor is seen, and incremented
  once per reservation naming it.
-/
def cancelReservationsLoop
    (faults : Faults)
    (slots : SlotsKeyspace) :
    List ExecutorReservation → List (String × ExecutorData) →
      Except BallistaError (List (String × ExecutorData))
| [], executorSlots => .ok executorSlots
| reservation :: reservations, executorSlots =>
    match executorSlots.lookup reservation.executorId with
    | some _ =>
        cancelReservationsLoop faults slots reservations
          (bumpEntry reservation.executorId executorSlots)
    | none => do
        let value ← orFail (faults.get reservation.executorId)
          (slots reservation.executorId)
        let data ← orFail (faults.decode reservation.executorId)
          (decodeExecutorData value)
        cancelReservationsLoop faults slots reservations
          (executorSlots ++ [(reservation.executorId, returnSlots data 1)])

/-
  Encoding every ledger of the local map; `collect` stops at the
  first failure.
-/
def encodeTxnOps
    (faults : Faults) :
    List (String × ExecutorData) →
      Except BallistaError (List (String × ExecutorData))
| [] => .ok []
| (executorId, data) :: executorSlots => do
    let newData ← orFail (faults.encode executorId) data
    let txnOps ← encodeTxnOps faults executorSlots
    pure ((executorId, newData) :: txnOps)

/-
  `cancel_reservations(R)`: take the global `Slots` lock, coalesce
  `R` into one ledger per executor, encode them and commit them in
  one `put_txn`. Returns the result and the keyspace after it.
-/
def cancelReservations
    (faults : Faults)
    (slots : SlotsKeyspace)
    (reservations : List ExecutorReservation) :
    Except BallistaError Unit × SlotsKeyspace :=
  match orFail faults.lock () >>= fun _ =>
      cancelReservationsLoop faults slots reservations [] >>=
        encodeTxnOps faults with
  | .error error => (.error error, slots)
  | .ok txnOps => putTxn faults slots txnOps

end ExecutorManager

end Ballista

------------------------------------------------------------
-- Coalescing Reservations
------------------------------------------------------------

namespace Ballista

namespace ExecutorManager

/- Handing back slots in two batches is handing back their sum. -/
@[simp] theorem returnSlots_returnSlots
    (data : ExecutorData)
    (first second : Nat) :
    returnSlots (returnSlots data first) second =
      returnSlots data (first + second) := by
  simp [returnSlots, wrappingAdd, Nat.add_assoc]

@[simp] theorem bumpEntry_keys
    (executorId : String)
    (executorSlots : List (String × ExecutorData)) :
    (bumpEntry executorId executorSlots).map Prod.fst =
      executorSlots.map Prod.fst := by
  induction executorSlots with
  | nil => rfl
  | cons entry executorSlots ih =>
      obtain ⟨key, data⟩ := entry
      by_cases hKey : key = executorId <;> simp [bumpEntry, hKey, ih]

/- Bumping an executor changes only its own entry. -/
theorem lookup_bumpEntry
    (executorId other : String)
    (executorSlots : List (String × ExecutorData)) :
    (bumpEntry executorId executorSlots).lookup other =
      if other = executorId then
        (executorSlots.lookup other).map (returnSlots · 1)
      else
        executorSlots.lookup other := by
  induction executorSlots with
  | nil => by_cases hOther : other = executorId <;> simp [bumpEntry, hOther]
  | cons entry executorSlots ih =>
      obtain ⟨key, data⟩ := entry
      by_cases hKey : key = executorId
      · subst hKey
        by_cases hOther : other = key <;> simp [bumpEntry, hOther]
      · have hKey' : executorId ≠ key := Ne.symm hKey
        by_cases hOther : other = key
        · subst hOther
          simp [bumpEntry, hKey]
        · simp [bumpEntry, hKey, hKey', hOther, ih]

/- Appending a fresh executor adds exactly its entry. -/
theorem lookup_append_fresh
    (executorId other : String)
    (data : ExecutorData)
    (executorSlots : List (String × ExecutorData))
    (hFresh : executorSlots.lookup executorId = none) :
    (executorSlots ++ [(executorId, data)]).lookup other =
      if other = executorId then some data
      else executorSlots.lookup other := by
  induction executorSlots with
  | nil => by_cases hOther : other = executorId <;> simp [hOther]
  | cons entry executorSlots ih =>
      obtain ⟨key, value⟩ := entry
      have hKey : executorId ≠ key := by
        intro hEq
        simp [hEq] at hFresh
      have hRest : executorSlots.lookup executorId = none := by
        simpa [hKey] using hFresh
      by_cases hOther : other = key
      · subst hOther
        simp [Ne.symm hKey]
      · simp [hOther, ih hRest]

/- A key without an entry is not among the keys, and back. -/
theorem lookup_eq_none_iff
    {α : Type}
    (executorId : String)
    (executorSlots : List (String × α)) :
    executorSlots.lookup executorId = none ↔
      executorId ∉ executorSlots.map Prod.fst := by
  induction executorSlots with
  | nil => simp
  | cons entry executorSlots ih =>
      obtain ⟨key, value⟩ := entry
      by_cases hKey : executorId = key <;> simp_all

/-
  The coalescing loop, on success, keeps one entry per executor
  and ends with each named executor's ledger handed back once per
  reservation naming it: the ledger already in the map if there
  was one, else the one read from the keyspace.
-/
theorem cancelReservationsLoop_ok
    (faults : Faults)
    (slots : SlotsKeyspace)
    (reservations : List ExecutorReservation)
    (executorSlots result : List (String × ExecutorData))
    (hNodup : (executorSlots.map Prod.fst).Nodup)
    (hOk : cancelReservationsLoop faults slots reservations executorSlots =
      .ok result) :
    (result.map Prod.fst).Nodup ∧
      ∀ executorId, result.lookup executorId =
        if reservationCount executorId reservations = 0 then
          executorSlots.lookup executorId
        else
          some (returnSlots
            ((executorSlots.lookup executorId).getD
              (decodeExecutorData (slots executorId)))
            (reservationCount executorId reservations)) := by
  induction reservations generalizing executorSlots with
  | nil =>
      simp only [cancelReservationsLoop, Except.ok.injEq] at hOk
      subst hOk
      simp [hNodup]
  | cons reservation reservations ih =>
      simp only [cancelReservationsLoop] at hOk
      cases hSeen : executorSlots.lookup reservation.executorId with
      | some seen =>
          simp only [hSeen] at hOk
          obtain ⟨hResultNodup, hResult⟩ :=
            ih _ (by rwa [bumpEntry_keys]) hOk
          refine ⟨hResultNodup, fun executorId => ?_⟩
          rw [hResult, lookup_bumpEntry]
          by_cases hNamed : reservation.executorId = executorId
          · subst hNamed
            by_cases hZero : reservationCount reservation.executorId
                reservations = 0 <;>
              simp [hSeen, hZero, Nat.add_comm]
          · have hNe : executorId ≠ reservation.executorId :=
              Ne.symm hNamed
            simp [hNamed, hNe]
      | none =>
          simp only [hSeen] at hOk
          cases hGet : faults.get reservation.executorId <;>
            cases hDecode : faults.decode reservation.executorId <;>
            simp only [hGet, hDecode, orFail_none, orFail_some,
              except_ok_bind, except_error_bind, reduceCtorEq] at hOk
          have hFresh := (lookup_eq_none_iff _ _).mp hSeen
          obtain ⟨hResultNodup, hResult⟩ := ih _
            (by
              rw [List.map_append, List.nodup_append]
              exact ⟨hNodup, by simp, by simpa using hFresh⟩) hOk
          refine ⟨hResultNodup, fun executorId => ?_⟩
          rw [hResult, lookup_append_fresh _ _ _ _ hSeen]
          by_cases hNamed : reservation.executorId = executorId
          · subst hNamed
            by_cases hZero : reservationCount reservation.executorId
                reservations = 0 <;>
              simp [hSeen, hZero, Nat.add_comm]
          · have hNe : executorId ≠ reservation.executorId :=
              Ne.symm hNamed
            simp [hNamed, hNe]

/- Encoding, when it succeeds, changes no ledger. -/
theorem encodeTxnOps_ok
    (faults : Faults)
    (executorSlots txnOps : List (String × ExecutorData))
    (hOk : encodeTxnOps faults executorSlots = .ok txnOps) :
    txnOps = executorSlots := by
  induction executorSlots generalizing txnOps with
  | nil =>
      simp only [encodeTxnOps, Except.ok.injEq] at hOk
      exact hOk.symm
  | cons entry executorSlots ih =>
      obtain ⟨executorId, data⟩ := entry
      simp only [encodeTxnOps] at hOk
      cases hEncode : faults.encode executorId with
      | some error => simp [hEncode] at hOk
      | none =>
          cases hRest : encodeTxnOps faults executorSlots with
          | error error => simp [hEncode, hRest] at hOk
          | ok rest =>
              simp only [hEncode, hRest, orFail_none, except_ok_bind,
                except_pure, Except.ok.injEq] at hOk
              rw [← hOk, ih rest hRest]

/-
  Committing the map of a successful coalescing loop started empty
  hands each named executor's slots back once per naming
  reservation and leaves every other ledger alone.
-/
theorem applyTxn_cancelReservationsLoop
    (faults : Faults)
    (slots : SlotsKeyspace)
    (reservations : List ExecutorReservation)
    (executorSlots : List (String × ExecutorData))
    (hLoop : cancelReservationsLoop faults slots reservations [] = .ok executorSlots)
    (executorId : String) :
    applyTxn slots executorSlots executorId =
      if reservationCount executorId reservations = 0 then slots executorId
      else some (returnSlots (decodeExecutorData (slots executorId))
        (reservationCount executorId reservations)) := by
  obtain ⟨hNodup, hLookup⟩ := cancelReservationsLoop_ok faults slots
    reservations [] executorSlots List.nodup_nil hLoop
  have hEntry := hLookup executorId
  split_ifs at hEntry ⊢ with hZero
  · exact applyTxn_of_not_mem _ _ _ ((lookup_eq_none_iff _ _).mp hEntry)
  · exact applyTxn_of_mem _ _ _ _ hNodup (mem_of_lookup_eq_some hEntry)

/-
  A successful `cancel_reservations` commits the ledgers its loop
  coalesced, in one transaction.
-/
theorem cancelReservations_ok_eq
    (faults : Faults)
    (slots slots' : SlotsKeyspace)
    (reservations : List ExecutorReservation)
    (hOk : cancelReservations faults slots reservations = (.ok (), slots')) :
    ∃ executorSlots,
      cancelReservationsLoop faults slots reservations [] = .ok executorSlots ∧
        slots' = applyTxn slots executorSlots := by
  unfold cancelReservations at hOk
  cases hLock : faults.lock with
  | some error => simp [hLock] at hOk
  | none =>
      cases hLoop : cancelReservationsLoop faults slots reservations [] with
      | error error => simp [hLock, hLoop] at hOk
      | ok executorSlots =>
          cases hEncode : encodeTxnOps faults executorSlots with
          | error error => simp [hLock, hLoop, hEncode] at hOk
          | ok txnOps =>
              simp only [hLock, hLoop, hEncode, orFail_none,
                except_ok_bind] at hOk
              rw [encodeTxnOps_ok faults executorSlots txnOps hEncode] at hOk
              exact ⟨executorSlots, rfl, putTxn_ok _ _ _ _ hOk⟩

/-
  `cancel_reservations(R)`, when it returns `Ok`, rewrites each
  executor `R` names with its slots handed back once per naming
  reservation in `u32` wrapping arithmetic (the unchecked `+= 1`),
  in whatever order `R` lists them, and leaves every other ledger
  untouched.
-/
theorem cancelReservations_ok_slots
    (faults : Faults)
    (slots slots' : SlotsKeyspace)
    (reservations : List ExecutorReservation)
    (hOk : cancelReservations faults slots reservations = (.ok (), slots'))
    (executorId : String) :
    (reservationCount executorId reservations = 0 →
      slots' executorId = slots executorId) ∧
    (0 < reservationCount executorId reservations →
      slots' executorId = some (returnSlots
        (decodeExecutorData (slots executorId))
        (reservationCount executorId reservations))) := by
  obtain ⟨executorSlots, hLoop, rfl⟩ :=
    cancelReservations_ok_eq faults slots slots' reservations hOk
  rw [applyTxn_cancelReservationsLoop faults slots reservations executorSlots hLoop]
  exact ⟨fun hZero => if_pos hZero, fun hNamed => if_neg (Nat.pos_iff_ne_zero.mp hNamed)⟩

/-
  After a successful `reserve_slots(n)` over a ledger whose free
  slots are all below `2^32`, a successful `cancel_reservations`
  of its result restores every executor's free slots.
-/
theorem cancelReservations_undoes_reserveSlots
    (faults faults' : Faults)
    (slots slots' slots'' : SlotsKeyspace)
    (aliveExecutors : List String)
    (n : Nat)
    (reservations : List ExecutorReservation)
    (hNodup : aliveExecutors.Nodup)
    (hU32 : ∀ executorId, availableTaskSlots slots executorId < 2 ^ 32)
    (hReserve : reserveSlots faults slots aliveExecutors n =
      (.ok reservations, slots'))
    (hCancel : cancelReservations faults' slots' reservations =
      (.ok (), slots''))
    (executorId : String) :
    availableTaskSlots slots'' executorId =
      availableTaskSlots slots executorId := by
  obtain ⟨rfl, rfl⟩ := reserveSlots_ok_eq faults slots slots' aliveExecutors n
    reservations hReserve
  set plan := reservePlan slots aliveExecutors n
  have hPlanNodup : (plan.map Prod.fst).Nodup :=
    (reservePlan_visits_leading slots aliveExecutors n).sublist.nodup hNodup
  obtain ⟨hUnnamed, hNamed⟩ :=
    cancelReservations_ok_slots faults' _ slots'' _ hCancel executorId
  unfold availableTaskSlots
  by_cases hPlanned : executorId ∈ plan.map Prod.fst
  · obtain ⟨⟨planned, take⟩, hStep, hPlannedEq⟩ := List.mem_map.mp hPlanned
    simp only at hPlannedEq
    subst hPlannedEq
    have hWritten := applyTxn_of_mem slots (planTxnOps slots plan) _ _
      (by rwa [planTxnOps_keys]) (List.mem_map_of_mem _ hStep)
    have hCount := reservationCount_planReservations_of_mem plan _ take
      hPlanNodup hStep
    have hLe := reservePlan_le_available slots aliveExecutors n _ hStep
    have hBound := hU32 planned
    simp only [availableTaskSlots] at hWritten hLe hBound
    by_cases hTake : take = 0
    · rw [hUnnamed (by rw [hCount, hTake]), hWritten]
      simp [hTake]
    · rw [hNamed (by rw [hCount]; omega), hWritten, hCount]
      simp only [decodeExecutorData_some, returnSlots, wrappingAdd]
      rw [Nat.sub_add_cancel hLe, Nat.mod_eq_of_lt hBound]
  · have hCount := reservationCount_planReservations_of_not_mem plan _ hPlanned
    rw [hUnnamed hCount, applyTxn_of_not_mem _ _ _
      (by rwa [planTxnOps_keys] : executorId ∉ (planTxnOps slots plan).map Prod.fst)]

/-
  One executor with two of four slots free: reserving both and
  cancelling them hands both back.
-/
theorem cancelReservations_undoes_reserveSlots_one_executor :
    (reserveSlots Faults.healthy
        (Function.update (fun _ => none) "executor-1"
          (some ⟨"executor-1", 4, 2⟩)) ["executor-1"] 2).1 =
        .ok [ExecutorReservation.newFree "executor-1",
          ExecutorReservation.newFree "executor-1"] ∧
      (cancelReservations Faults.healthy
        (reserveSlots Faults.healthy
          (Function.update (fun _ => none) "executor-1"
            (some ⟨"executor-1", 4, 2⟩)) ["executor-1"] 2).2
        [ExecutorReservation.newFree "executor-1",
          ExecutorReservation.newFree "executor-1"]).1 = .ok () ∧
      availableTaskSlots
          (cancelReservations Faults.healthy
            (reserveSlots Faults.healthy
              (Function.update (fun _ => none) "executor-1"
                (some ⟨"executor-1", 4, 2⟩)) ["executor-1"] 2).2
            [ExecutorReservation.newFree "executor-1",
              ExecutorReservation.newFree "executor-1"]).2 "executor-1" =
        availableTaskSlots
          (Function.update (fun _ => none) "executor-1"
            (some ⟨"executor-1", 4, 2⟩)) "executor-1" := by
  refine ⟨by decide, by decide, ?_⟩
  exact cancelReservations_undoes_reserveSlots Faults.healthy Faults.healthy
    (Function.update (fun _ => none) "executor-1"
      (some ⟨"executor-1", 4, 2⟩))
    (reserveSlots Faults.healthy
      (Function.update (fun _ => none) "executor-1"
        (some ⟨"executor-1", 4, 2⟩)) ["executor-1"] 2).2
    _ ["executor-1"] 2
    [ExecutorReservation.newFree "executor-1",
      ExecutorReservation.newFree "executor-1"]
    (by decide)
    (fun executorId => by
      by_cases hId : executorId = "executor-1"
      · subst hId
        decide
      · simp [availableTaskSlots, Function.update_noteq hId,
          decodeExecutorData])
    (Prod.ext (by decide) rfl) (Prod.ext (by decide) rfl) "executor-1"

/-
  At `u32::MAX` free slots, handing one back wraps the ledger to
  zero free slots while the call still returns `Ok`.
-/
theorem cancelReservations_wraps_at_u32_max :
    (cancelReservations Faults.healthy
        (Function.update (fun _ => none) "executor-1"
          (some ⟨"executor-1", 4294967295, 4294967295⟩))
        [ExecutorReservation.newFree "executor-1"]).1 = .ok () ∧
      availableTaskSlots
          (cancelReservations Faults.healthy
            (Function.update (fun _ => none) "executor-1"
              (some ⟨"executor-1", 4294967295, 4294967295⟩))
            [ExecutorReservation.newFree "executor-1"]).2 "executor-1" = 0 := by
  decide

/-
  A `reserve_slots` or `cancel_reservations` that returns `Err`
  leaves the `Slots` keyspace as it found it, whichever backend
  call failed: nothing is written before the final `put_txn`, and
  that one is all-or-nothing.
-/
theorem failed_call_leaves_slots :
    (∀ (faults : Faults) (slots : SlotsKeyspace)
        (aliveExecutors : List String) (n : Nat) (error : BallistaError),
      (reserveSlots faults slots aliveExecutors n).1 = .error error →
      (reserveSlots faults slots aliveExecutors n).2 = slots) ∧
    (∀ (faults : Faults) (slots : SlotsKeyspace)
        (reservations : List ExecutorReservation) (error : BallistaError),
      (cancelReservations faults slots reservations).1 = .error error →
      (cancelReservations faults slots reservations).2 = slots) := by
  constructor
  · intro faults slots aliveExecutors n error hError
    unfold reserveSlots at hError ⊢
    split
    · rfl
    · rename_i hLoop
      simp only [hLoop] at hError
      cases hPut : (putTxn faults slots _).1 with
      | error putError => exact putTxn_error _ _ _ putError hPut
      | ok _ => simp [hPut, Except.map] at hError
  · intro faults slots reservations error hError
    unfold cancelReservations at hError ⊢
    split
    · rfl
    · rename_i hLoop
      simp only [hLoop] at hError
      exact putTxn_error _ _ _ error hError

/-
  A reservation whose `put_txn` fails, and a cancellation whose
  ledger fails to decode, both leave the keyspace as it was.
-/
theorem failed_call_leaves_slots_put_txn_and_decode :
    (reserveSlots { Faults.healthy with putTxn := some (.internal "put_txn") }
        (Function.update (fun _ => none) "executor-1"
          (some ⟨"executor-1", 4, 4⟩)) ["executor-1"] 2).1 =
        .error (.internal "put_txn") ∧
      (reserveSlots { Faults.healthy with putTxn := some (.internal "put_txn") }
        (Function.update (fun _ => none) "executor-1"
          (some ⟨"executor-1", 4, 4⟩)) ["executor-1"] 2).2 =
        Function.update (fun _ => none) "executor-1"
          (some ⟨"executor-1", 4, 4⟩) ∧
      (cancelReservations
        { Faults.healthy with decode := fun _ => some (.internal "decode") }
        (Function.update (fun _ => none) "executor-1"
          (some ⟨"executor-1", 4, 0⟩))
        [ExecutorReservation.newFree "executor-1"]).1 =
        .error (.internal "decode") ∧
      (cancelReservations
        { Faults.healthy with decode := fun _ => some (.internal "decode") }
        (Function.update (fun _ => none) "executor-1"
          (some ⟨"executor-1", 4, 0⟩))
        [ExecutorReservation.newFree "executor-1"]).2 =
        Function.update (fun _ => none) "executor-1"
          (some ⟨"executor-1", 4, 0⟩) :=
  ⟨by decide,
    failed_call_leaves_slots.1
      { Faults.healthy with putTxn := some (.internal "put_txn") }
      (Function.update (fun _ => none) "executor-1"
        (some ⟨"executor-1", 4, 4⟩)) ["executor-1"] 2
      (.internal "put_txn") (by decide),
    by decide,
    failed_call_leaves_slots.2
      { Faults.healthy with decode := fun _ => some (.internal "decode") }
      (Function.update (fun _ => none) "executor-1"
        (some ⟨"executor-1", 4, 0⟩))
      [ExecutorReservation.newFree "executor-1"]
      (.internal "decode") (by decide)⟩

end ExecutorManager

end Ballista

------------------------------------------------------------
-- A Healthy Backend
------------------------------------------------------------

namespace Ballista

namespace ExecutorManager

/- With no faults the reserve loop returns its plan. -/
theorem reserveSlotsLoop_healthy
    (slots : SlotsKeyspace)
    (aliveExecutors : List String)
    (desired : Nat) :
    reserveSlotsLoop Faults.healthy slots aliveExecutors desired =
      .ok (planReservations (reservePlan slots aliveExecutors desired),
        planTxnOps slots (reservePlan slots aliveExecutors desired)) := by
  induction aliveExecutors generalizing desired with
  | nil => rfl
  | cons executorId aliveExecutors ih =>
      simp only [reserveSlotsLoop, reservePlan, availableTaskSlots, Faults.healthy_get,
        Faults.healthy_decode, Faults.healthy_encode, orFail_none, except_ok_bind]
      split_ifs
      · simp [planReservations, planTxnOps, availableTaskSlots]
      · simp [ih, planReservations, planTxnOps, availableTaskSlots]

/-
  With no faults `reserve_slots` hands out its plan's reservations
  and commits its plan's ledgers.
-/
theorem reserveSlots_healthy
    (slots : SlotsKeyspace)
    (aliveExecutors : List String)
    (n : Nat) :
    reserveSlots Faults.healthy slots aliveExecutors n =
      (.ok (planReservations (reservePlan slots aliveExecutors n)),
        applyTxn slots (planTxnOps slots (reservePlan slots aliveExecutors n))) := by
  simp [reserveSlots, reserveSlotsLoop_healthy, putTxn, Except.map]

/- With no faults encoding hands the map back unchanged. -/
theorem encodeTxnOps_healthy
    (executorSlots : List (String × ExecutorData)) :
    encodeTxnOps Faults.healthy executorSlots = .ok executorSlots := by
  induction executorSlots with
  | nil => rfl
  | cons entry executorSlots ih =>
      obtain ⟨executorId, data⟩ := entry
      simp [encodeTxnOps, ih]

/-
  One turn of the coalescing loop on a healthy backend: bump the
  executor's entry, or read its ledger and add an entry.
-/
theorem cancelReservationsLoop_healthy_cons
    (slots : SlotsKeyspace)
    (reservation : ExecutorReservation)
    (reservations : List ExecutorReservation)
    (executorSlots : List (String × ExecutorData)) :
    cancelReservationsLoop Faults.healthy slots (reservation :: reservations) executorSlots =
      cancelReservationsLoop Faults.healthy slots reservations
        (match executorSlots.lookup reservation.executorId with
        | some _ => bumpEntry reservation.executorId executorSlots
        | none => executorSlots ++ [(reservation.executorId,
            returnSlots (decodeExecutorData (slots reservation.executorId)) 1)]) := by
  cases hSeen : executorSlots.lookup reservation.executorId <;>
    simp [cancelReservationsLoop, hSeen]

/- With no faults the coalescing loop runs to the end. -/
theorem cancelReservationsLoop_healthy_ok
    (slots : SlotsKeyspace)
    (reservations : List ExecutorReservation) :
    ∀ executorSlots, ∃ result,
      cancelReservationsLoop Faults.healthy slots reservations executorSlots = .ok result := by
  induction reservations with
  | nil => exact fun executorSlots => ⟨executorSlots, rfl⟩
  | cons reservation reservations ih =>
      intro executorSlots
      rw [cancelReservationsLoop_healthy_cons]
      exact ih _

/-
  With no faults `cancel_reservations` succeeds and commits the map
  its coalescing loop builds.
-/
theorem cancelReservations_healthy
    (slots : SlotsKeyspace)
    (reservations : List ExecutorReservation)
    (executorSlots : List (String × ExecutorData))
    (hLoop : cancelReservationsLoop Faults.healthy slots reservations [] = .ok executorSlots) :
    cancelReservations Faults.healthy slots reservations =
      (.ok (), applyTxn slots executorSlots) := by
  simp [cancelReservations, hLoop, encodeTxnOps_healthy, putTxn]

end ExecutorManager

end Ballista
