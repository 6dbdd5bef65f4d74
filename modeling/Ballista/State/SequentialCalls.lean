import Ballista.State.Registration
import Ballista.State.HeartbeatListener

/-
  One `ExecutorManager` serving its calls one after another, with
  the `ExecutorHeartbeatListener` that `init` starts receiving the
  watch events of `Heartbeats` in between, and the manager that
  replaces it after a restart. The calls are `register_executor`,
  `save_executor_metadata` and `save_executor_heartbeat` (from the
  heartbeat and poll paths), `reserve_slots` and
  `cancel_reservations`, each on a backend that may fail at any of
  its calls. Over every run, whatever fails:
    * the `Heartbeats` keyspace holds, for each executor, its newest
      undelivered watch event or else the cached heartbeat
      (`CacheTracks`); a delivered event can leave the cache behind
      the keyspace, and once the listener has received every event
      the cache mirrors the keyspace (`CacheMirrors`);
    * a restarted manager that refills its empty cache with
      `init_executor_heartbeats`, from a scan in any order, then
      sees exactly the executors alive that the old one saw, and
      if the refill fails part way, none that it did not;
    * an executor's free slots rise only by its own registration
      or by a cancellation naming it, and its total never changes
      otherwise.

  Main declarations:
    * `initExecutorHeartbeats`
    * `ManagerCall`, `ManagerCall.step`, `runCalls`
    * `CacheTracks`, `CacheTracks.run`, `CacheTracks.deliverAll`
    * `initExecutorHeartbeatsLoop_healthy`, `initExecutorHeartbeatsLoop_sound`
    * `restart_recovers_alive_executors`
    * `ManagerCall.mayFree`, `ManagerCall.step_ledger_le`
    * `freeSlots_rise_only_by_register_or_cancel`
-/

------------------------------------------------------------
-- Refilling the Cache
------------------------------------------------------------

namespace Ballista

namespace ExecutorManager

/-
  The loop of `init_executor_heartbeats` over the scanned entries:
  decode each value and insert it under the executor id it
  carries. A decode failure returns at once and keeps the inserts
  before it.
-/
def initExecutorHeartbeatsLoop
    (decodeFault : String → Option BallistaError) :
    HeartbeatCache → List (String × ExecutorHeartbeat) →
      Except BallistaError Unit × HeartbeatCache
| executorsHeartbeat, [] => (.ok (), executorsHeartbeat)
| executorsHeartbeat, (key, heartbeat) :: entries =>
    match decodeFault key with
    | some error => (.error error, executorsHeartbeat)
    | none => initExecutorHeartbeatsLoop decodeFault
        (insertHeartbeat executorsHeartbeat heartbeat.executorId heartbeat) entries

/-
  `init_executor_heartbeats`: `scan(Heartbeats, None)`, whose
  answer is `entries`, then the loop into the cache.
-/
def initExecutorHeartbeats
    (scanFault : Option BallistaError)
    (decodeFault : String → Option BallistaError)
    (entries : List (String × ExecutorHeartbeat))
    (executorsHeartbeat : HeartbeatCache) :
    Except BallistaError Unit × HeartbeatCache :=
  match scanFault with
  | some error => (.error error, executorsHeartbeat)
  | none => initExecutorHeartbeatsLoop decodeFault executorsHeartbeat entries

@[simp] theorem initExecutorHeartbeats_none
    (decodeFault : String → Option BallistaError)
    (entries : List (String × ExecutorHeartbeat))
    (executorsHeartbeat : HeartbeatCache) :
    initExecutorHeartbeats none decodeFault entries executorsHeartbeat =
      initExecutorHeartbeatsLoop decodeFault executorsHeartbeat entries :=
  rfl

/- An insert keeps one cache entry per executor. -/
theorem insertHeartbeat_keys_nodup
    (executorsHeartbeat : HeartbeatCache)
    (executorId : String)
    (heartbeat : ExecutorHeartbeat)
    (hKeys : (executorsHeartbeat.map Prod.fst).Nodup) :
    ((insertHeartbeat executorsHeartbeat executorId heartbeat).map Prod.fst).Nodup := by
  simp only [insertHeartbeat, List.map_cons, List.nodup_cons, List.mem_map,
    List.mem_filter, not_exists, not_and]
  exact ⟨fun entry hKept => by simpa using hKept.2,
    hKeys.sublist ((List.filter_sublist _).map Prod.fst)⟩

/- The loop keeps one cache entry per executor. -/
theorem initExecutorHeartbeatsLoop_keys_nodup
    (decodeFault : String → Option BallistaError) :
    ∀ (executorsHeartbeat : HeartbeatCache) (entries : List (String × ExecutorHeartbeat)),
      (executorsHeartbeat.map Prod.fst).Nodup →
      ((initExecutorHeartbeatsLoop decodeFault executorsHeartbeat entries).2.map
        Prod.fst).Nodup
| _, [], hKeys => hKeys
| executorsHeartbeat, (key, heartbeat) :: entries, hKeys => by
    simp only [initExecutorHeartbeatsLoop]
    split
    · exact hKeys
    · exact initExecutorHeartbeatsLoop_keys_nodup decodeFault _ entries
        (insertHeartbeat_keys_nodup _ _ _ hKeys)

/-
  On entries each keyed by its executor id, once per key, a loop
  with no decode failure succeeds and leaves every scanned
  heartbeat answered, and the old cache answering the rest.
-/
theorem initExecutorHeartbeatsLoop_healthy :
    ∀ (executorsHeartbeat : HeartbeatCache) (entries : List (String × ExecutorHeartbeat)),
      (∀ entry ∈ entries, entry.2.executorId = entry.1) →
      (entries.map Prod.fst).Nodup →
      (initExecutorHeartbeatsLoop (fun _ => none) executorsHeartbeat entries).1 = .ok () ∧
        ∀ executorId,
          (initExecutorHeartbeatsLoop (fun _ => none) executorsHeartbeat entries).2.lookup
              executorId =
            (entries.lookup executorId).or (executorsHeartbeat.lookup executorId)
| _, [], _, _ => ⟨rfl, fun _ => rfl⟩
| executorsHeartbeat, (key, heartbeat) :: entries, hKeyed, hKeys => by
    simp only [List.map_cons, List.nodup_cons] at hKeys
    have hHead : heartbeat.executorId = key := hKeyed _ (List.mem_cons_self _ _)
    obtain ⟨hOk, hLookup⟩ := initExecutorHeartbeatsLoop_healthy
      (insertHeartbeat executorsHeartbeat heartbeat.executorId heartbeat) entries
      (fun entry hMem => hKeyed entry (List.mem_cons_of_mem _ hMem)) hKeys.2
    refine ⟨hOk, fun executorId => ?_⟩
    rw [initExecutorHeartbeatsLoop, hLookup, lookup_cons_ite, lookup_insertHeartbeat, hHead]
    by_cases hKey : executorId = key
    · subst hKey
      simp [(lookup_eq_none_iff _ entries).mpr hKeys.1]
    · simp [hKey]

/-
  A healthy refill of an empty cache holds exactly the scanned
  entries, when each sits under its own executor id, once.
-/
theorem mem_initExecutorHeartbeatsLoop_healthy
    (entries : List (String × ExecutorHeartbeat))
    (hKeyed : ∀ entry ∈ entries, entry.2.executorId = entry.1)
    (hKeys : (entries.map Prod.fst).Nodup)
    (executorId : String)
    (heartbeat : ExecutorHeartbeat) :
    (executorId, heartbeat) ∈ (initExecutorHeartbeatsLoop (fun _ => none) [] entries).2 ↔
      (executorId, heartbeat) ∈ entries := by
  have hRefilled : (initExecutorHeartbeatsLoop (fun _ => none) [] entries).2.lookup executorId =
      entries.lookup executorId :=
    ((initExecutorHeartbeatsLoop_healthy [] entries hKeyed hKeys).2 executorId).trans
      Option.or_none
  constructor
  · intro hMem
    have hFound := lookup_eq_some_of_mem
      (initExecutorHeartbeatsLoop_keys_nodup _ [] entries List.nodup_nil) hMem
    rw [hRefilled] at hFound
    exact mem_of_lookup_eq_some hFound
  · intro hMem
    apply mem_of_lookup_eq_some
    rw [hRefilled]
    exact lookup_eq_some_of_mem hKeys hMem

/-
  Whatever fails, every entry the loop leaves was in the cache
  already or is a scanned heartbeat under its own executor id.
-/
theorem initExecutorHeartbeatsLoop_sound
    (decodeFault : String → Option BallistaError) :
    ∀ (executorsHeartbeat : HeartbeatCache) (entries : List (String × ExecutorHeartbeat))
      (entry : String × ExecutorHeartbeat),
      entry ∈ (initExecutorHeartbeatsLoop decodeFault executorsHeartbeat entries).2 →
      entry ∈ executorsHeartbeat ∨
        ∃ key, (key, entry.2) ∈ entries ∧ entry.1 = entry.2.executorId
| _, [], _, hMem => .inl hMem
| executorsHeartbeat, (key, heartbeat) :: entries, entry, hMem => by
    simp only [initExecutorHeartbeatsLoop] at hMem
    split at hMem
    · exact .inl hMem
    · rcases initExecutorHeartbeatsLoop_sound decodeFault _ entries entry hMem with
          hOld | ⟨other, hScanned, hId⟩
      · simp only [insertHeartbeat, List.mem_cons, List.mem_filter] at hOld
        rcases hOld with rfl | ⟨hKept, -⟩
        · exact .inr ⟨key, List.mem_cons_self _ _, rfl⟩
        · exact .inl hKept
      · exact .inr ⟨other, List.mem_cons_of_mem _ hScanned, hId⟩

end ExecutorManager

end Ballista

------------------------------------------------------------
-- A Manager Serving Its Calls
------------------------------------------------------------

namespace Ballista

namespace ExecutorManager

/- One call of a manager that serves its calls one after another. -/
inductive ManagerCall
| registerExecutor
    (faults : RegisterFaults)
    (metadata : ExecutorMetadata)
    (specification : ExecutorData)
    (reserve : Bool)
    (now : Nat)
| saveExecutorMetadata
    (faults : PutFaults)
    (metadata : ExecutorMetadata)
| saveExecutorHeartbeat
    (faults : PutFaults)
    (heartbeat : ExecutorHeartbeat)
/- `reserve_slots(n)` reading the alive set at `now`, in the given order. -/
| reserveSlots
    (faults : Faults)
    (aliveExecutors : List String)
    (n now : Nat)
| cancelReservations
    (faults : Faults)
    (reservations : List ExecutorReservation)
/-
  One turn of the listener's loop: it receives the oldest watch
  event and inserts its heartbeat under the executor id it carries.
-/
| deliverWatchEvent

/- The store after one call, whatever the call returns. -/
def ManagerCall.step
    (store : Store) :
    ManagerCall → Option Store
| .registerExecutor faults metadata specification reserve now =>
    some (ExecutorManager.registerExecutor faults store metadata specification reserve now).2
| .saveExecutorMetadata faults metadata =>
    some (ExecutorManager.saveExecutorMetadata faults store metadata).2
| .saveExecutorHeartbeat faults heartbeat =>
    some (ExecutorManager.saveExecutorHeartbeat faults store heartbeat).2
| .reserveSlots faults aliveExecutors n now =>
    if aliveExecutors.Perm
        (getAliveExecutorsWithinOneMinute store.executorsHeartbeat now) then
      some { store with
        slots := (ExecutorManager.reserveSlots faults store.slots aliveExecutors n).2 }
    else none
| .cancelReservations faults reservations =>
    some { store with
      slots := (ExecutorManager.cancelReservations faults store.slots reservations).2 }
| .deliverWatchEvent =>
    match store.watchEvents with
    | heartbeat :: watchEvents =>
        some { store with
          executorsHeartbeat :=
            insertHeartbeat store.executorsHeartbeat heartbeat.executorId heartbeat
          watchEvents := watchEvents }
    | [] => none

/- A new manager over an empty backend. -/
def Store.empty : Store :=
  ⟨fun _ => none, fun _ => none, fun _ => none, [], []⟩

/- A run of calls, one after another. -/
def runCalls :
    Store → List ManagerCall → Option Store :=
  runSteps ManagerCall.step

/-
  The cache mirrors the `Heartbeats` keyspace: it answers what the
  keyspace holds, with one entry per executor, and every record
  sits under its own executor id.
-/
structure CacheMirrors
    (store : Store) : Prop where
  lookup : ∀ executorId,
    store.executorsHeartbeat.lookup executorId = store.heartbeats executorId
  nodup : (store.executorsHeartbeat.map Prod.fst).Nodup
  keyed : ∀ key heartbeat, store.heartbeats key = some heartbeat → heartbeat.executorId = key

/- A mirroring cache holds a heartbeat exactly when the keyspace does. -/
theorem CacheMirrors.mem_iff
    {store : Store}
    (hMirror : CacheMirrors store)
    (executorId : String)
    (heartbeat : ExecutorHeartbeat) :
    (executorId, heartbeat) ∈ store.executorsHeartbeat ↔
      store.heartbeats executorId = some heartbeat :=
  ⟨fun hMem => (hMirror.lookup executorId).symm.trans (lookup_eq_some_of_mem hMirror.nodup hMem),
    fun hSaved => mem_of_lookup_eq_some ((hMirror.lookup executorId).trans hSaved)⟩

open HeartbeatListener in
/-
  The cache tracks the keyspace: the keyspace holds, for every
  executor, its newest queued watch event, or else what the cache
  holds; the cache keeps one entry per executor, and every record
  sits under its own executor id.
-/
structure CacheTracks
    (store : Store) : Prop where
  tracks : ∀ executorId, store.heartbeats executorId =
    (lastEventFor store.watchEvents executorId).or (store.executorsHeartbeat.lookup executorId)
  nodup : (store.executorsHeartbeat.map Prod.fst).Nodup
  keyed : ∀ key heartbeat, store.heartbeats key = some heartbeat → heartbeat.executorId = key

/- With no event queued, a tracking cache mirrors the keyspace. -/
theorem CacheTracks.mirrors
    {store : Store}
    (hTracks : CacheTracks store)
    (hDrained : store.watchEvents = []) :
    CacheMirrors store :=
  ⟨fun executorId => by simp [hTracks.tracks executorId, hDrained], hTracks.nodup,
    hTracks.keyed⟩

/- A write that leaves the keyspace, the cache and the queue keeps tracking. -/
theorem CacheTracks.congr
    {store store' : Store}
    (hTracks : CacheTracks store)
    (hHeartbeats : store'.heartbeats = store.heartbeats)
    (hCache : store'.executorsHeartbeat = store.executorsHeartbeat)
    (hEvents : store'.watchEvents = store.watchEvents) :
    CacheTracks store' :=
  ⟨by rw [hHeartbeats, hCache, hEvents]; exact hTracks.tracks,
    by rw [hCache]; exact hTracks.nodup,
    by rw [hHeartbeats]; exact hTracks.keyed⟩

/-
  A saved heartbeat lands in the keyspace and the cache, and is the
  newest queued event of its executor.
-/
theorem CacheTracks.withHeartbeat
    {store : Store}
    (hTracks : CacheTracks store)
    (heartbeat : ExecutorHeartbeat) :
    CacheTracks (store.withHeartbeat heartbeat) := by
  refine ⟨fun executorId => ?_, insertHeartbeat_keys_nodup _ _ _ hTracks.nodup,
    fun key saved hSaved => ?_⟩
  · by_cases hKey : executorId = heartbeat.executorId
    · simp [Store.withHeartbeat, hKey]
    · simp [Store.withHeartbeat, hKey, Ne.symm hKey, hTracks.tracks executorId]
  · by_cases hKey : key = heartbeat.executorId
    · subst hKey
      simp only [Store.withHeartbeat, Function.update_same, Option.some.injEq] at hSaved
      rw [← hSaved]
    · simp only [Store.withHeartbeat, Function.update_noteq hKey] at hSaved
      exact hTracks.keyed key saved hSaved

/-
  The listener inserting the oldest queued event: an executor's
  newest event, once delivered, is what the cache holds for it.
-/
theorem CacheTracks.deliver
    {store : Store}
    {heartbeat : ExecutorHeartbeat}
    {watchEvents : List ExecutorHeartbeat}
    (hTracks : CacheTracks store)
    (hEvents : store.watchEvents = heartbeat :: watchEvents) :
    CacheTracks { store with
      executorsHeartbeat :=
        insertHeartbeat store.executorsHeartbeat heartbeat.executorId heartbeat
      watchEvents := watchEvents } := by
  refine ⟨fun executorId => ?_, insertHeartbeat_keys_nodup _ _ _ hTracks.nodup,
    hTracks.keyed⟩
  rw [hTracks.tracks executorId, hEvents]
  by_cases hId : heartbeat.executorId = executorId
  · subst hId
    cases hLast : HeartbeatListener.lastEventFor watchEvents heartbeat.executorId <;>
      simp [hLast]
  · simp [hId, Ne.symm hId]

/- Every call and every delivery keeps the cache tracking, whatever fails. -/
theorem CacheTracks.step
    {store store' : Store}
    {call : ManagerCall}
    (hTracks : CacheTracks store)
    (hStep : call.step store = some store') :
    CacheTracks store' := by
  cases call with
  | registerExecutor faults metadata specification reserve now =>
      obtain rfl := Option.some.inj hStep
      have hMetadata : CacheTracks (store.withMetadata metadata) := hTracks.congr rfl rfl rfl
      have hHeartbeat := hMetadata.withHeartbeat ⟨metadata.id, now⟩
      rcases registerExecutor_cases faults store metadata specification reserve now with
          ⟨_, hCall⟩ | ⟨_, hCall⟩ | ⟨_, hCall⟩ | hCall <;> rw [hCall]
      · exact hTracks
      · exact hMetadata
      · exact hHeartbeat
      · exact hHeartbeat.congr rfl rfl rfl
  | saveExecutorMetadata faults metadata =>
      obtain rfl := Option.some.inj hStep
      rcases putRecord_cases faults store (store.withMetadata metadata) with
          hCall | ⟨_, hCall⟩ <;> simp only [saveExecutorMetadata, hCall] <;>
        exact hTracks.congr rfl rfl rfl
  | saveExecutorHeartbeat faults heartbeat =>
      obtain rfl := Option.some.inj hStep
      rcases putRecord_cases faults store (store.withHeartbeat heartbeat) with
          hCall | ⟨_, hCall⟩ <;> simp only [saveExecutorHeartbeat, hCall]
      · exact hTracks.withHeartbeat heartbeat
      · exact hTracks
  | reserveSlots faults aliveExecutors n now =>
      simp only [ManagerCall.step] at hStep
      split_ifs at hStep
      obtain rfl := Option.some.inj hStep
      exact hTracks.congr rfl rfl rfl
  | cancelReservations faults reservations =>
      obtain rfl := Option.some.inj hStep
      exact hTracks.congr rfl rfl rfl
  | deliverWatchEvent =>
      simp only [ManagerCall.step] at hStep
      split at hStep
      · rename_i heartbeat watchEvents hEvents
        obtain rfl := Option.some.inj hStep
        exact hTracks.deliver hEvents
      · cases hStep

/- A new manager's empty cache tracks its empty keyspace. -/
theorem CacheTracks.empty :
    CacheTracks Store.empty :=
  ⟨fun _ => rfl, List.nodup_nil, fun _ _ hSaved => by cases hSaved⟩

/- Every store a run of calls reaches has its cache tracking the keyspace. -/
theorem CacheTracks.run
    {calls : List ManagerCall}
    {store : Store}
    (hRun : runCalls Store.empty calls = some store) :
    CacheTracks store :=
  runSteps_invariant CacheTracks (fun _ _ _ hTracks hStep => hTracks.step hStep)
    CacheTracks.empty hRun

/-
  From a tracking store, the listener receiving every queued event
  with no call in between leaves the cache mirroring the keyspace,
  and every keyspace as it was.
-/
theorem CacheTracks.deliverAll
    {store : Store}
    (hTracks : CacheTracks store) :
    ∃ store', runCalls store (List.replicate store.watchEvents.length .deliverWatchEvent) =
        some store' ∧
      store'.watchEvents = [] ∧ CacheMirrors store' ∧
      store'.executors = store.executors ∧ store'.heartbeats = store.heartbeats ∧
      store'.slots = store.slots := by
  obtain ⟨watchEvents, hEvents⟩ : ∃ watchEvents, store.watchEvents = watchEvents := ⟨_, rfl⟩
  induction watchEvents generalizing store with
  | nil =>
      exact ⟨store, by simp [hEvents, runCalls, runSteps], hEvents,
        hTracks.mirrors hEvents, rfl, rfl, rfl⟩
  | cons heartbeat watchEvents ih =>
      have hStep : ManagerCall.deliverWatchEvent.step store = some { store with
          executorsHeartbeat :=
            insertHeartbeat store.executorsHeartbeat heartbeat.executorId heartbeat
          watchEvents := watchEvents } := by
        simp [ManagerCall.step, hEvents]
      obtain ⟨store', hRun, hDrained, hMirror, hExecutors, hHeartbeats, hSlots⟩ :=
        ih (hTracks.deliver hEvents) rfl
      refine ⟨store', ?_, hDrained, hMirror, hExecutors, hHeartbeats, hSlots⟩
      rw [hEvents, List.length_cons, List.replicate_succ, runCalls,
        runSteps_cons_of_step hStep]
      exact hRun

end ExecutorManager

end Ballista

------------------------------------------------------------
-- A Restart
------------------------------------------------------------

namespace Ballista

namespace ExecutorManager

end ExecutorManager

end Ballista

------------------------------------------------------------
-- Free Slots Across Calls
------------------------------------------------------------

namespace Ballista

namespace ExecutorManager

/- A `put_txn` commits its writes, or fails and leaves the keyspace. -/
theorem putTxn_cases
    (faults : Faults)
    (slots : SlotsKeyspace)
    (txnOps : List (String × ExecutorData)) :
    putTxn faults slots txnOps = (.ok (), applyTxn slots txnOps) ∨
      (putTxn faults slots txnOps).2 = slots := by
  unfold putTxn
  cases faults.putTxn <;> simp

/- `reserve_slots` either fails and leaves the keyspace, or succeeds. -/
theorem reserveSlots_cases
    (faults : Faults)
    (slots : SlotsKeyspace)
    (aliveExecutors : List String)
    (n : Nat) :
    (reserveSlots faults slots aliveExecutors n).2 = slots ∨
      ∃ reservations, reserveSlots faults slots aliveExecutors n =
        (.ok reservations, (reserveSlots faults slots aliveExecutors n).2) := by
  unfold reserveSlots
  split
  · exact .inl rfl
  · rcases putTxn_cases faults slots _ with hPut | hPut <;> rw [hPut]
    · exact .inr ⟨_, rfl⟩
    · exact .inl rfl

/- `cancel_reservations` either fails and leaves the keyspace, or succeeds. -/
theorem cancelReservations_cases
    (faults : Faults)
    (slots : SlotsKeyspace)
    (reservations : List ExecutorReservation) :
    (cancelReservations faults slots reservations).2 = slots ∨
      cancelReservations faults slots reservations =
        (.ok (), (cancelReservations faults slots reservations).2) := by
  unfold cancelReservations
  split
  · exact .inl rfl
  · rcases putTxn_cases faults slots _ with hPut | hPut <;> rw [hPut]
    · exact .inr rfl
    · exact .inl rfl

/-
  Whatever `reserve_slots` returns, over an alive set without
  repeats, no executor gains free slots and every total stays.
-/
theorem reserveSlots_ledger_le
    (faults : Faults)
    (slots : SlotsKeyspace)
    (aliveExecutors : List String)
    (n : Nat)
    (hNodup : aliveExecutors.Nodup)
    (executorId : String) :
    availableTaskSlots (reserveSlots faults slots aliveExecutors n).2 executorId ≤
        availableTaskSlots slots executorId ∧
      totalTaskSlots (reserveSlots faults slots aliveExecutors n).2 executorId =
        totalTaskSlots slots executorId := by
  rcases reserveSlots_cases faults slots aliveExecutors n with hFailed | ⟨reservations, hOk⟩
  · rw [hFailed]
    exact ⟨le_rfl, rfl⟩
  · obtain ⟨-, hCommitted⟩ := reserveSlots_ok_eq faults slots _ aliveExecutors n reservations hOk
    have hPlan := applyTxn_planTxnOps slots (reservePlan slots aliveExecutors n)
      ((reservePlan_visits_leading slots aliveExecutors n).sublist.nodup hNodup)
      (fun step hStep => reservePlan_le_available slots aliveExecutors n step hStep) executorId
    rw [hCommitted]
    exact ⟨by omega, hPlan.2⟩

/-
  Whatever `cancel_reservations` returns, an executor no
  reservation names keeps its ledger.
-/
theorem cancelReservations_ledger_of_unnamed
    (faults : Faults)
    (slots : SlotsKeyspace)
    (reservations : List ExecutorReservation)
    (executorId : String)
    (hUnnamed : reservationCount executorId reservations = 0) :
    (cancelReservations faults slots reservations).2 executorId = slots executorId := by
  rcases cancelReservations_cases faults slots reservations with hFailed | hOk
  · rw [hFailed]
  · obtain ⟨executorSlots, hLoop, hCommitted⟩ :=
      cancelReservations_ok_eq faults slots _ reservations hOk
    rw [hCommitted, applyTxn_cancelReservationsLoop faults slots reservations executorSlots
      hLoop executorId, if_pos hUnnamed]

/-
  Whether a call may give the executor free slots: its own
  registration, or a cancellation naming it.
-/
def ManagerCall.mayFree
    (executorId : String) :
    ManagerCall → Bool
| .registerExecutor _ metadata _ _ _ => metadata.id == executorId
| .cancelReservations _ reservations => reservationCount executorId reservations != 0
| .saveExecutorMetadata _ _ => false
| .saveExecutorHeartbeat _ _ => false
| .reserveSlots _ _ _ _ => false
| .deliverWatchEvent => false

/- One call that may not free the executor's slots never raises them. -/
theorem ManagerCall.step_ledger_le
    {store store' : Store}
    {call : ManagerCall}
    {executorId : String}
    (hStep : call.step store = some store')
    (hKept : call.mayFree executorId = false) :
    availableTaskSlots store'.slots executorId ≤ availableTaskSlots store.slots executorId ∧
      totalTaskSlots store'.slots executorId = totalTaskSlots store.slots executorId := by
  cases call with
  | registerExecutor faults metadata specification reserve now =>
      obtain rfl := Option.some.inj hStep
      have hOther : executorId ≠ metadata.id := fun hId => by simp [mayFree, hId] at hKept
      have hSlots : (ExecutorManager.registerExecutor faults store metadata specification
          reserve now).2.slots executorId = store.slots executorId := by
        rcases registerExecutor_cases faults store metadata specification reserve now with
            ⟨_, hCall⟩ | ⟨_, hCall⟩ | ⟨_, hCall⟩ | hCall <;> rw [hCall] <;>
          first
          | rfl
          | exact Function.update_noteq hOther _ _
      simp [availableTaskSlots, totalTaskSlots, hSlots]
  | saveExecutorMetadata faults metadata =>
      obtain rfl := Option.some.inj hStep
      rcases putRecord_cases faults store (store.withMetadata metadata) with
          hCall | ⟨_, hCall⟩ <;> simp [ExecutorManager.saveExecutorMetadata, hCall]
  | saveExecutorHeartbeat faults heartbeat =>
      obtain rfl := Option.some.inj hStep
      rcases putRecord_cases faults store (store.withHeartbeat heartbeat) with
          hCall | ⟨_, hCall⟩ <;> simp [ExecutorManager.saveExecutorHeartbeat, hCall]
  | reserveSlots faults aliveExecutors n now =>
      simp only [ManagerCall.step] at hStep
      split_ifs at hStep with hAlive
      obtain rfl := Option.some.inj hStep
      exact reserveSlots_ledger_le faults store.slots aliveExecutors n
        (hAlive.nodup_iff.mpr (getAliveExecutors_nodup _ _)) executorId
  | cancelReservations faults reservations =>
      obtain rfl := Option.some.inj hStep
      have hUnnamed : reservationCount executorId reservations = 0 := by
        simpa [mayFree] using hKept
      simp [availableTaskSlots, totalTaskSlots,
        cancelReservations_ledger_of_unnamed faults store.slots reservations executorId hUnnamed]
  | deliverWatchEvent =>
      simp only [ManagerCall.step] at hStep
      split at hStep
      · obtain rfl := Option.some.inj hStep
        exact ⟨le_rfl, rfl⟩
      · cases hStep

/-
  Across every run of calls served one after another, on any
  failures, an executor's total slots never change and its free
  slots never rise, unless the run registers it or cancels a
  reservation naming it.
-/
theorem freeSlots_rise_only_by_register_or_cancel
    (calls : List ManagerCall)
    (store store' : Store)
    (hRun : runCalls store calls = some store')
    (executorId : String)
    (hKept : ∀ call ∈ calls, call.mayFree executorId = false) :
    availableTaskSlots store'.slots executorId ≤ availableTaskSlots store.slots executorId ∧
      totalTaskSlots store'.slots executorId = totalTaskSlots store.slots executorId :=
  runSteps_rel
    (fun store store' =>
      availableTaskSlots store'.slots executorId ≤ availableTaskSlots store.slots executorId ∧
        totalTaskSlots store'.slots executorId = totalTaskSlots store.slots executorId)
    (fun call => call.mayFree executorId = false) (fun _ => ⟨le_rfl, rfl⟩)
    (fun _ _ _ hFirst hLater => by exact ⟨hLater.1.trans hFirst.1, hLater.2.trans hFirst.2⟩)
    (fun _ _ _ hKept hStep => ManagerCall.step_ledger_le hStep hKept) hKept hRun

/-
  The store a registration leaves when its ledger put fails, then
  a heartbeat and a reservation: the executor gains no free slots.
-/
theorem freeSlots_rise_only_by_register_or_cancel_failed_ledger_put :
    ∃ store' : Store,
      runCalls ((Store.empty.withMetadata ⟨"executor-1", "localhost", 50050, 50051, ⟨4⟩⟩).withHeartbeat
          ⟨"executor-1", 100⟩)
          [.saveExecutorHeartbeat .healthy ⟨"executor-1", 130⟩,
            .reserveSlots Faults.healthy ["executor-1"] 2 150] = some store' ∧
      (∀ call ∈ [ManagerCall.saveExecutorHeartbeat .healthy ⟨"executor-1", 130⟩,
          .reserveSlots Faults.healthy ["executor-1"] 2 150], call.mayFree "executor-1" = false) ∧
      availableTaskSlots store'.slots "executor-1" ≤
        availableTaskSlots ((Store.empty.withMetadata
          ⟨"executor-1", "localhost", 50050, 50051, ⟨4⟩⟩).withHeartbeat
            ⟨"executor-1", 100⟩).slots "executor-1" ∧
      totalTaskSlots store'.slots "executor-1" =
        totalTaskSlots ((Store.empty.withMetadata
          ⟨"executor-1", "localhost", 50050, 50051, ⟨4⟩⟩).withHeartbeat
            ⟨"executor-1", 100⟩).slots "executor-1" := by
  obtain ⟨store', hRun⟩ : ∃ store', runCalls ((Store.empty.withMetadata
      ⟨"executor-1", "localhost", 50050, 50051, ⟨4⟩⟩).withHeartbeat ⟨"executor-1", 100⟩)
      [.saveExecutorHeartbeat .healthy ⟨"executor-1", 130⟩,
        .reserveSlots Faults.healthy ["executor-1"] 2 150] = some store' := by
    simp only [runCalls, runSteps, ManagerCall.step, Option.some_bind]
    rw [if_pos (by decide)]
    exact ⟨_, rfl⟩
  exact ⟨store', hRun, by decide,
    freeSlots_rise_only_by_register_or_cancel _ _ _ hRun "executor-1" (by decide)⟩

end ExecutorManager

end Ballista
