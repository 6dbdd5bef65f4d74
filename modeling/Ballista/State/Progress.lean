import Ballista.State.SlotsConservation

/-
  Progress of the concurrent `register_executor`, `reserve_slots`
  and `cancel_reservations` calls, under either discipline for
  `register_executor`'s put. The `Slots` lock is taken exactly
  while one call holds it (`LockInv`). From there:
    * every step that continues a call lowers the number of steps
      the calls in flight still need (`remainingSteps`), so the
      calls cannot run forever without new calls starting;
    * while some call is in flight, some step continuing a call is
      enabled, so the calls never get stuck;
  and so from every state a run reaches, the calls in flight can
  be driven to return.

  Main declarations:
    * `Action.startsCall`, `Call.remaining`, `remainingSteps`
    * `LockInv`, `LockInv.step`, `LockInv.run`
    * `remainingSteps_step_lt`, `LockInv.exists_continue`
    * `calls_in_flight_always_return`
-/

------------------------------------------------------------
-- The Lock Has an Owner
------------------------------------------------------------

namespace Ballista

namespace ConcurrentCalls

open ExecutorManager

/- The lock is taken exactly while one call holds it. -/
structure LockInv
    (c : Cluster) : Prop where
  held : LockHeld c
  owned : c.slotsLocked = true →
    ∃ (i : Nat) (call : Call), c.calls[i]? = some call ∧ call.holdsLock = true

/- A call appended without the lock keeps the lock's owner. -/
theorem LockInv.concat
    {c c' : Cluster}
    {new : Call}
    (hInv : LockInv c)
    (hCalls : c'.calls = c.calls ++ [new])
    (hLocked : c'.slotsLocked = c.slotsLocked)
    (hFree : new.holdsLock = false) :
    LockInv c' := by
  refine ⟨lockHeld_concat hInv.held hCalls hLocked hFree, fun hTaken => ?_⟩
  obtain ⟨i, call, hCall, hHolds⟩ := hInv.owned (hLocked ▸ hTaken)
  exact ⟨i, call, by rw [hCalls, List.getElem?_append_left (lt_length_of_getElem? hCall), hCall],
    hHolds⟩

/- A call replaced by one that holds the lock as it did keeps the owner. -/
theorem LockInv.keep
    {c c' : Cluster}
    {i : Nat}
    {old new : Call}
    (hInv : LockInv c)
    (hOld : c.calls[i]? = some old)
    (hCalls : c'.calls = c.calls.set i new)
    (hLocked : c'.slotsLocked = c.slotsLocked)
    (hHolds : new.holdsLock = old.holdsLock) :
    LockInv c' := by
  refine ⟨lockHeld_keep hInv.held hOld hCalls hLocked hHolds, fun hTaken => ?_⟩
  obtain ⟨j, call, hCall, hOwner⟩ := hInv.owned (hLocked ▸ hTaken)
  rw [hCalls]
  by_cases hj : j = i
  · subst hj
    rw [hOld, Option.some.injEq] at hCall
    subst hCall
    exact ⟨j, new, List.getElem?_set_self (lt_length_of_getElem? hOld), hHolds.trans hOwner⟩
  · exact ⟨j, call, by rw [List.getElem?_set_ne (Ne.symm hj), hCall], hOwner⟩

/- A call that takes the free lock owns it. -/
theorem LockInv.acquire
    {c c' : Cluster}
    {i : Nat}
    {old new : Call}
    (hInv : LockInv c)
    (hOld : c.calls[i]? = some old)
    (hCalls : c'.calls = c.calls.set i new)
    (hFree : c.slotsLocked = false)
    (hLocked : c'.slotsLocked = true)
    (hNew : new.holdsLock = true) :
    LockInv c' :=
  ⟨lockHeld_acquire hInv.held hOld hCalls hFree hLocked,
    fun _ => ⟨i, new, by rw [hCalls, List.getElem?_set_self (lt_length_of_getElem? hOld)],
      hNew⟩⟩

/- A holder that releases the lock leaves it free and unowned. -/
theorem LockInv.release
    {c c' : Cluster}
    {i : Nat}
    {old new : Call}
    (hInv : LockInv c)
    (hOld : c.calls[i]? = some old)
    (hHeld : old.holdsLock = true)
    (hCalls : c'.calls = c.calls.set i new)
    (hNew : new.holdsLock = false)
    (hUnlocked : c'.slotsLocked = false) :
    LockInv c' :=
  ⟨lockHeld_of_noHolder (noHolder_of_release hInv.held hOld hHeld hCalls hNew),
    fun hTaken => absurd (hUnlocked ▸ hTaken) (by simp)⟩

/- Every step keeps the lock owned exactly while it is taken. -/
theorem LockInv.step
    {registerLocks : Bool}
    {c c' : Cluster}
    {action : Action}
    (hInv : LockInv c)
    (hStep : ConcurrentCalls.step registerLocks c action = some c') :
    LockInv c' := by
  cases action with
  | registerExecutor executorId totalTaskSlots reserve timestamp =>
      simp only [ConcurrentCalls.step] at hStep
      split_ifs at hStep
      obtain rfl := Option.some.inj hStep
      exact hInv.concat rfl rfl rfl
  | reserveSlots n =>
      obtain rfl := Option.some.inj hStep
      exact hInv.concat rfl rfl rfl
  | cancelReservations reservations =>
      simp only [ConcurrentCalls.step] at hStep
      split_ifs at hStep
      obtain rfl := Option.some.inj hStep
      exact hInv.concat rfl rfl rfl
  | snapshotAlive i aliveExecutors now =>
      simp only [ConcurrentCalls.step] at hStep
      split at hStep
      · rename_i n hCall
        split_ifs at hStep
        obtain rfl := Option.some.inj hStep
        exact hInv.keep hCall rfl rfl rfl
      · simp at hStep
  | advance i =>
      obtain ⟨call, hCall, hAdvance⟩ := Option.bind_eq_some.mp hStep
      cases call with
      | registerSaving specification reserve =>
          simp only [advanceCall] at hAdvance
          split at hAdvance
          · cases hAdvance
          · obtain rfl := Option.some.inj hAdvance
            exact hInv.keep hCall rfl rfl rfl
      | reserveWaiting n =>
          simp only [advanceCall] at hAdvance
          split_ifs at hAdvance with hLocked
          obtain rfl := Option.some.inj hAdvance
          exact hInv.acquire hCall rfl (by simpa using hLocked) rfl rfl
      | reserveLocked n => simp [advanceCall] at hAdvance
      | reserveLooping aliveExecutors desired reservations txnOps snapshot requested =>
          cases aliveExecutors with
          | nil =>
              obtain rfl := Option.some.inj hAdvance
              exact hInv.release hCall rfl rfl rfl rfl
          | cons executorId aliveExecutors =>
              obtain rfl := Option.some.inj hAdvance
              exact hInv.keep hCall rfl rfl rfl
      | cancelWaiting reservations =>
          simp only [advanceCall] at hAdvance
          split_ifs at hAdvance with hLocked
          obtain rfl := Option.some.inj hAdvance
          exact hInv.acquire hCall rfl (by simpa using hLocked) rfl rfl
      | cancelLooping reservations executorSlots cancelling =>
          cases reservations with
          | nil =>
              obtain rfl := Option.some.inj hAdvance
              exact hInv.release hCall rfl rfl rfl rfl
          | cons reservation reservations =>
              obtain rfl := Option.some.inj hAdvance
              exact hInv.keep hCall rfl rfl rfl
      | done => simp [advanceCall] at hAdvance

/- Under either discipline, every state a run reaches has its lock owned. -/
theorem LockInv.run
    {registerLocks : Bool}
    {actions : List Action}
    {c : Cluster}
    (hRun : run registerLocks Cluster.initial actions = some c) :
    LockInv c :=
  runSteps_invariant LockInv (fun _ _ _ hInv hStep => hInv.step hStep)
    ⟨lockHeld_of_noHolder (by simp [Cluster.initial]), by simp [Cluster.initial]⟩ hRun

end ConcurrentCalls

end Ballista

------------------------------------------------------------
-- Steps Left
------------------------------------------------------------

namespace Ballista

namespace ConcurrentCalls

open ExecutorManager

/- Whether an action starts a new call, rather than continuing one. -/
def Action.startsCall : Action → Bool
| .registerExecutor .. => true
| .reserveSlots _ => true
| .cancelReservations _ => true
| .snapshotAlive .. => false
| .advance _ => false

/-
  How many more steps a call takes to return, when the alive set it
  reads comes from a cache of `cacheSize` entries.
-/
def Call.remaining
    (cacheSize : Nat) :
    Call → Nat
| .registerSaving .. => 1
| .reserveWaiting _ => cacheSize + 3
| .reserveLocked _ => cacheSize + 2
| .reserveLooping aliveExecutors .. => aliveExecutors.length + 1
| .cancelWaiting reservations => reservations.length + 2
| .cancelLooping reservations .. => reservations.length + 1
| .done => 0

/- How many more steps the calls in flight take, in all, to return. -/
def remainingSteps
    (c : Cluster) : Nat :=
  (c.calls.map (Call.remaining c.executorsHeartbeat.length)).sum

/- The alive set has no more executors than the cache has entries. -/
theorem length_getAliveExecutors_le
    (executorsHeartbeat : HeartbeatCache)
    (lastSeenTsThreshold : Nat) :
    (getAliveExecutors executorsHeartbeat lastSeenTsThreshold).length ≤
      executorsHeartbeat.length :=
  calc (getAliveExecutors executorsHeartbeat lastSeenTsThreshold).length
      ≤ ((executorsHeartbeat.filter (fun entry =>
          lastSeenTsThreshold < entry.2.timestamp)).map Prod.fst).length :=
        (List.dedup_sublist _).length_le
    _ ≤ executorsHeartbeat.length := by
        rw [List.length_map]
        exact List.length_filter_le _ _

/- Replacing a call changes the sum by the difference of their shares. -/
theorem sum_map_set
    {α : Type}
    (f : α → Nat) :
    ∀ (l : List α) (i : Nat) (old new : α), l[i]? = some old →
      ((l.set i new).map f).sum + f old = (l.map f).sum + f new
| [], _, _, _, hOld => by simp at hOld
| a :: l, 0, old, new, hOld => by
    simp only [List.getElem?_cons_zero, Option.some.injEq] at hOld
    subst hOld
    simp only [List.set_cons_zero, List.map_cons, List.sum_cons]
    omega
| a :: l, i + 1, old, new, hOld => by
    simp only [List.getElem?_cons_succ] at hOld
    have ih := sum_map_set f l i old new hOld
    simp only [List.set_cons_succ, List.map_cons, List.sum_cons]
    omega

/- A step that moves one call on, with fewer steps left for it, lowers the total. -/
theorem remainingSteps_set_lt
    {c : Cluster}
    {i : Nat}
    {old new : Call}
    (hOld : c.calls[i]? = some old)
    (hLt : new.remaining c.executorsHeartbeat.length <
      old.remaining c.executorsHeartbeat.length) :
    remainingSteps { c with calls := c.calls.set i new } < remainingSteps c := by
  have hSum := sum_map_set (Call.remaining c.executorsHeartbeat.length) c.calls i old new hOld
  simp only [remainingSteps]
  omega

/- Every step that continues a call lowers the steps left. -/
theorem remainingSteps_step_lt
    {registerLocks : Bool}
    {c c' : Cluster}
    {action : Action}
    (hContinues : action.startsCall = false)
    (hStep : step registerLocks c action = some c') :
    remainingSteps c' < remainingSteps c := by
  cases action with
  | registerExecutor => cases hContinues
  | reserveSlots => cases hContinues
  | cancelReservations => cases hContinues
  | snapshotAlive i aliveExecutors now =>
      simp only [step] at hStep
      split at hStep
      · rename_i n hCall
        split_ifs at hStep with hPerm
        obtain rfl := Option.some.inj hStep
        refine remainingSteps_set_lt hCall ?_
        have hAlive := length_getAliveExecutors_le c.executorsHeartbeat (now - 60)
        simp only [Call.remaining, hPerm.length_eq]
        exact Nat.succ_lt_succ (Nat.lt_succ_of_le hAlive)
      · simp at hStep
  | advance i =>
      obtain ⟨call, hCall, hAdvance⟩ := Option.bind_eq_some.mp hStep
      cases call with
      | registerSaving specification reserve =>
          simp only [advanceCall] at hAdvance
          split at hAdvance
          · cases hAdvance
          · obtain rfl := Option.some.inj hAdvance
            exact remainingSteps_set_lt hCall (by simp [Call.remaining])
      | reserveWaiting n =>
          simp only [advanceCall] at hAdvance
          split_ifs at hAdvance
          obtain rfl := Option.some.inj hAdvance
          exact remainingSteps_set_lt hCall (by simp [Call.remaining])
      | reserveLocked n => simp [advanceCall] at hAdvance
      | reserveLooping aliveExecutors desired reservations txnOps snapshot requested =>
          cases aliveExecutors with
          | nil =>
              obtain rfl := Option.some.inj hAdvance
              exact remainingSteps_set_lt hCall (by simp [Call.remaining])
          | cons executorId aliveExecutors =>
              obtain rfl := Option.some.inj hAdvance
              refine remainingSteps_set_lt hCall ?_
              simp only [Call.remaining, List.length_cons]
              split_ifs <;> simp
      | cancelWaiting reservations =>
          simp only [advanceCall] at hAdvance
          split_ifs at hAdvance
          obtain rfl := Option.some.inj hAdvance
          exact remainingSteps_set_lt hCall (by simp [Call.remaining])
      | cancelLooping reservations executorSlots cancelling =>
          cases reservations with
          | nil =>
              obtain rfl := Option.some.inj hAdvance
              exact remainingSteps_set_lt hCall (by simp [Call.remaining])
          | cons reservation reservations =>
              obtain rfl := Option.some.inj hAdvance
              exact remainingSteps_set_lt hCall (by simp [Call.remaining])
      | done => simp [advanceCall] at hAdvance

/- A run of steps that continue calls takes at most the steps left. -/
theorem remainingSteps_run_le
    (registerLocks : Bool) :
    ∀ (rest : List Action) (c c' : Cluster),
      (∀ action ∈ rest, action.startsCall = false) →
      run registerLocks c rest = some c' →
      rest.length + remainingSteps c' ≤ remainingSteps c
| [], c, c', _, hRun => by
    simp only [run, runSteps, Option.some.injEq] at hRun
    simp [hRun]
| action :: rest, c, c', hContinue, hRun => by
    simp only [run, runSteps] at hRun
    obtain ⟨c₁, hStep, hRest⟩ := Option.bind_eq_some.mp hRun
    have hLt := remainingSteps_step_lt (hContinue action (List.mem_cons_self _ _)) hStep
    have hLe := remainingSteps_run_le registerLocks rest c₁ c'
      (fun a hMem => hContinue a (List.mem_cons_of_mem _ hMem)) hRest
    simp only [List.length_cons]
    omega

end ConcurrentCalls

end Ballista

------------------------------------------------------------
-- No Call Is Stranded
------------------------------------------------------------

namespace Ballista

namespace ConcurrentCalls

open ExecutorManager

/-
  While some call is in flight, some step continuing a call is
  enabled: the owner of a taken lock can always move on, and with
  the lock free every call not holding it can.
-/
theorem LockInv.exists_continue
    (registerLocks : Bool)
    {c : Cluster}
    (hInv : LockInv c)
    (hBusy : ¬ Quiescent c) :
    ∃ action : Action,
      action.startsCall = false ∧ (ConcurrentCalls.step registerLocks c action).isSome := by
  by_cases hLocked : c.slotsLocked = true
  · obtain ⟨i, call, hCall, hHolds⟩ := hInv.owned hLocked
    cases call with
    | reserveLocked n =>
        exact ⟨.snapshotAlive i (getAliveExecutorsWithinOneMinute c.executorsHeartbeat 0) 0,
          rfl, by
            simp only [ConcurrentCalls.step, hCall, List.Perm.refl, if_true,
              Option.isSome_some]⟩
    | reserveLooping aliveExecutors desired reservations txnOps snapshot requested =>
        cases aliveExecutors <;> exact ⟨.advance i, rfl, by
          simp only [ConcurrentCalls.step, hCall, advanceCall, Option.some_bind,
            Option.isSome_some]⟩
    | cancelLooping reservations executorSlots cancelling =>
        cases reservations <;> exact ⟨.advance i, rfl, by
          simp only [ConcurrentCalls.step, hCall, advanceCall, Option.some_bind,
            Option.isSome_some]⟩
    | registerSaving _ _ | reserveWaiting _ | cancelWaiting _ | done =>
        simp [Call.holdsLock] at hHolds
  · have hFree : c.slotsLocked = false := by simpa using hLocked
    simp only [Quiescent, not_forall] at hBusy
    obtain ⟨call, hMem, hNotDone⟩ := hBusy
    obtain ⟨i, hCall⟩ := List.mem_iff_getElem?.mp hMem
    have hNotHeld := noHolder_of_free hInv.held hFree call hMem
    cases call with
    | registerSaving _ _ | reserveWaiting _ | cancelWaiting _ =>
        exact ⟨.advance i, rfl, by
          simp only [ConcurrentCalls.step, hCall, advanceCall, hFree, Bool.and_false,
            Bool.false_eq_true, if_false, Option.some_bind, Option.isSome_some]⟩
    | reserveLocked _ | reserveLooping _ _ _ _ _ _ | cancelLooping _ _ _ =>
        simp [Call.holdsLock] at hNotHeld
    | done => exact absurd rfl hNotDone

/- From a state with its lock owned, continuing calls brings the run to rest. -/
theorem LockInv.run_to_rest
    (registerLocks : Bool)
    (c : Cluster)
    (hInv : LockInv c) :
    ∃ (rest : List Action) (c' : Cluster),
      (∀ action ∈ rest, action.startsCall = false) ∧
        ConcurrentCalls.run registerLocks c rest = some c' ∧ Quiescent c' := by
  by_cases hQuiet : Quiescent c
  · exact ⟨[], c, by simp, rfl, hQuiet⟩
  · obtain ⟨action, hContinues, hEnabled⟩ := hInv.exists_continue registerLocks hQuiet
    obtain ⟨c₁, hStep⟩ := Option.isSome_iff_exists.mp hEnabled
    have hLt := remainingSteps_step_lt hContinues hStep
    obtain ⟨rest, c', hRest, hRun, hDone⟩ :=
      LockInv.run_to_rest registerLocks c₁ (hInv.step hStep)
    refine ⟨action :: rest, c', ?_, ?_, hDone⟩
    · intro a hMem
      rcases List.mem_cons.mp hMem with rfl | hMem
      · exact hContinues
      · exact hRest a hMem
    · rw [ConcurrentCalls.run, runSteps_cons_of_step hStep]
      exact hRun
termination_by remainingSteps c

/-
  Under either discipline for `register_executor`, no run strands
  its calls. From every state a run reaches: while a call is in
  flight, some step continuing a call is enabled; every run that
  only continues calls takes at most `remainingSteps` steps; and
  such a run brings every call in flight to return.
-/
theorem calls_in_flight_always_return
    (registerLocks : Bool)
    (actions : List Action)
    (c : Cluster)
    (hRun : run registerLocks Cluster.initial actions = some c) :
    (¬ Quiescent c → ∃ action : Action,
      action.startsCall = false ∧ (step registerLocks c action).isSome) ∧
    (∀ (rest : List Action) (c' : Cluster),
      (∀ action ∈ rest, action.startsCall = false) →
      run registerLocks c rest = some c' →
      rest.length + remainingSteps c' ≤ remainingSteps c) ∧
    ∃ (rest : List Action) (c' : Cluster),
      (∀ action ∈ rest, action.startsCall = false) ∧
        run registerLocks c rest = some c' ∧ Quiescent c' :=
  ⟨(LockInv.run hRun).exists_continue registerLocks,
    fun rest => remainingSteps_run_le registerLocks rest c,
    (LockInv.run hRun).run_to_rest registerLocks c⟩

/-
  Two registrations and a reservation, stopped with all three calls
  in flight and the reservation holding the lock: the calls can still
  all return.
-/
theorem calls_in_flight_always_return_mid_race :
    ∃ c, run false Cluster.initial
          [.registerExecutor "executor-1" 1 true 100,
            .registerExecutor "executor-2" 1 false 100,
            .reserveSlots 1,
            .advance 2,
            .snapshotAlive 2 ["executor-1", "executor-2"] 100] = some c ∧
      ¬ Quiescent c ∧
      (¬ Quiescent c → ∃ action : Action,
        action.startsCall = false ∧ (step false c action).isSome) ∧
      (∀ (rest : List Action) (c' : Cluster),
        (∀ action ∈ rest, action.startsCall = false) →
        run false c rest = some c' →
        rest.length + remainingSteps c' ≤ remainingSteps c) ∧
      ∃ (rest : List Action) (c' : Cluster),
        (∀ action ∈ rest, action.startsCall = false) ∧
          run false c rest = some c' ∧ Quiescent c' := by
  have hRun : run false Cluster.initial
      [.registerExecutor "executor-1" 1 true 100,
        .registerExecutor "executor-2" 1 false 100,
        .reserveSlots 1,
        .advance 2,
        .snapshotAlive 2 ["executor-1", "executor-2"] 100] = some _ := rfl
  exact ⟨_, hRun, by decide, calls_in_flight_always_return false _ _ hRun⟩

end ConcurrentCalls

end Ballista
