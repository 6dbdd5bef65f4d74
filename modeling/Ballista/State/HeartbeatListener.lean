import Ballista.State.ExecutorManager

/-
  The heartbeat cache of one scheduler, fed from two sides.
  `save_executor_heartbeat` puts the heartbeat to the `Heartbeats`
  keyspace and then inserts it into the cache itself. The
  `ExecutorHeartbeatListener` watches the keyspace and inserts the
  heartbeat of every `Put` event it receives. Schedulers sharing the
  backend also put heartbeats; their puts reach this scheduler only
  as watch events.

  The keyspace is kept decoded. Watch events reach the listener in
  the order the puts committed. A put can fail, and the call then
  returns with no effect. Ghost state records every heartbeat issued
  so far, in the order the calls started; a new heartbeat of an
  executor is never older than the ones issued before it.

  `listenerOnly` selects who writes the cache. The code (`false`)
  has the save insert its heartbeat directly. With `true` the save
  leaves the cache to the listener.

  Main declarations:
    * `SaveCall`, `HeartbeatState`, `Action`, `step`, `run`
    * `Quiescent`, `cachedTimestamp`
    * `saveExecutorHeartbeat_cache_regresses`
    * `ListenerInv`, `listenerOnly_cache_matches_heartbeats`
-/

------------------------------------------------------------
-- Saves, Events and Their Steps
------------------------------------------------------------

namespace Ballista

namespace HeartbeatListener

open ExecutorManager

/- Where one `save_executor_heartbeat` call stands. -/
inductive SaveCall
/- Before its put; `isLocal` when made by this scheduler. -/
| saving (heartbeat : ExecutorHeartbeat) (isLocal : Bool)
/- A local call after its put, before its insert into the cache. -/
| inserting (heartbeat : ExecutorHeartbeat)
/- The call has returned. -/
| done
deriving DecidableEq, Repr

/- The keyspace, the cache, the undelivered events and the calls. -/
structure HeartbeatState where
  heartbeats : String → Option ExecutorHeartbeat
  executorsHeartbeat : HeartbeatCache
  events : List ExecutorHeartbeat
  calls : List SaveCall
  issued : List ExecutorHeartbeat

/- An empty keyspace and cache, with the listener watching. -/
def HeartbeatState.initial : HeartbeatState :=
  ⟨fun _ => none, [], [], [], []⟩

/- What a run can do next. -/
inductive Action
/- Start a save of `heartbeat`, on this scheduler when `isLocal`. -/
| saveExecutorHeartbeat (heartbeat : ExecutorHeartbeat) (isLocal : Bool)
/- Call `call` takes its next step: its put lands, or its insert. -/
| advance (call : Nat)
/- Call `call`'s put fails and the call returns. -/
| failPut (call : Nat)
/- The listener receives the oldest undelivered event. -/
| deliver
deriving DecidableEq, Repr

/- The next step of call `i`, standing at `call`. -/
def advanceCall
    (listenerOnly : Bool)
    (s : HeartbeatState)
    (i : Nat) :
    SaveCall → Option HeartbeatState
| .saving heartbeat isLocal =>
    some { s with
      heartbeats := Function.update s.heartbeats heartbeat.executorId (some heartbeat)
      events := s.events ++ [heartbeat]
      calls := s.calls.set i
        (if isLocal && !listenerOnly then .inserting heartbeat else .done) }
| .inserting heartbeat =>
    some { s with
      executorsHeartbeat :=
        insertHeartbeat s.executorsHeartbeat heartbeat.executorId heartbeat
      calls := s.calls.set i .done }
| .done => none

/- One step of a run, if the action is enabled. -/
def step
    (listenerOnly : Bool)
    (s : HeartbeatState) :
    Action → Option HeartbeatState
| .saveExecutorHeartbeat heartbeat isLocal =>
    if ∃ earlier ∈ s.issued, earlier.executorId = heartbeat.executorId ∧
        heartbeat.timestamp < earlier.timestamp then none
    else
      some { s with
        calls := s.calls ++ [.saving heartbeat isLocal]
        issued := s.issued ++ [heartbeat] }
| .advance i => s.calls[i]?.bind (advanceCall listenerOnly s i)
| .failPut i =>
    match s.calls[i]? with
    | some (.saving _ _) => some { s with calls := s.calls.set i .done }
    | _ => none
| .deliver =>
    match s.events with
    | heartbeat :: events =>
        some { s with
          executorsHeartbeat :=
            insertHeartbeat s.executorsHeartbeat heartbeat.executorId heartbeat
          events := events }
    | [] => none

/- A run of actions, stopping at the first one not enabled. -/
def run
    (listenerOnly : Bool) :
    HeartbeatState → List Action → Option HeartbeatState :=
  runSteps (step listenerOnly)

/- Every call has returned and every event has been delivered. -/
def Quiescent
    (s : HeartbeatState) : Prop :=
  (∀ call ∈ s.calls, call = .done) ∧ s.events = []

instance (s : HeartbeatState) : Decidable (Quiescent s) :=
  inferInstanceAs (Decidable (_ ∧ _))

/- The timestamp the cache holds for an executor. -/
def cachedTimestamp
    (s : HeartbeatState)
    (executorId : String) : Option Nat :=
  (s.executorsHeartbeat.lookup executorId).map ExecutorHeartbeat.timestamp

end HeartbeatListener

end Ballista

------------------------------------------------------------
-- The Cache Regresses and Goes Stale
------------------------------------------------------------

namespace Ballista

namespace HeartbeatListener

/-
  Two local saves of one executor, at timestamps 1 and then 2. Both
  puts land and the listener delivers both events, so the cache
  holds timestamp 2. The later save inserts, then the earlier one
  inserts last: the cache falls back to timestamp 1. Every call has
  returned and every event has been delivered, yet the cache holds
  timestamp 1 while the keyspace holds timestamp 2.
-/
theorem saveExecutorHeartbeat_cache_regresses :
    ∃ s s',
      run false HeartbeatState.initial
          [.saveExecutorHeartbeat ⟨"executor-1", 1⟩ true,
            .saveExecutorHeartbeat ⟨"executor-1", 2⟩ true,
            .advance 0,
            .advance 1,
            .deliver,
            .deliver,
            .advance 1] = some s ∧
        step false s (.advance 0) = some s' ∧
        cachedTimestamp s "executor-1" = some 2 ∧
        cachedTimestamp s' "executor-1" = some 1 ∧
        Quiescent s' ∧
        s'.executorsHeartbeat.lookup "executor-1" ≠ s'.heartbeats "executor-1" :=
  ⟨_, _, rfl, rfl, by decide, by decide, by decide, by decide⟩

end HeartbeatListener

end Ballista

------------------------------------------------------------
-- A Cache Fed Only by the Listener
------------------------------------------------------------

namespace Ballista

namespace HeartbeatListener

open ExecutorManager

/- The newest undelivered heartbeat of an executor. -/
def lastEventFor
    (events : List ExecutorHeartbeat)
    (executorId : String) :
    Option ExecutorHeartbeat :=
  (events.filter (fun heartbeat => heartbeat.executorId = executorId)).getLast?

@[simp] theorem lastEventFor_nil
    (executorId : String) :
    lastEventFor [] executorId = none :=
  rfl

@[simp] theorem lastEventFor_concat
    (events : List ExecutorHeartbeat)
    (heartbeat : ExecutorHeartbeat)
    (executorId : String) :
    lastEventFor (events ++ [heartbeat]) executorId =
      if heartbeat.executorId = executorId then some heartbeat
      else lastEventFor events executorId := by
  by_cases hId : heartbeat.executorId = executorId <;>
    simp [lastEventFor, List.filter_append, hId]

@[simp] theorem lastEventFor_cons
    (heartbeat : ExecutorHeartbeat)
    (events : List ExecutorHeartbeat)
    (executorId : String) :
    lastEventFor (heartbeat :: events) executorId =
      (lastEventFor events executorId).or
        (if heartbeat.executorId = executorId then some heartbeat else none) := by
  rw [lastEventFor, ← List.singleton_append, List.filter_append, List.getLast?_append]
  by_cases hId : heartbeat.executorId = executorId <;> simp [lastEventFor, hId]

/-
  With the listener as the only writer of the cache, the keyspace
  holds, for every executor, its newest undelivered heartbeat, or
  else what the cache holds; no save is ever left to insert.
-/
structure ListenerInv
    (s : HeartbeatState) : Prop where
  noInserting : ∀ call ∈ s.calls, ∀ heartbeat, call ≠ .inserting heartbeat
  tracks : ∀ executorId, s.heartbeats executorId =
    (lastEventFor s.events executorId).or (s.executorsHeartbeat.lookup executorId)

/- Replacing a call by one that does not insert keeps `noInserting`. -/
theorem noInserting_set
    {calls : List SaveCall}
    {i : Nat}
    {call : SaveCall}
    (hCalls : ∀ call ∈ calls, ∀ heartbeat, call ≠ .inserting heartbeat)
    (hCall : ∀ heartbeat, call ≠ .inserting heartbeat) :
    ∀ call' ∈ calls.set i call, ∀ heartbeat, call' ≠ .inserting heartbeat := by
  intro call' hMem
  rcases List.mem_or_eq_of_mem_set hMem with hOld | rfl
  · exact hCalls call' hOld
  · exact hCall

/- Every listener-only step keeps the invariant. -/
theorem ListenerInv.step
    {s s' : HeartbeatState}
    {action : Action}
    (hInv : ListenerInv s)
    (hStep : step true s action = some s') :
    ListenerInv s' := by
  cases action with
  | saveExecutorHeartbeat heartbeat isLocal =>
      simp only [HeartbeatListener.step] at hStep
      split at hStep
      · cases hStep
      · cases hStep
        refine ⟨fun call hMem heartbeat' => ?_, hInv.tracks⟩
        rcases List.mem_append.mp hMem with hOld | hNew
        · exact hInv.noInserting call hOld heartbeat'
        · simp only [List.mem_singleton] at hNew
          simp [hNew]
  | advance i =>
      simp only [HeartbeatListener.step] at hStep
      cases hCall : s.calls[i]? with
      | none => simp [hCall] at hStep
      | some call =>
          simp only [hCall, Option.some_bind] at hStep
          cases call with
          | saving heartbeat isLocal =>
              simp only [advanceCall, Bool.not_true, Bool.and_false, Bool.false_eq_true,
                if_false, Option.some.injEq] at hStep
              subst hStep
              refine ⟨noInserting_set hInv.noInserting (by simp), fun executorId => ?_⟩
              by_cases hId : heartbeat.executorId = executorId
              · subst hId
                simp
              · simp [Function.update_noteq (Ne.symm hId), hId, hInv.tracks executorId]
          | inserting heartbeat =>
              exact absurd rfl (hInv.noInserting _ (List.getElem?_mem hCall) heartbeat)
          | done => simp [advanceCall] at hStep
  | failPut i =>
      simp only [HeartbeatListener.step] at hStep
      split at hStep
      · cases hStep
        exact ⟨noInserting_set hInv.noInserting (by simp), hInv.tracks⟩
      · cases hStep
  | deliver =>
      simp only [HeartbeatListener.step] at hStep
      split at hStep
      · rename_i heartbeat events hEvents
        cases hStep
        refine ⟨hInv.noInserting, fun executorId => ?_⟩
        rw [hInv.tracks executorId, hEvents]
        by_cases hId : heartbeat.executorId = executorId
        · subst hId
          cases hLast : lastEventFor events heartbeat.executorId <;> simp [hLast]
        · simp [hId, Ne.symm hId]
      · cases hStep

/-
  If saves left the cache to the listener, then once every call has
  returned and every event has been delivered, the cache would
  equal the decoded `Heartbeats` keyspace.
-/
theorem listenerOnly_cache_matches_heartbeats
    (actions : List Action)
    (s : HeartbeatState)
    (hRun : run true HeartbeatState.initial actions = some s)
    (hQuiet : Quiescent s) :
    ∀ executorId, s.executorsHeartbeat.lookup executorId = s.heartbeats executorId := by
  have hInv := runSteps_invariant ListenerInv (fun _ _ _ hInv hStep => hInv.step hStep)
    ⟨by simp [HeartbeatState.initial], fun _ => rfl⟩ hRun
  intro executorId
  rw [hInv.tracks executorId, hQuiet.2]
  simp

/- One local save, its put and its event: the cache matches. -/
theorem listenerOnly_cache_matches_heartbeats_one_save :
    run true HeartbeatState.initial
        [.saveExecutorHeartbeat ⟨"executor-1", 1⟩ true, .advance 0, .deliver] =
      some ⟨Function.update (fun _ => none) "executor-1" (some ⟨"executor-1", 1⟩),
        [("executor-1", ⟨"executor-1", 1⟩)], [], [.done], [⟨"executor-1", 1⟩]⟩ ∧
      Quiescent ⟨Function.update (fun _ => none) "executor-1" (some ⟨"executor-1", 1⟩),
        [("executor-1", ⟨"executor-1", 1⟩)], [], [.done], [⟨"executor-1", 1⟩]⟩ ∧
      ∀ executorId,
        [("executor-1", (⟨"executor-1", 1⟩ : ExecutorHeartbeat))].lookup executorId =
          Function.update (fun _ => none) "executor-1"
            (some (⟨"executor-1", 1⟩ : ExecutorHeartbeat)) executorId :=
  ⟨rfl, by decide, listenerOnly_cache_matches_heartbeats
    [.saveExecutorHeartbeat ⟨"executor-1", 1⟩ true, .advance 0, .deliver]
    ⟨Function.update (fun _ => none) "executor-1" (some ⟨"executor-1", 1⟩),
      [("executor-1", ⟨"executor-1", 1⟩)], [], [.done], [⟨"executor-1", 1⟩]⟩
    rfl (by decide)⟩

end HeartbeatListener

end Ballista
