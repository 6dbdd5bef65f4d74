import Ballista.Core.Types

/-
  The abort handles of `Executor` (`executor/src/executor.rs`).
  `execute_shuffle_write` first rejects a plan that is not a
  `ShuffleWriterExec`. Otherwise it makes its task abortable and
  records the handle under `(job_id, stage_id, partition)`. It then
  awaits the task and, if the task succeeded, removes the entry for
  its key. `cancel_task` removes the entry for a key and aborts the
  handle it held.

  The map sits behind a mutex, so each insert or remove is one
  step. `cancel_task` removes and aborts under one lock, so it is
  one step too. `Abortable` reads the abort flag when a poll starts
  and answers `Ok` whenever the task completes within that poll. A
  write whose final poll starts after the abort ends with `Aborted`,
  which the caller sees as `Cancelled` (`complete`). A write whose
  final poll read the flag before `cancel_task` set it and completes
  after it yields the task's own outcome (`completeDuringAbort`).

  A handle is named by the number of the call that made it. The
  shuffle write's own outcome is chosen when the task completes.
  `exclusiveKeys` restricts the environment to never start a write
  for a key while another write for it is in flight.

  Main declarations:
    * `Call`, `ExecutorState`, `Action`, `step`, `run`
    * `abortHandles_outlive_failed_and_finished_writes`
    * `HandleInv`, `abortHandles_entries_owned`
    * `ExclusiveInv`, `cancelTask_cancels_awaiting_write`
-/

------------------------------------------------------------
-- Calls and Their Steps
------------------------------------------------------------

namespace Ballista

namespace Executor

/- `(job_id, stage_id, partition)`. -/
abbrev TaskKey :=
  String × Nat × Nat

/- Where one call stands. -/
inductive Call
/- `execute_shuffle_write` started, before its plan check. -/
| writeStarted (key : TaskKey) (isShuffleWriter : Bool)
/- Its handle is recorded and it awaits the task; `aborted` once aborted. -/
| writeAwaiting (key : TaskKey) (aborted : Bool)
/- The task succeeded; the call is about to remove its entry. -/
| writeRemoving (key : TaskKey)
/- The call returned the task's own error through `?`. -/
| writeFailed (key : TaskKey) (error : BallistaError)
/- The call returned any other way. -/
| writeReturned (key : TaskKey) (result : Except BallistaError Unit)
/- A `cancel_task` call returned. -/
| cancelReturned (key : TaskKey) (result : Bool)
deriving DecidableEq, Repr

/- The map `abort_handles`, in iteration order, and every call so far. -/
structure ExecutorState where
  abortHandles : List (TaskKey × Nat)
  calls : List Call
deriving DecidableEq, Repr

/- An executor with no calls yet. -/
def ExecutorState.initial : ExecutorState :=
  ⟨[], []⟩

/- `abort_handles.insert(key, handle)`: replaces any entry for `key`. -/
def insertHandle
    (abortHandles : List (TaskKey × Nat))
    (key : TaskKey)
    (handle : Nat) :
    List (TaskKey × Nat) :=
  (key, handle) :: abortHandles.filter (fun entry => entry.1 ≠ key)

/- `abort_handles.remove(key)`. -/
def removeHandle
    (abortHandles : List (TaskKey × Nat))
    (key : TaskKey) :
    List (TaskKey × Nat) :=
  abortHandles.filter (fun entry => entry.1 ≠ key)

/- `handle.abort()` as the call owning the handle sees it. -/
def abortCall : Call → Call
| .writeAwaiting key _ => .writeAwaiting key true
| call => call

/- The error of a plan that is not a `ShuffleWriterExec`. -/
def notShuffleWriterError : BallistaError :=
  .dataFusionError "Plan passed to execute_shuffle_write is not a ShuffleWriterExec"

/- What a run can do next. -/
inductive Action
/- Start `execute_shuffle_write` for `key`. -/
| executeShuffleWrite (key : TaskKey) (isShuffleWriter : Bool)
/- Run `cancel_task` for `key`. -/
| cancelTask (key : TaskKey)
/- Call `call` takes its next map step. -/
| advance (call : Nat)
/- Call `call`'s task completes; the shuffle write yields `result`. -/
| complete (call : Nat) (result : Except BallistaError Unit)
/-
  Call `call`'s task completes in a poll that read the abort flag
  before the latest `cancel_task` set it.
-/
| completeDuringAbort (call : Nat) (result : Except BallistaError Unit)
deriving DecidableEq, Repr

/- The next map step of call `i`, standing at `call`. -/
def advanceCall
    (ex : ExecutorState)
    (i : Nat) :
    Call → Option ExecutorState
| .writeStarted key true =>
    some ⟨insertHandle ex.abortHandles key i, ex.calls.set i (.writeAwaiting key false)⟩
| .writeStarted key false =>
    some { ex with calls := ex.calls.set i (.writeReturned key (.error notShuffleWriterError)) }
| .writeRemoving key =>
    some ⟨removeHandle ex.abortHandles key, ex.calls.set i (.writeReturned key (.ok ()))⟩
| _ => none

/-
  Where `task.await??` leaves a write for `key`. An abort that came
  first wins over the task's outcome.
-/
def awaitOutcome
    (key : TaskKey)
    (aborted : Bool)
    (result : Except BallistaError Unit) :
    Call :=
  if aborted then .writeReturned key (.error .cancelled)
  else
    match result with
    | .ok () => .writeRemoving key
    | .error error => .writeFailed key error

/-
  `task.await??` of call `i`, standing at `call`. The final poll
  sees the abort flag unless it read the flag before the abort
  (`duringAbort`).
-/
def completeCall
    (ex : ExecutorState)
    (i : Nat)
    (result : Except BallistaError Unit)
    (duringAbort : Bool) :
    Call → Option ExecutorState
| .writeAwaiting key aborted =>
    some { ex with calls := ex.calls.set i (awaitOutcome key (aborted && !duringAbort) result) }
| _ => none

/- The key of a write call that has started and not returned. -/
def Call.inFlightKey : Call → Option TaskKey
| .writeStarted key _ => some key
| .writeAwaiting key _ => some key
| .writeRemoving key => some key
| _ => none

/- One step of a run, if the action is enabled. -/
def step
    (exclusiveKeys : Bool)
    (ex : ExecutorState) :
    Action → Option ExecutorState
| .executeShuffleWrite key isShuffleWriter =>
    if exclusiveKeys ∧ ∃ call ∈ ex.calls, call.inFlightKey = some key then none
    else some { ex with calls := ex.calls ++ [.writeStarted key isShuffleWriter] }
| .cancelTask key =>
    match ex.abortHandles.find? (fun entry => entry.1 = key) with
    | some (_, handle) =>
        some ⟨removeHandle ex.abortHandles key,
          ex.calls.modify abortCall handle ++ [.cancelReturned key true]⟩
    | none => some { ex with calls := ex.calls ++ [.cancelReturned key false] }
| .advance i => ex.calls[i]?.bind (advanceCall ex i)
| .complete i result => ex.calls[i]?.bind (completeCall ex i result false)
| .completeDuringAbort i result => ex.calls[i]?.bind (completeCall ex i result true)

/- A run of actions, stopping at the first one not enabled. -/
def run
    (exclusiveKeys : Bool) :
    ExecutorState → List Action → Option ExecutorState :=
  runSteps (step exclusiveKeys)

/- No write call is in flight. -/
def Quiescent
    (ex : ExecutorState) : Prop :=
  ∀ call ∈ ex.calls, call.inFlightKey = none

instance (ex : ExecutorState) : Decidable (Quiescent ex) :=
  inferInstanceAs (Decidable (∀ _ ∈ _, _))

end Executor

end Ballista

------------------------------------------------------------
-- Entries That Outlive Their Call
------------------------------------------------------------

namespace Ballista

namespace Executor

/-
  A write whose shuffle write fails returns through `?` before it
  removes its entry. The entry stays with no call in flight, and a
  later `cancel_task` for the key still answers `true`. Independently,
  a `cancel_task` that lands after the task succeeded but before the
  entry is removed answers `true`, while the write returns `Ok`.
-/
theorem abortHandles_outlive_failed_and_finished_writes :
    (∃ ex,
      run false ExecutorState.initial
          [.executeShuffleWrite ("job", 1, 0) true,
            .advance 0,
            .complete 0 (.error (.dataFusionError "shuffle write failed"))] =
        some ex ∧
      Quiescent ex ∧ ex.abortHandles ≠ [] ∧
      step false ex (.cancelTask ("job", 1, 0)) =
        some ⟨[], ex.calls ++ [.cancelReturned ("job", 1, 0) true]⟩) ∧
    run false ExecutorState.initial
        [.executeShuffleWrite ("job", 1, 0) true,
          .advance 0,
          .complete 0 (.ok ()),
          .cancelTask ("job", 1, 0),
          .advance 0] =
      some ⟨[], [.writeReturned ("job", 1, 0) (.ok ()),
        .cancelReturned ("job", 1, 0) true]⟩ :=
  ⟨⟨_, rfl, by decide, by decide, rfl⟩, rfl⟩

end Executor

end Ballista

------------------------------------------------------------
-- Who Owns an Entry
------------------------------------------------------------

namespace Ballista

namespace Executor

/-
  The key under which a write may own an entry: it has recorded its
  handle, was never aborted, and has not removed its entry after a
  success.
-/
def Call.entryKey : Call → Option TaskKey
| .writeAwaiting key false => some key
| .writeRemoving key => some key
| .writeFailed key _ => some key
| _ => none

/- Entry `(key, handle)` belongs to call `handle`, which may own it. -/
def OwnsEntry
    (calls : List Call)
    (entry : TaskKey × Nat) : Prop :=
  calls[entry.2]?.bind Call.entryKey = some entry.1

/-
  Keys are unique and every entry is owned: no entry belongs to an
  aborted write, to a write that removed its entry, or to no write.
-/
structure HandleInv
    (ex : ExecutorState) : Prop where
  keysNodup : (ex.abortHandles.map Prod.fst).Nodup
  owned : ∀ entry ∈ ex.abortHandles, OwnsEntry ex.calls entry

@[simp] theorem mem_insertHandle
    {abortHandles : List (TaskKey × Nat)}
    {key : TaskKey}
    {handle : Nat}
    {entry : TaskKey × Nat} :
    entry ∈ insertHandle abortHandles key handle ↔
      entry = (key, handle) ∨ entry ∈ abortHandles ∧ entry.1 ≠ key := by
  simp [insertHandle]

@[simp] theorem mem_removeHandle
    {abortHandles : List (TaskKey × Nat)}
    {key : TaskKey}
    {entry : TaskKey × Nat} :
    entry ∈ removeHandle abortHandles key ↔
      entry ∈ abortHandles ∧ entry.1 ≠ key := by
  simp [removeHandle]

theorem removeHandle_keys_nodup
    {abortHandles : List (TaskKey × Nat)}
    (key : TaskKey)
    (hNodup : (abortHandles.map Prod.fst).Nodup) :
    ((removeHandle abortHandles key).map Prod.fst).Nodup :=
  hNodup.sublist ((List.filter_sublist abortHandles).map Prod.fst)

theorem insertHandle_keys_nodup
    {abortHandles : List (TaskKey × Nat)}
    (key : TaskKey)
    (handle : Nat)
    (hNodup : (abortHandles.map Prod.fst).Nodup) :
    ((insertHandle abortHandles key handle).map Prod.fst).Nodup := by
  refine List.nodup_cons.mpr ⟨?_, removeHandle_keys_nodup key hNodup⟩
  simp

/- Among unique keys, `find?` for a key answers its entry. -/
theorem find?_key_of_mem
    {abortHandles : List (TaskKey × Nat)}
    {key : TaskKey}
    {handle : Nat}
    (hNodup : (abortHandles.map Prod.fst).Nodup)
    (hMem : (key, handle) ∈ abortHandles) :
    abortHandles.find? (fun entry => entry.1 = key) = some (key, handle) := by
  induction abortHandles with
  | nil => cases hMem
  | cons entry abortHandles ih =>
      simp only [List.map_cons, List.nodup_cons] at hNodup
      rcases List.mem_cons.mp hMem with hHead | hTail
      · simp [← hHead]
      · have hKey : entry.1 ≠ key := fun hEq =>
          hNodup.1 (hEq ▸ List.mem_map_of_mem Prod.fst hTail)
        simp [List.find?_cons, hKey, ih hNodup.2 hTail]

namespace OwnsEntry

variable {calls : List Call} {entry : TaskKey × Nat}

theorem lt_length
    (hOwned : OwnsEntry calls entry) :
    entry.2 < calls.length := by
  by_contra hOut
  simp [OwnsEntry, List.getElem?_eq_none (Nat.le_of_not_lt hOut)] at hOwned

/- One call owns entries of one key only. -/
theorem key_eq
    {key : TaskKey}
    (hOwned : OwnsEntry calls entry)
    (hOther : OwnsEntry calls (key, entry.2)) :
    entry.1 = key :=
  Option.some.inj (hOwned.symm.trans hOther)

/- A call owning no entry under the entry's key is not its owner. -/
theorem ne_of_entryKey
    {i : Nat}
    (hOwned : OwnsEntry calls entry)
    (hNot : calls[i]?.bind Call.entryKey ≠ some entry.1) :
    entry.2 ≠ i :=
  fun hEq => hNot (hEq ▸ hOwned)

theorem append
    (hOwned : OwnsEntry calls entry)
    (extra : List Call) :
    OwnsEntry (calls ++ extra) entry := by
  have hLt := hOwned.lt_length
  unfold OwnsEntry at hOwned ⊢
  rwa [List.getElem?_append_left hLt]

theorem set
    {i : Nat}
    {call : Call}
    (hOwned : OwnsEntry calls entry)
    (hNe : entry.2 ≠ i) :
    OwnsEntry (calls.set i call) entry := by
  unfold OwnsEntry at hOwned ⊢
  rwa [List.getElem?_set_ne (Ne.symm hNe)]

theorem modify
    {i : Nat}
    {f : Call → Call}
    (hOwned : OwnsEntry calls entry)
    (hNe : entry.2 ≠ i) :
    OwnsEntry (calls.modify f i) entry := by
  unfold OwnsEntry at hOwned ⊢
  simp [List.getElem?_modify, Ne.symm hNe] at hOwned ⊢
  exact hOwned

end OwnsEntry

@[simp] theorem entryKey_awaitOutcome
    (key : TaskKey)
    (aborted : Bool)
    (result : Except BallistaError Unit) :
    (awaitOutcome key aborted result).entryKey =
      if aborted then none else some key := by
  cases aborted <;> cases result <;> rfl

/- Starting a write only appends a call. -/
theorem HandleInv.executeShuffleWrite
    {exclusiveKeys : Bool}
    {ex ex' : ExecutorState}
    {key : TaskKey}
    {isShuffleWriter : Bool}
    (hInv : HandleInv ex)
    (hStep : step exclusiveKeys ex (.executeShuffleWrite key isShuffleWriter) =
      some ex') :
    HandleInv ex' := by
  simp only [step] at hStep
  split at hStep
  · cases hStep
  · cases hStep
    exact ⟨hInv.keysNodup, fun entry hEntry => (hInv.owned entry hEntry).append _⟩

/-
  `cancel_task` takes the entry it finds from the map; every other
  entry belongs to another call, which the abort leaves alone.
-/
theorem HandleInv.cancelTask
    {exclusiveKeys : Bool}
    {ex ex' : ExecutorState}
    {key : TaskKey}
    (hInv : HandleInv ex)
    (hStep : step exclusiveKeys ex (.cancelTask key) = some ex') :
    HandleInv ex' := by
  simp only [step] at hStep
  split at hStep
  · rename_i found handle hFind
    cases hStep
    have hFound : found = key := by simpa using List.find?_some hFind
    subst hFound
    have hOwner := hInv.owned _ (List.mem_of_find?_eq_some hFind)
    refine ⟨removeHandle_keys_nodup _ hInv.keysNodup, fun entry hEntry => ?_⟩
    obtain ⟨hIn, hKey⟩ := mem_removeHandle.mp hEntry
    have hOwned := hInv.owned entry hIn
    have hNe : entry.2 ≠ handle := fun hEq =>
      hKey (hOwned.key_eq (hEq ▸ hOwner))
    exact (hOwned.modify hNe).append _
  · cases hStep
    exact ⟨hInv.keysNodup, fun entry hEntry => (hInv.owned entry hEntry).append _⟩

/-
  A map step of a call: recording a handle makes the call its
  owner, a rejected plan owns nothing, and removal after success
  takes the call's own key away.
-/
theorem HandleInv.advance
    {exclusiveKeys : Bool}
    {ex ex' : ExecutorState}
    {i : Nat}
    (hInv : HandleInv ex)
    (hStep : step exclusiveKeys ex (.advance i) = some ex') :
    HandleInv ex' := by
  simp only [step] at hStep
  cases hCall : ex.calls[i]? with
  | none => simp [hCall] at hStep
  | some call =>
      simp only [hCall, Option.some_bind] at hStep
      have hi : i < ex.calls.length := (List.getElem?_eq_some_iff.mp hCall).1
      cases call with
      | writeStarted key isShuffleWriter =>
          have hNotOwner : ∀ entry ∈ ex.abortHandles, entry.2 ≠ i := fun entry hEntry =>
            (hInv.owned entry hEntry).ne_of_entryKey (by simp [hCall, Call.entryKey])
          cases isShuffleWriter <;>
            simp only [advanceCall, Option.some.injEq] at hStep <;> subst hStep
          · exact ⟨hInv.keysNodup, fun entry hEntry =>
              (hInv.owned entry hEntry).set (hNotOwner entry hEntry)⟩
          · refine ⟨insertHandle_keys_nodup _ _ hInv.keysNodup, fun entry hEntry => ?_⟩
            rcases mem_insertHandle.mp hEntry with rfl | ⟨hIn, -⟩
            · simp [OwnsEntry, List.getElem?_set_self hi, Call.entryKey]
            · exact (hInv.owned entry hIn).set (hNotOwner entry hIn)
      | writeRemoving key =>
          simp only [advanceCall, Option.some.injEq] at hStep
          subst hStep
          refine ⟨removeHandle_keys_nodup _ hInv.keysNodup, fun entry hEntry => ?_⟩
          obtain ⟨hIn, hKey⟩ := mem_removeHandle.mp hEntry
          exact (hInv.owned entry hIn).set
            ((hInv.owned entry hIn).ne_of_entryKey (by simp [hCall, Call.entryKey, Ne.symm hKey]))
      | writeAwaiting => simp [advanceCall] at hStep
      | writeFailed => simp [advanceCall] at hStep
      | writeReturned => simp [advanceCall] at hStep
      | cancelReturned => simp [advanceCall] at hStep

/-
  A completing task keeps its call's key unless an abort came first,
  and an aborted call owned no entry to begin with.
-/
theorem HandleInv.complete
    {ex ex' : ExecutorState}
    {i : Nat}
    {result : Except BallistaError Unit}
    {duringAbort : Bool}
    (hInv : HandleInv ex)
    (hStep : ex.calls[i]?.bind (completeCall ex i result duringAbort) = some ex') :
    HandleInv ex' := by
  cases hCall : ex.calls[i]? with
  | none => simp [hCall] at hStep
  | some call =>
      simp only [hCall, Option.some_bind] at hStep
      have hi : i < ex.calls.length := (List.getElem?_eq_some_iff.mp hCall).1
      cases call with
      | writeAwaiting key aborted =>
          simp only [completeCall, Option.some.injEq] at hStep
          subst hStep
          refine ⟨hInv.keysNodup, fun entry hEntry => ?_⟩
          have hOwned := hInv.owned entry hEntry
          by_cases hOwner : entry.2 = i
          · have hKey : some key = some entry.1 ∧ aborted = false := by
              cases aborted <;> simp_all [OwnsEntry, Call.entryKey]
            simp [OwnsEntry, hOwner, List.getElem?_set_self hi, hKey.2,
              Option.some.inj hKey.1]
          · exact hOwned.set hOwner
      | writeStarted => simp [completeCall] at hStep
      | writeRemoving => simp [completeCall] at hStep
      | writeFailed => simp [completeCall] at hStep
      | writeReturned => simp [completeCall] at hStep
      | cancelReturned => simp [completeCall] at hStep

/- Every step keeps the invariant. -/
theorem HandleInv.step
    {exclusiveKeys : Bool}
    {ex ex' : ExecutorState}
    {action : Action}
    (hInv : HandleInv ex)
    (hStep : step exclusiveKeys ex action = some ex') :
    HandleInv ex' := by
  cases action with
  | executeShuffleWrite => exact hInv.executeShuffleWrite hStep
  | cancelTask => exact hInv.cancelTask hStep
  | advance => exact hInv.advance hStep
  | complete => exact hInv.complete hStep
  | completeDuringAbort => exact hInv.complete hStep

/- Every run from a fresh executor keeps the invariant. -/
theorem HandleInv.run
    {exclusiveKeys : Bool}
    {actions : List Action}
    {ex : ExecutorState}
    (hRun : run exclusiveKeys ExecutorState.initial actions = some ex) :
    HandleInv ex :=
  runSteps_invariant HandleInv (fun _ _ _ hInv hStep => hInv.step hStep)
    ⟨by simp [ExecutorState.initial],
      fun _ hEntry => by simp [ExecutorState.initial] at hEntry⟩ hRun

/- An owning call is awaiting unaborted, removing, or failed. -/
theorem ownsEntry_iff
    {calls : List Call}
    {entry : TaskKey × Nat} :
    OwnsEntry calls entry ↔
      calls[entry.2]? = some (.writeAwaiting entry.1 false) ∨
        calls[entry.2]? = some (.writeRemoving entry.1) ∨
        ∃ error, calls[entry.2]? = some (.writeFailed entry.1 error) := by
  unfold OwnsEntry
  cases calls[entry.2]? with
  | none => simp
  | some call =>
      cases call with
      | writeAwaiting key aborted => cases aborted <;> simp [Call.entryKey, eq_comm]
      | writeRemoving key => simp [Call.entryKey, eq_comm]
      | writeFailed key error => simp [Call.entryKey, eq_comm]
      | writeStarted => simp [Call.entryKey]
      | writeReturned => simp [Call.entryKey]
      | cancelReturned => simp [Call.entryKey]

/-
  In every run, keys are unique and each entry of `abort_handles`
  holds the handle of a write for its key that recorded it and was
  never aborted. That write is still awaiting its task, has
  succeeded and not yet removed the entry, or returned its task's
  error. At rest, only entries of failed writes remain.
-/
theorem abortHandles_entries_owned
    (exclusiveKeys : Bool)
    (actions : List Action)
    (ex : ExecutorState)
    (hRun : run exclusiveKeys ExecutorState.initial actions = some ex) :
    (ex.abortHandles.map Prod.fst).Nodup ∧
      (∀ entry ∈ ex.abortHandles,
        ex.calls[entry.2]? = some (.writeAwaiting entry.1 false) ∨
          ex.calls[entry.2]? = some (.writeRemoving entry.1) ∨
          ∃ error, ex.calls[entry.2]? = some (.writeFailed entry.1 error)) ∧
      (Quiescent ex → ∀ entry ∈ ex.abortHandles,
        ∃ error, ex.calls[entry.2]? = some (.writeFailed entry.1 error)) := by
  have hInv := HandleInv.run hRun
  refine ⟨hInv.keysNodup, fun entry hEntry => ownsEntry_iff.mp (hInv.owned entry hEntry),
    fun hQuiet entry hEntry => ?_⟩
  rcases ownsEntry_iff.mp (hInv.owned entry hEntry) with hCall | hCall | hFailed
  · exact absurd (hQuiet _ (List.getElem?_mem hCall)) (by simp [Call.inFlightKey])
  · exact absurd (hQuiet _ (List.getElem?_mem hCall)) (by simp [Call.inFlightKey])
  · exact hFailed

/- The failing write of the leak keeps its entry at rest. -/
theorem abortHandles_entries_owned_failed_write :
    run false ExecutorState.initial
        [.executeShuffleWrite ("job", 1, 0) true,
          .advance 0,
          .complete 0 (.error (.dataFusionError "shuffle write failed"))] =
      some ⟨[(("job", 1, 0), 0)],
        [.writeFailed ("job", 1, 0) (.dataFusionError "shuffle write failed")]⟩ ∧
      ∀ entry ∈ [((("job", 1, 0) : TaskKey), 0)],
        ∃ error, [Call.writeFailed ("job", 1, 0)
            (.dataFusionError "shuffle write failed")][entry.2]? =
          some (.writeFailed entry.1 error) :=
  ⟨rfl, (abortHandles_entries_owned false
    [.executeShuffleWrite ("job", 1, 0) true,
      .advance 0,
      .complete 0 (.error (.dataFusionError "shuffle write failed"))]
    ⟨[(("job", 1, 0), 0)],
      [.writeFailed ("job", 1, 0) (.dataFusionError "shuffle write failed")]⟩
    rfl).2.2 (by decide)⟩

end Executor

end Ballista

------------------------------------------------------------
-- Cancelling With One Write per Key
------------------------------------------------------------

namespace Ballista

namespace Executor

/-
  With one write per key in flight: no two in-flight writes share a
  key, and every write awaiting its task unaborted still has its
  entry.
-/
structure ExclusiveInv
    (ex : ExecutorState) : Prop where
  single : ∀ (i j : Nat) (key : TaskKey),
    ex.calls[i]?.bind Call.inFlightKey = some key →
    ex.calls[j]?.bind Call.inFlightKey = some key → i = j
  registered : ∀ (i : Nat) (key : TaskKey),
    ex.calls[i]? = some (.writeAwaiting key false) →
    (key, i) ∈ ex.abortHandles

@[simp] theorem inFlightKey_abortCall
    (call : Call) :
    (abortCall call).inFlightKey = call.inFlightKey := by
  cases call <;> rfl

theorem abortCall_ne_awaiting
    (call : Call)
    (key : TaskKey) :
    abortCall call ≠ .writeAwaiting key false := by
  cases call <;> simp [abortCall]

theorem awaitOutcome_inFlightKey
    (key : TaskKey)
    (aborted : Bool)
    (result : Except BallistaError Unit) :
    (awaitOutcome key aborted result).inFlightKey = none ∨
      (awaitOutcome key aborted result).inFlightKey = some key := by
  cases aborted <;> cases result <;> simp [awaitOutcome, Call.inFlightKey]

theorem awaitOutcome_ne_awaiting
    (key key' : TaskKey)
    (aborted : Bool)
    (result : Except BallistaError Unit) :
    awaitOutcome key aborted result ≠ .writeAwaiting key' false := by
  cases aborted <;> cases result <;> simp [awaitOutcome]

/- Unique keys name one handle each. -/
theorem handle_eq_of_mem
    {abortHandles : List (TaskKey × Nat)}
    {key : TaskKey}
    {handle handle' : Nat}
    (hNodup : (abortHandles.map Prod.fst).Nodup)
    (hMem : (key, handle) ∈ abortHandles)
    (hMem' : (key, handle') ∈ abortHandles) :
    handle = handle' := by
  have hFind := (find?_key_of_mem hNodup hMem).symm.trans (find?_key_of_mem hNodup hMem')
  simpa using hFind

/- A call read after appending another one was there before. -/
theorem getElem?_of_append_call
    {calls : List Call}
    {call found : Call}
    {i : Nat}
    (hNe : call ≠ found)
    (hRead : (calls ++ [call])[i]? = some found) :
    calls[i]? = some found := by
  rw [getElem?_concat_eq] at hRead
  split_ifs at hRead
  · exact hRead
  · exact absurd (Option.some.inj hRead) hNe

/- Appending a call that is not an in-flight write adds no in-flight key. -/
theorem inFlightKey_append_of_none
    {calls : List Call}
    {call : Call}
    (hNone : call.inFlightKey = none)
    {i : Nat}
    {key : TaskKey}
    (hKey : (calls ++ [call])[i]?.bind Call.inFlightKey = some key) :
    calls[i]?.bind Call.inFlightKey = some key := by
  rw [getElem?_concat_eq] at hKey
  split_ifs at hKey <;> simp_all

/- Setting a call to one with no new in-flight key adds none. -/
theorem inFlightKey_set_of_le
    {calls : List Call}
    {i : Nat}
    {old new : Call}
    (hOld : calls[i]? = some old)
    (hNew : new.inFlightKey = none ∨ new.inFlightKey = old.inFlightKey)
    {j : Nat}
    {key : TaskKey}
    (hKey : (calls.set i new)[j]?.bind Call.inFlightKey = some key) :
    calls[j]?.bind Call.inFlightKey = some key := by
  by_cases hj : j = i
  · subst hj
    have hi : j < calls.length := (List.getElem?_eq_some_iff.mp hOld).1
    rw [List.getElem?_set_self hi] at hKey
    rcases hNew with hNone | hSame
    · simp [hNone] at hKey
    · simpa [hOld, ← hSame] using hKey
  · rwa [List.getElem?_set_ne (Ne.symm hj)] at hKey

/- An awaiting call after a step that set call `i` to `new`. -/
theorem getElem?_set_awaiting
    {calls : List Call}
    {i j : Nat}
    {new : Call}
    {key : TaskKey}
    (hNew : new ≠ .writeAwaiting key false)
    (hAwaiting : (calls.set i new)[j]? = some (.writeAwaiting key false)) :
    j ≠ i ∧ calls[j]? = some (.writeAwaiting key false) := by
  by_cases hj : j = i
  · subst hj
    rw [List.getElem?_set] at hAwaiting
    split_ifs at hAwaiting <;> simp_all
  · rw [List.getElem?_set_ne (Ne.symm hj)] at hAwaiting
    exact ⟨hj, hAwaiting⟩

/- A start under exclusive keys opens the only in-flight write for its key. -/
theorem ExclusiveInv.executeShuffleWrite
    {ex ex' : ExecutorState}
    {key : TaskKey}
    {isShuffleWriter : Bool}
    (hInv : ExclusiveInv ex)
    (hStep : step true ex (.executeShuffleWrite key isShuffleWriter) = some ex') :
    ExclusiveInv ex' := by
  simp only [step, true_and] at hStep
  split at hStep
  · cases hStep
  · rename_i hFresh
    cases hStep
    -- the new call is in flight for `key` only, and no older call is
    have hOld : ∀ (i : Nat) (key' : TaskKey),
        (ex.calls ++ [.writeStarted key isShuffleWriter])[i]?.bind
        Call.inFlightKey = some key' →
        ex.calls[i]?.bind Call.inFlightKey = some key' ∨
          (i = ex.calls.length ∧ key' = key) := by
      intro i key' hKey
      rw [getElem?_concat_eq] at hKey
      split_ifs at hKey with hLt hEq
      · exact .inl hKey
      · simp only [Option.some_bind, Call.inFlightKey, Option.some.injEq] at hKey
        exact .inr ⟨hEq, hKey.symm⟩
      · simp at hKey
    have hNotOld : ∀ j : Nat, ex.calls[j]?.bind Call.inFlightKey ≠ some key := by
      intro j hKey
      cases hCall : ex.calls[j]? with
      | none => simp [hCall] at hKey
      | some call =>
          exact hFresh ⟨call, List.getElem?_mem hCall, by simpa [hCall] using hKey⟩
    refine ⟨fun i j key' hi hj => ?_, fun i key' hAwaiting => ?_⟩
    · rcases hOld i key' hi with hi' | ⟨rfl, rfl⟩
      · rcases hOld j key' hj with hj' | ⟨rfl, rfl⟩
        · exact hInv.single i j key' hi' hj'
        · exact absurd hi' (hNotOld i)
      · rcases hOld j key' hj with hj' | ⟨rfl, -⟩
        · exact absurd hj' (hNotOld j)
        · rfl
    · exact hInv.registered i key' (getElem?_of_append_call (by simp) hAwaiting)

/-
  `cancel_task` aborts the owner of the entry it takes; every other
  awaiting write keeps an entry under another key.
-/
theorem ExclusiveInv.cancelTask
    {ex ex' : ExecutorState}
    {key : TaskKey}
    (hHandles : HandleInv ex)
    (hInv : ExclusiveInv ex)
    (hStep : step true ex (.cancelTask key) = some ex') :
    ExclusiveInv ex' := by
  simp only [step] at hStep
  split at hStep
  · rename_i found handle hFind
    cases hStep
    have hFound : found = key := by simpa using List.find?_some hFind
    subst hFound
    have hTaken := List.mem_of_find?_eq_some hFind
    -- the abort keeps every call's in-flight key
    have hLe : ∀ (i : Nat) (key' : TaskKey), (ex.calls.modify abortCall handle ++
        [.cancelReturned found true])[i]?.bind Call.inFlightKey = some key' →
        ex.calls[i]?.bind Call.inFlightKey = some key' := by
      intro i key' hKey
      have hModify := inFlightKey_append_of_none (by rfl) hKey
      rw [List.getElem?_modify] at hModify
      cases hCall : ex.calls[i]? with
      | none => simp [hCall] at hModify
      | some call =>
          by_cases hi : handle = i <;> simp_all
    refine ⟨fun i j key' hi hj => hInv.single i j key' (hLe i key' hi) (hLe j key' hj),
      fun i key' hAwaiting => ?_⟩
    replace hAwaiting := getElem?_of_append_call (by simp) hAwaiting
    rw [List.getElem?_modify] at hAwaiting
    cases hCall : ex.calls[i]? with
    | none => simp [hCall] at hAwaiting
    | some call =>
        have hNotHandle : handle ≠ i := by
          intro hEq
          simp only [hCall, hEq, if_true, Option.map_eq_map, Option.map_some',
            Option.some.injEq] at hAwaiting
          exact abortCall_ne_awaiting call key' hAwaiting
        simp only [hCall, hNotHandle, if_false, Option.map_eq_map, Option.map_some',
          Option.some.injEq] at hAwaiting
        subst hAwaiting
        have hRegistered := hInv.registered i key' hCall
        refine mem_removeHandle.mpr ⟨hRegistered, fun hKey => hNotHandle ?_⟩
        exact handle_eq_of_mem hHandles.keysNodup hTaken (hKey ▸ hRegistered)
  · cases hStep
    refine ⟨fun i j key' hi hj => hInv.single i j key'
      (inFlightKey_append_of_none (by rfl) hi) (inFlightKey_append_of_none (by rfl) hj),
      fun i key' hAwaiting =>
        hInv.registered i key' (getElem?_of_append_call (by simp) hAwaiting)⟩

/-
  A map step: recording a handle makes the call the awaiting owner
  of its key; removing or rejecting touches no other awaiting write,
  since no other write is in flight for the key.
-/
theorem ExclusiveInv.advance
    {ex ex' : ExecutorState}
    {i : Nat}
    (hInv : ExclusiveInv ex)
    (hStep : step true ex (.advance i) = some ex') :
    ExclusiveInv ex' := by
  simp only [step] at hStep
  cases hCall : ex.calls[i]? with
  | none => simp [hCall] at hStep
  | some call =>
      simp only [hCall, Option.some_bind] at hStep
      have hi : i < ex.calls.length := (List.getElem?_eq_some_iff.mp hCall).1
      -- another awaiting write is in flight for a key other than call `i`'s
      have hOtherKey : ∀ (j : Nat) (key key' : TaskKey), call.inFlightKey = some key →
          ex.calls[j]? = some (.writeAwaiting key' false) → j ≠ i → key' ≠ key := by
        intro j key key' hKey hAwaiting hNe hEq
        subst hEq
        exact hNe (hInv.single j i key' (by simp [hAwaiting, Call.inFlightKey])
          (by simp [hCall, hKey]))
      cases call with
      | writeStarted key isShuffleWriter =>
          cases isShuffleWriter <;>
            simp only [advanceCall, Option.some.injEq] at hStep <;> subst hStep
          · refine ⟨fun j k key' hj hk => hInv.single j k key'
              (inFlightKey_set_of_le hCall (.inl (by rfl)) hj)
              (inFlightKey_set_of_le hCall (.inl (by rfl)) hk),
              fun j key' hAwaiting => ?_⟩
            obtain ⟨-, hOld⟩ := getElem?_set_awaiting (by simp) hAwaiting
            exact hInv.registered j key' hOld
          · refine ⟨fun j k key' hj hk => hInv.single j k key'
              (inFlightKey_set_of_le hCall (.inr (by rfl)) hj)
              (inFlightKey_set_of_le hCall (.inr (by rfl)) hk),
              fun j key' hAwaiting => ?_⟩
            by_cases hj : j = i
            · subst hj
              rw [List.getElem?_set_self hi] at hAwaiting
              cases hAwaiting
              exact mem_insertHandle.mpr (.inl (by rfl))
            · rw [List.getElem?_set_ne (Ne.symm hj)] at hAwaiting
              exact mem_insertHandle.mpr (.inr ⟨hInv.registered j key' hAwaiting,
                hOtherKey j key key' rfl hAwaiting hj⟩)
      | writeRemoving key =>
          simp only [advanceCall, Option.some.injEq] at hStep
          subst hStep
          refine ⟨fun j k key' hj hk => hInv.single j k key'
            (inFlightKey_set_of_le hCall (.inl (by rfl)) hj)
            (inFlightKey_set_of_le hCall (.inl (by rfl)) hk),
            fun j key' hAwaiting => ?_⟩
          obtain ⟨hj, hOld⟩ := getElem?_set_awaiting (by simp) hAwaiting
          exact mem_removeHandle.mpr ⟨hInv.registered j key' hOld,
            hOtherKey j key key' rfl hOld hj⟩
      | writeAwaiting => simp [advanceCall] at hStep
      | writeFailed => simp [advanceCall] at hStep
      | writeReturned => simp [advanceCall] at hStep
      | cancelReturned => simp [advanceCall] at hStep

/- A completing task only takes its own call out of the awaiting state. -/
theorem ExclusiveInv.complete
    {ex ex' : ExecutorState}
    {i : Nat}
    {result : Except BallistaError Unit}
    {duringAbort : Bool}
    (hInv : ExclusiveInv ex)
    (hStep : ex.calls[i]?.bind (completeCall ex i result duringAbort) = some ex') :
    ExclusiveInv ex' := by
  cases hCall : ex.calls[i]? with
  | none => simp [hCall] at hStep
  | some call =>
      simp only [hCall, Option.some_bind] at hStep
      cases call with
      | writeAwaiting key aborted =>
          simp only [completeCall, Option.some.injEq] at hStep
          subst hStep
          have hNew := awaitOutcome_inFlightKey key (aborted && !duringAbort) result
          refine ⟨fun j k key' hj hk => hInv.single j k key'
            (inFlightKey_set_of_le hCall hNew hj) (inFlightKey_set_of_le hCall hNew hk),
            fun j key' hAwaiting => ?_⟩
          obtain ⟨-, hOld⟩ := getElem?_set_awaiting
            (awaitOutcome_ne_awaiting key key' _ result) hAwaiting
          exact hInv.registered j key' hOld
      | writeStarted => simp [completeCall] at hStep
      | writeRemoving => simp [completeCall] at hStep
      | writeFailed => simp [completeCall] at hStep
      | writeReturned => simp [completeCall] at hStep
      | cancelReturned => simp [completeCall] at hStep

/- Every run under exclusive keys keeps both invariants. -/
theorem ExclusiveInv.run
    {actions : List Action}
    {ex : ExecutorState}
    (hRun : run true ExecutorState.initial actions = some ex) :
    HandleInv ex ∧ ExclusiveInv ex := by
  refine runSteps_invariant (fun ex => HandleInv ex ∧ ExclusiveInv ex)
    (fun _ action _ hInv hStep => ⟨hInv.1.step hStep, ?_⟩) ⟨?_, ?_⟩ hRun
  · cases action with
    | executeShuffleWrite => exact hInv.2.executeShuffleWrite hStep
    | cancelTask => exact hInv.2.cancelTask hInv.1 hStep
    | advance => exact hInv.2.advance hStep
    | complete => exact hInv.2.complete hStep
    | completeDuringAbort => exact hInv.2.complete hStep
  · exact ⟨by simp [ExecutorState.initial],
      fun _ hEntry => by simp [ExecutorState.initial] at hEntry⟩
  · exact ⟨fun i _ _ hi => by simp [ExecutorState.initial] at hi,
      fun i _ hi => by simp [ExecutorState.initial] at hi⟩

/-
  When no two writes for one key overlap, `cancel_task` on a key
  whose write awaits its task answers `true`, aborts that write,
  and leaves no entry for the key. A final poll that starts after
  the abort returns `Cancelled`, whatever the shuffle write yields.
  One that read the flag before the abort returns the shuffle
  write's own error, or removes the (already taken) entry and
  returns `Ok`, though `cancel_task` answered `true`.
-/
theorem cancelTask_cancels_awaiting_write
    (actions : List Action)
    (ex : ExecutorState)
    (i : Nat)
    (key : TaskKey)
    (hRun : run true ExecutorState.initial actions = some ex)
    (hAwaiting : ex.calls[i]? = some (.writeAwaiting key false)) :
    ∃ ex', step true ex (.cancelTask key) = some ex' ∧
      ex'.calls.getLast? = some (.cancelReturned key true) ∧
      key ∉ ex'.abortHandles.map Prod.fst ∧
      (∀ result, (step true ex' (.complete i result)).map (fun ex'' => ex''.calls[i]?) =
        some (some (.writeReturned key (.error .cancelled)))) ∧
      (∀ error, (step true ex' (.completeDuringAbort i (.error error))).map
          (fun ex'' => ex''.calls[i]?) =
        some (some (.writeFailed key error))) ∧
      (run true ex' [.completeDuringAbort i (.ok ()), .advance i]).map
          (fun ex'' => ex''.calls[i]?) =
        some (some (.writeReturned key (.ok ()))) := by
  obtain ⟨hHandles, hInv⟩ := ExclusiveInv.run hRun
  have hi : i < ex.calls.length := (List.getElem?_eq_some_iff.mp hAwaiting).1
  have hFind := find?_key_of_mem hHandles.keysNodup (hInv.registered i key hAwaiting)
  set calls' := ex.calls.modify abortCall i ++ [.cancelReturned key true]
  have hi' : i < calls'.length := by simp [calls']; omega
  have hAborted : calls'[i]? = some (.writeAwaiting key true) := by
    rw [List.getElem?_append_left (by rwa [List.length_modify]), List.getElem?_modify]
    simp [hAwaiting, abortCall]
  -- each final poll reads the aborted call, and answers as `awaitOutcome` says
  refine ⟨⟨removeHandle ex.abortHandles key, calls'⟩, by simp only [step, hFind],
    by simp [calls'], by simp [removeHandle], fun result => ?_, fun error => ?_, ?_⟩ <;>
    simp only [run, runSteps, step, hAborted, Option.some_bind, completeCall, Option.map_some',
      Bool.not_true, Bool.and_false, awaitOutcome, Bool.false_eq_true, if_false, advanceCall,
      List.set_set, List.getElem?_set_self hi']
  -- a final poll that starts after the abort sees the flag
  rfl

/- The write of a fresh executor, awaiting its task, is cancelled. -/
theorem cancelTask_cancels_awaiting_write_fresh :
    run true ExecutorState.initial
        [.executeShuffleWrite ("job", 1, 0) true, .advance 0] =
      some ⟨[(("job", 1, 0), 0)], [.writeAwaiting ("job", 1, 0) false]⟩ ∧
      [Call.writeAwaiting ("job", 1, 0) false][0]? =
        some (.writeAwaiting ("job", 1, 0) false) ∧
      ∃ ex', step true ⟨[(("job", 1, 0), 0)], [.writeAwaiting ("job", 1, 0) false]⟩
          (.cancelTask ("job", 1, 0)) = some ex' ∧
        ex'.calls.getLast? = some (.cancelReturned ("job", 1, 0) true) ∧
        ("job", 1, 0) ∉ ex'.abortHandles.map Prod.fst ∧
        (∀ result, (step true ex' (.complete 0 result)).map
            (fun ex'' => ex''.calls[0]?) =
          some (some (.writeReturned ("job", 1, 0) (.error .cancelled)))) ∧
        (∀ error, (step true ex' (.completeDuringAbort 0 (.error error))).map
            (fun ex'' => ex''.calls[0]?) =
          some (some (.writeFailed ("job", 1, 0) error))) ∧
        (run true ex' [.completeDuringAbort 0 (.ok ()), .advance 0]).map
            (fun ex'' => ex''.calls[0]?) =
          some (some (.writeReturned ("job", 1, 0) (.ok ()))) :=
  ⟨rfl, rfl, cancelTask_cancels_awaiting_write
    [.executeShuffleWrite ("job", 1, 0) true, .advance 0]
    ⟨[(("job", 1, 0), 0)], [.writeAwaiting ("job", 1, 0) false]⟩ 0 ("job", 1, 0)
    rfl rfl⟩

end Executor

end Ballista
