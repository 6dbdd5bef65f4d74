import Ballista.State.ConcurrentCalls

/-
  Conservation of task slots when `register_executor` waits for the
  `Slots` lock before its put (`registerLocks = true`).

  An executor's slots are on the books in three places: free in its
  ledger, out as reservations, or held by a cancellation that has
  taken them from the outstanding reservations and not yet written
  them back. Every step keeps each executor's count on the books,
  except the put of its registration, which brings the count from
  zero to the registered total. The call holding the lock computes
  what the single-request model computes on the ledger it reads.
  Nobody else writes `Slots` while it holds the lock, so that
  ledger is still current when it commits.

  Main declarations:
    * `heldSlots`, `LoopInv`, `BooksInv`
    * `BooksInv.step`, `BooksInv.run`
    * `lockedRegistration_conserves_slots`
    * `lockedCalls_commit_as_sequential`
-/

------------------------------------------------------------
-- The Books
------------------------------------------------------------

namespace Ballista

namespace ConcurrentCalls

open ExecutorManager

/- The call holds the global `Slots` lock. -/
def Call.holdsLock : Call → Bool
| .reserveLocked _ => true
| .reserveLooping .. => true
| .cancelLooping .. => true
| _ => false

/- The reservations a cancellation in flight took from the outstanding ones. -/
def Call.cancelling : Call → List ExecutorReservation
| .cancelWaiting reservations => reservations
| .cancelLooping _ _ cancelling => cancelling
| _ => []

/- The executor whose ledger a registration in flight has yet to write. -/
def Call.registering : Call → Option String
| .registerSaving specification _ => some specification.executorId
| _ => none

/- Some registration of the executor has not written its ledger. -/
def Registering
    (c : Cluster)
    (executorId : String) : Prop :=
  ∃ j : Nat, c.calls[j]?.bind Call.registering = some executorId

/- Reservations naming the executor that cancellations in flight hold. -/
def inCancel
    (c : Cluster)
    (executorId : String) : Nat :=
  reservationCount executorId (c.calls.flatMap Call.cancelling)

/- The executor's slots on the books: free, out, or being handed back. -/
def heldSlots
    (c : Cluster)
    (executorId : String) : Nat :=
  availableTaskSlots c.slots executorId +
    reservationCount executorId c.outstanding + inCancel c executorId

/-
  A reserve loop so far, on the current ledger: what it queued is a
  plan which, followed by the plan of what is left, is the plan of
  the whole call over the alive set it read.
-/
def ReservePlanInv
    (slots : SlotsKeyspace)
    (aliveExecutors : List String)
    (desired : Nat)
    (reservations : List ExecutorReservation)
    (txnOps : List (String × ExecutorData))
    (snapshot : List String)
    (requested : Nat) : Prop :=
  snapshot.Nodup ∧
    ∃ plan : List (String × Nat),
      reservations = planReservations plan ∧
        txnOps = planTxnOps slots plan ∧
        plan ++ reservePlan slots aliveExecutors desired = reservePlan slots snapshot requested

/-
  A loop under the lock agrees with the single-request loop on the
  current ledger: the reserve loop is part way through the plan of
  its call, and the cancel loop will end where the whole coalescing
  loop ends.
-/
def LoopInv
    (slots : SlotsKeyspace) :
    Call → Prop
| .reserveLooping aliveExecutors desired reservations txnOps snapshot requested =>
    ReservePlanInv slots aliveExecutors desired reservations txnOps snapshot requested
| .cancelLooping reservations executorSlots cancelling =>
    cancelReservationsLoop Faults.healthy slots reservations executorSlots =
      cancelReservationsLoop Faults.healthy slots cancelling []
| _ => True

/- At most one call holds the lock, and only while it is taken. -/
def LockHeld
    (c : Cluster) : Prop :=
  ∀ i j : Nat, c.calls[i]?.map Call.holdsLock = some true →
    c.slotsLocked = true ∧ (c.calls[j]?.map Call.holdsLock = some true → j = i)

/- A registration in flight writes the free and total slots it registered. -/
def SpecInv
    (registered : List (String × Nat)) :
    Call → Prop
| .registerSaving specification _ =>
    (specification.executorId, specification.totalTaskSlots) ∈ registered ∧
      specification.availableTaskSlots = specification.totalTaskSlots
| _ => True

/-
  The invariant of runs under the locking discipline: registrations
  are unique and in range, at most one call holds the lock and only
  while it is taken, loops under the lock agree with the ledger,
  and the books balance: a registered executor whose ledger is
  written holds its total, every other executor holds nothing.
-/
structure BooksInv
    (c : Cluster) : Prop where
  registeredNodup : (c.registered.map Prod.fst).Nodup
  registeredU32 : ∀ entry ∈ c.registered, entry.2 < 2 ^ 32
  specs : ∀ call ∈ c.calls, SpecInv c.registered call
  registeringOnce : ∀ (i j : Nat) (executorId : String),
    c.calls[i]?.bind Call.registering = some executorId →
    c.calls[j]?.bind Call.registering = some executorId → i = j
  lockHeld : LockHeld c
  loops : ∀ call ∈ c.calls, LoopInv c.slots call
  booksDone : ∀ entry ∈ c.registered, ¬ Registering c entry.1 →
    heldSlots c entry.1 = entry.2 ∧ totalTaskSlots c.slots entry.1 = entry.2
  booksIdle : ∀ executorId,
    executorId ∉ c.registered.map Prod.fst ∨ Registering c executorId →
    heldSlots c executorId = 0

end ConcurrentCalls

end Ballista

------------------------------------------------------------
-- Calls Replaced and Appended
------------------------------------------------------------

namespace Ballista

namespace ConcurrentCalls

open ExecutorManager

variable {calls : List Call} {i : Nat} {old new : Call}

/- Replacing a call by one registering the same executor. -/
theorem registering_set
    (hOld : calls[i]? = some old)
    (hSame : new.registering = old.registering)
    (j : Nat) :
    (calls.set i new)[j]?.bind Call.registering = calls[j]?.bind Call.registering := by
  rw [getElem?_set_eq (lt_length_of_getElem? hOld)]
  split_ifs with hj
  · subst hj
    simp [hOld, hSame]
  · rfl

/- Appending a call that registers nothing. -/
theorem registering_concat
    (hNone : new.registering = none)
    (j : Nat) :
    (calls ++ [new])[j]?.bind Call.registering = calls[j]?.bind Call.registering := by
  rw [getElem?_concat_eq]
  split_ifs with hLt hEq
  · rfl
  · simp [hNone, List.getElem?_eq_none (le_of_eq hEq.symm)]
  · simp [List.getElem?_eq_none (by omega : calls.length ≤ j)]

/- Replacing a call changes the count of cancelled reservations by its share. -/
theorem reservationCount_flatMap_set
    (f : Call → List ExecutorReservation)
    (executorId : String) :
    ∀ (calls : List Call) (i : Nat) (old new : Call), calls[i]? = some old →
      reservationCount executorId ((calls.set i new).flatMap f) +
          reservationCount executorId (f old) =
        reservationCount executorId (calls.flatMap f) +
          reservationCount executorId (f new)
| [], _, _, _, hOld => by simp at hOld
| call :: calls, 0, old, new, hOld => by
    simp only [List.getElem?_cons_zero, Option.some.injEq] at hOld
    subst hOld
    simp only [List.set_cons_zero, List.flatMap_cons, reservationCount_append]
    omega
| call :: calls, i + 1, old, new, hOld => by
    simp only [List.getElem?_cons_succ] at hOld
    have ih := reservationCount_flatMap_set f executorId calls i old new hOld
    simp only [List.set_cons_succ, List.flatMap_cons, reservationCount_append]
    omega

/- Appending a call adds its share of cancelled reservations. -/
theorem reservationCount_flatMap_concat
    (f : Call → List ExecutorReservation)
    (executorId : String)
    (calls : List Call)
    (new : Call) :
    reservationCount executorId ((calls ++ [new]).flatMap f) =
      reservationCount executorId (calls.flatMap f) + reservationCount executorId (f new) := by
  simp [List.flatMap_append]

/- A member of a list with one call replaced is the new call or an old one elsewhere. -/
theorem mem_set_cases
    {call : Call}
    (hMem : call ∈ calls.set i new) :
    call = new ∨ ∃ j, j ≠ i ∧ calls[j]? = some call := by
  obtain ⟨j, hj⟩ := List.mem_iff_getElem?.mp hMem
  by_cases hji : j = i
  · subst hji
    rw [List.getElem?_set] at hj
    split_ifs at hj <;> simp_all
  · rw [List.getElem?_set_ne (Ne.symm hji)] at hj
    exact .inr ⟨j, hji, hj⟩

end ConcurrentCalls

end Ballista

------------------------------------------------------------
-- Steps That Keep the Books
------------------------------------------------------------

namespace Ballista

namespace ConcurrentCalls

open ExecutorManager

/- A call that does not hold the lock has no loop to agree with. -/
theorem loopInv_of_holdsLock_false
    (slots : SlotsKeyspace)
    {call : Call}
    (hFree : call.holdsLock = false) :
    LoopInv slots call := by
  cases call <;> simp_all [Call.holdsLock, LoopInv]

/- A call that registers nothing has no registration to agree with. -/
theorem specInv_of_registering_none
    (registered : List (String × Nat))
    {call : Call}
    (hNone : call.registering = none) :
    SpecInv registered call := by
  cases call with
  | registerSaving specification reserve => cases hNone
  | _ => trivial

/- A registration in flight registers an executor already on the books. -/
theorem BooksInv.registering_mem
    {c : Cluster}
    (hInv : BooksInv c)
    {j : Nat}
    {executorId : String}
    (hRegistering : c.calls[j]?.bind Call.registering = some executorId) :
    executorId ∈ c.registered.map Prod.fst := by
  cases hCall : c.calls[j]? with
  | none => simp [hCall] at hRegistering
  | some call =>
      cases call with
      | registerSaving specification reserve =>
          simp only [hCall, Option.some_bind, Call.registering,
            Option.some.injEq] at hRegistering
          subst hRegistering
          exact List.mem_map_of_mem Prod.fst
            (hInv.specs _ (List.getElem?_mem hCall)).1
      | _ => simp [hCall, Call.registering] at hRegistering

/- Books hold less than `2^32` slots for any executor. -/
theorem BooksInv.heldSlots_lt
    {c : Cluster}
    (hInv : BooksInv c)
    (executorId : String) :
    heldSlots c executorId < 2 ^ 32 := by
  by_cases hIdle : executorId ∉ c.registered.map Prod.fst ∨ Registering c executorId
  · rw [hInv.booksIdle executorId hIdle]
    norm_num
  · push_neg at hIdle
    obtain ⟨⟨_, total⟩, hEntry, rfl⟩ := List.mem_map.mp hIdle.1
    rw [(hInv.booksDone _ hEntry hIdle.2).1]
    exact hInv.registeredU32 _ hEntry

/-
  Books carried over a step that keeps the registrations, who is
  registering, every executor's count and every total.
-/
theorem BooksInv.books_of_eq
    {c c' : Cluster}
    (hInv : BooksInv c)
    (hRegistered : c'.registered = c.registered)
    (hRegistering : ∀ executorId, Registering c' executorId ↔ Registering c executorId)
    (hHeld : ∀ executorId, heldSlots c' executorId = heldSlots c executorId)
    (hTotal : ∀ executorId, totalTaskSlots c'.slots executorId =
      totalTaskSlots c.slots executorId) :
    (∀ entry ∈ c'.registered, ¬ Registering c' entry.1 →
      heldSlots c' entry.1 = entry.2 ∧ totalTaskSlots c'.slots entry.1 = entry.2) ∧
    (∀ executorId, executorId ∉ c'.registered.map Prod.fst ∨
      Registering c' executorId → heldSlots c' executorId = 0) := by
  refine ⟨fun entry hEntry hDone => ?_, fun executorId hIdle => ?_⟩
  · rw [hRegistered] at hEntry
    rw [hHeld, hTotal]
    exact hInv.booksDone entry hEntry (by rwa [← hRegistering])
  · rw [hHeld]
    exact hInv.booksIdle executorId (by rwa [← hRegistered, ← hRegistering])

/-
  Replacing one call, with the shared state left alone but for the
  lock, keeps the invariant when the new call registers and cancels
  what the old one did and its loop agrees with the ledger.
-/
theorem BooksInv.replaceCall
    {c c' : Cluster}
    {i : Nat}
    {old new : Call}
    (hInv : BooksInv c)
    (hOld : c.calls[i]? = some old)
    (hCalls : c'.calls = c.calls.set i new)
    (hSlots : c'.slots = c.slots)
    (hOutstanding : c'.outstanding = c.outstanding)
    (hRegistered : c'.registered = c.registered)
    (hRegistering : new.registering = old.registering)
    (hCancelling : new.cancelling = old.cancelling)
    (hSpec : SpecInv c.registered new)
    (hLoop : LoopInv c.slots new)
    (hLock : LockHeld c') :
    BooksInv c' := by
  have hPoint : ∀ j : Nat, c'.calls[j]?.bind Call.registering = c.calls[j]?.bind Call.registering :=
    fun j => hCalls ▸ registering_set hOld hRegistering j
  have hHeld : ∀ executorId, heldSlots c' executorId = heldSlots c executorId := by
    intro executorId
    have hCount := reservationCount_flatMap_set Call.cancelling executorId c.calls i old new hOld
    simp only [heldSlots, inCancel, hSlots, hOutstanding, hCalls, hCancelling] at hCount ⊢
    omega
  obtain ⟨hDone, hIdle⟩ := hInv.books_of_eq hRegistered
    (fun executorId => by simp only [Registering, hPoint]) hHeld
    (fun executorId => by rw [hSlots])
  refine ⟨hRegistered ▸ hInv.registeredNodup, hRegistered ▸ hInv.registeredU32,
    fun call hMem => ?_, fun j k executorId hj hk => ?_, hLock, fun call hMem => ?_,
    hDone, hIdle⟩
  · rw [hCalls] at hMem
    rw [hRegistered]
    rcases mem_set_cases hMem with rfl | ⟨j, -, hj⟩
    · exact hSpec
    · exact hInv.specs call (List.getElem?_mem hj)
  · rw [hPoint] at hj hk
    exact hInv.registeringOnce j k executorId hj hk
  · rw [hCalls] at hMem
    rw [hSlots]
    rcases mem_set_cases hMem with rfl | ⟨j, -, hj⟩
    · exact hLoop
    · exact hInv.loops call (List.getElem?_mem hj)

/- The lock reading after call `i` is replaced. -/
theorem holdsLock_set
    {calls : List Call}
    {i : Nat}
    {new : Call}
    (hi : i < calls.length)
    (j : Nat) :
    (calls.set i new)[j]?.map Call.holdsLock =
      if j = i then some new.holdsLock else calls[j]?.map Call.holdsLock := by
  rw [getElem?_set_eq hi]
  split_ifs <;> rfl

/- The holder keeps the lock when it moves on. -/
theorem lockHeld_keep
    {c c' : Cluster}
    {i : Nat}
    {old new : Call}
    (hLock : LockHeld c)
    (hOld : c.calls[i]? = some old)
    (hCalls : c'.calls = c.calls.set i new)
    (hLocked : c'.slotsLocked = c.slotsLocked)
    (hHolds : new.holdsLock = old.holdsLock) :
    LockHeld c' := by
  have hPoint : ∀ j : Nat, c'.calls[j]?.map Call.holdsLock = c.calls[j]?.map Call.holdsLock := by
    intro j
    rw [hCalls, holdsLock_set (lt_length_of_getElem? hOld)]
    split_ifs with hj
    · subst hj
      simp [hOld, hHolds]
    · rfl
  intro i' j hi'
  rw [hPoint] at hi' ⊢
  rw [hLocked]
  exact hLock i' j hi'

/- A call that takes the free lock becomes its only holder. -/
theorem lockHeld_acquire
    {c c' : Cluster}
    {i : Nat}
    {old new : Call}
    (hLock : LockHeld c)
    (hOld : c.calls[i]? = some old)
    (hCalls : c'.calls = c.calls.set i new)
    (hFree : c.slotsLocked = false)
    (hLocked : c'.slotsLocked = true) :
    LockHeld c' := by
  -- before the step no call held the lock
  have hNone : ∀ k : Nat, k ≠ i → c'.calls[k]?.map Call.holdsLock ≠ some true := by
    intro k hk hHolds
    rw [hCalls, holdsLock_set (lt_length_of_getElem? hOld), if_neg hk] at hHolds
    simp [(hLock k k hHolds).1] at hFree
  intro i' j hi'
  refine ⟨hLocked, fun hj => ?_⟩
  by_contra hji
  rcases Classical.em (i' = i) with rfl | hi
  · exact hNone j hji hj
  · exact hNone i' hi hi'

/- A call that releases the lock leaves no holder. -/
theorem noHolder_of_release
    {c c' : Cluster}
    {i : Nat}
    {old new : Call}
    (hLock : LockHeld c)
    (hOld : c.calls[i]? = some old)
    (hHeld : old.holdsLock = true)
    (hCalls : c'.calls = c.calls.set i new)
    (hNew : new.holdsLock = false) :
    ∀ call ∈ c'.calls, call.holdsLock = false := by
  intro call hMem
  rw [hCalls] at hMem
  rcases mem_set_cases hMem with rfl | ⟨j, hji, hj⟩
  · exact hNew
  · by_contra hHolds
    have hj' : c.calls[j]?.map Call.holdsLock = some true := by simp_all
    exact hji ((hLock i j (by simp [hOld, hHeld])).2 hj')

/- With no holder, the lock invariant holds vacuously. -/
theorem lockHeld_of_noHolder
    {c : Cluster}
    (hNoHolder : ∀ call ∈ c.calls, call.holdsLock = false) :
    LockHeld c := by
  intro i _ hi
  cases hCall : c.calls[i]? with
  | none => simp [hCall] at hi
  | some call => simp [hCall, hNoHolder call (List.getElem?_mem hCall)] at hi

end ConcurrentCalls

end Ballista

------------------------------------------------------------
-- Calls Started
------------------------------------------------------------

namespace Ballista

namespace ConcurrentCalls

open ExecutorManager

/- A call appended without the lock leaves the lock's holders as they were. -/
theorem lockHeld_concat
    {c c' : Cluster}
    {new : Call}
    (hLock : LockHeld c)
    (hCalls : c'.calls = c.calls ++ [new])
    (hLocked : c'.slotsLocked = c.slotsLocked)
    (hFree : new.holdsLock = false) :
    LockHeld c' := by
  have hOld : ∀ j : Nat, c'.calls[j]?.map Call.holdsLock = some true →
      c.calls[j]?.map Call.holdsLock = some true := by
    intro j hj
    rw [hCalls, getElem?_concat_eq] at hj
    split_ifs at hj
    · exact hj
    · simp [hFree] at hj
    · simp at hj
  intro i j hi
  rw [hLocked]
  exact ⟨(hLock i j (hOld i hi)).1, fun hj => (hLock i j (hOld i hi)).2 (hOld j hj)⟩

/-
  Appending a call that neither registers nor holds the lock keeps
  the invariant when every executor's count stays.
-/
theorem BooksInv.appendCall
    {c c' : Cluster}
    {new : Call}
    (hInv : BooksInv c)
    (hCalls : c'.calls = c.calls ++ [new])
    (hSlots : c'.slots = c.slots)
    (hLocked : c'.slotsLocked = c.slotsLocked)
    (hRegistered : c'.registered = c.registered)
    (hRegistering : new.registering = none)
    (hFree : new.holdsLock = false)
    (hHeld : ∀ executorId, heldSlots c' executorId = heldSlots c executorId) :
    BooksInv c' := by
  have hPoint : ∀ j : Nat, c'.calls[j]?.bind Call.registering =
      c.calls[j]?.bind Call.registering :=
    fun j => hCalls ▸ registering_concat hRegistering j
  obtain ⟨hDone, hIdle⟩ := hInv.books_of_eq hRegistered
    (fun executorId => by simp only [Registering, hPoint]) hHeld
    (fun executorId => by rw [hSlots])
  refine ⟨hRegistered ▸ hInv.registeredNodup, hRegistered ▸ hInv.registeredU32,
    fun call hMem => ?_, fun j k executorId hj hk => ?_,
    lockHeld_concat hInv.lockHeld hCalls hLocked hFree, fun call hMem => ?_,
    hDone, hIdle⟩
  · rw [hCalls, List.mem_append, List.mem_singleton] at hMem
    rw [hRegistered]
    rcases hMem with hMem | rfl
    · exact hInv.specs call hMem
    · exact specInv_of_registering_none _ hRegistering
  · rw [hPoint] at hj hk
    exact hInv.registeringOnce j k executorId hj hk
  · rw [hCalls, List.mem_append, List.mem_singleton] at hMem
    rw [hSlots]
    rcases hMem with hMem | rfl
    · exact hInv.loops call hMem
    · exact loopInv_of_holdsLock_false _ hFree

/- Starting `reserve_slots` changes no count. -/
theorem BooksInv.startReserve
    {c : Cluster}
    (hInv : BooksInv c)
    (n : Nat) :
    BooksInv { c with calls := c.calls ++ [.reserveWaiting n] } :=
  hInv.appendCall rfl rfl rfl rfl rfl rfl
    (fun executorId => by simp [heldSlots, inCancel, Call.cancelling])

/-
  Starting `cancel_reservations` moves its reservations from the
  outstanding ones to the call, so no count changes.
-/
theorem BooksInv.startCancel
    {c : Cluster}
    (hInv : BooksInv c)
    {reservations : List ExecutorReservation}
    (hSub : reservations.Subperm c.outstanding) :
    BooksInv { c with
      outstanding := c.outstanding.diff reservations
      calls := c.calls ++ [.cancelWaiting reservations] } := by
  refine hInv.appendCall rfl rfl rfl rfl rfl rfl (fun executorId => ?_)
  have hSplit := reservationCount_perm
    (List.subperm_append_diff_self_of_count_le
      (fun r _ => hSub.count_le r)) executorId
  simp only [reservationCount_append] at hSplit
  simp only [heldSlots, inCancel, reservationCount_flatMap_concat, Call.cancelling]
  omega

/- Two entries of a list with distinct keys that share a key are one. -/
theorem snd_eq_of_nodup_keys
    {entries : List (String × Nat)}
    (hNodup : (entries.map Prod.fst).Nodup)
    {key : String}
    {first second : Nat}
    (hFirst : (key, first) ∈ entries)
    (hSecond : (key, second) ∈ entries) :
    first = second :=
  (Prod.mk.inj (List.inj_on_of_nodup_map hNodup hFirst hSecond rfl)).2

/- A registration in flight is on the books with what it registered. -/
theorem SpecInv.mono
    {registered registered' : List (String × Nat)}
    (hSub : registered ⊆ registered')
    {call : Call}
    (hSpec : SpecInv registered call) :
    SpecInv registered' call := by
  cases call with
  | registerSaving specification reserve => exact ⟨hSub hSpec.1, hSpec.2⟩
  | _ => trivial

/-
  Starting `register_executor` for an executor not yet registered:
  its count is zero and stays zero until its put, since it is now
  registering.
-/
theorem BooksInv.startRegister
    {c : Cluster}
    (hInv : BooksInv c)
    {executorId : String}
    {totalTaskSlots : Nat}
    (reserve : Bool)
    (executorsHeartbeat : HeartbeatCache)
    (hFresh : executorId ∉ c.registered.map Prod.fst)
    (hU32 : totalTaskSlots < 2 ^ 32) :
    BooksInv { c with
      executorsHeartbeat := executorsHeartbeat
      registered := c.registered ++ [(executorId, totalTaskSlots)]
      calls := c.calls ++
        [.registerSaving ⟨executorId, totalTaskSlots, totalTaskSlots⟩ reserve] } := by
  set c' : Cluster := { c with
      executorsHeartbeat := executorsHeartbeat
      registered := c.registered ++ [(executorId, totalTaskSlots)]
      calls := c.calls ++
        [.registerSaving ⟨executorId, totalTaskSlots, totalTaskSlots⟩ reserve] }
  -- the calls that register, before and after
  have hPoint : ∀ (j : Nat) (other : String),
      c'.calls[j]?.bind Call.registering = some other →
        c.calls[j]?.bind Call.registering = some other ∨
          (j = c.calls.length ∧ other = executorId) := by
    intro j other hj
    simp only [c', getElem?_concat_eq] at hj
    split_ifs at hj with hLt hEq
    · exact .inl hj
    · simp only [Option.some_bind, Call.registering, Option.some.injEq] at hj
      exact .inr ⟨hEq, hj.symm⟩
    · simp at hj
  have hNew : c'.calls[c.calls.length]?.bind Call.registering = some executorId := by
    simp [c', Call.registering]
  have hOld : ∀ (j : Nat) (other : String),
      c.calls[j]?.bind Call.registering = some other →
        c'.calls[j]?.bind Call.registering = some other := by
    intro j other hj
    have hLt : j < c.calls.length := by
      cases hCall : c.calls[j]? with
      | none => simp [hCall] at hj
      | some call => exact lt_length_of_getElem? hCall
    simpa only [c', getElem?_concat_eq, if_pos hLt] using hj
  have hRegistering : ∀ other, Registering c' other ↔
      Registering c other ∨ other = executorId := by
    intro other
    constructor
    · rintro ⟨j, hj⟩
      rcases hPoint j other hj with hj | ⟨-, rfl⟩
      · exact .inl ⟨j, hj⟩
      · exact .inr rfl
    · rintro (⟨j, hj⟩ | rfl)
      · exact ⟨j, hOld j other hj⟩
      · exact ⟨_, hNew⟩
  have hHeld : ∀ other, heldSlots c' other = heldSlots c other := by
    intro other
    simp [c', heldSlots, inCancel, Call.cancelling]
  refine ⟨?_, ?_, fun call hMem => ?_, fun j k other hj hk => ?_,
    lockHeld_concat hInv.lockHeld rfl rfl rfl, fun call hMem => ?_,
    fun entry hEntry hDone => ?_, fun other hIdle => ?_⟩
  · simpa [c', List.nodup_append, hInv.registeredNodup] using hFresh
  · intro entry hEntry
    rcases List.mem_append.mp hEntry with hEntry | hEntry
    · exact hInv.registeredU32 entry hEntry
    · rw [List.mem_singleton.mp hEntry]
      exact hU32
  · have hSub : c.registered ⊆ c'.registered := List.subset_append_left _ _
    rcases List.mem_append.mp hMem with hMem | hMem
    · exact (hInv.specs call hMem).mono hSub
    · rw [List.mem_singleton.mp hMem]
      exact ⟨List.mem_append_right _ (List.mem_singleton_self _), rfl⟩
  · rcases hPoint j other hj with hjOld | ⟨hjLen, rfl⟩ <;>
      rcases hPoint k _ hk with hkOld | ⟨hkLen, hEq⟩
    · exact hInv.registeringOnce j k _ hjOld hkOld
    · exact absurd (hEq ▸ hInv.registering_mem hjOld) hFresh
    · exact absurd (hInv.registering_mem hkOld) hFresh
    · rw [hjLen, hkLen]
  · rcases List.mem_append.mp hMem with hMem | hMem
    · exact hInv.loops call hMem
    · rw [List.mem_singleton.mp hMem]
      trivial
  · rcases List.mem_append.mp hEntry with hEntry | hEntry
    · rw [hHeld]
      exact hInv.booksDone entry hEntry
        (fun hReg => hDone ((hRegistering _).mpr (.inl hReg)))
    · rw [List.mem_singleton.mp hEntry] at hDone
      exact absurd ((hRegistering _).mpr (.inr rfl)) hDone
  · rw [hHeld]
    refine hInv.booksIdle other ?_
    rcases hIdle with hAbsent | hReg
    · exact .inl (fun hMem => hAbsent (by simp [c', hMem]))
    · rcases (hRegistering other).mp hReg with hReg | rfl
      · exact .inr hReg
      · exact .inl hFresh

/- Reading the alive set gives the reserve loop an empty plan. -/
theorem BooksInv.snapshot
    {c : Cluster}
    (hInv : BooksInv c)
    {i n : Nat}
    {aliveExecutors : List String}
    (hCall : c.calls[i]? = some (.reserveLocked n))
    (hNodup : aliveExecutors.Nodup) :
    BooksInv { c with
      calls := c.calls.set i (.reserveLooping aliveExecutors n [] [] aliveExecutors n) } :=
  hInv.replaceCall hCall rfl rfl rfl rfl rfl rfl trivial ⟨hNodup, [], rfl, rfl, rfl⟩
    (lockHeld_keep hInv.lockHeld hCall rfl rfl rfl)

end ConcurrentCalls

end Ballista

------------------------------------------------------------
-- Calls Advanced
------------------------------------------------------------

namespace Ballista

namespace ConcurrentCalls

open ExecutorManager

/- While the lock is free, no call holds it. -/
theorem noHolder_of_free
    {c : Cluster}
    (hLock : LockHeld c)
    (hFree : c.slotsLocked = false) :
    ∀ call ∈ c.calls, call.holdsLock = false := by
  intro call hMem
  obtain ⟨j, hj⟩ := List.mem_iff_getElem?.mp hMem
  by_contra hHolds
  simp only [Bool.not_eq_false] at hHolds
  simpa [hFree] using (hLock j j (by simp [hj, hHolds])).1

/-
  Finishing a call, with no call left holding the lock, keeps the
  invariant when the books balance afterwards.
-/
theorem BooksInv.finishCall
    {c c' : Cluster}
    {i : Nat}
    {old : Call}
    (hInv : BooksInv c)
    (hOld : c.calls[i]? = some old)
    (hCalls : c'.calls = c.calls.set i .done)
    (hRegistered : c'.registered = c.registered)
    (hNoHolder : ∀ call ∈ c'.calls, call.holdsLock = false)
    (hDone : ∀ entry ∈ c'.registered, ¬ Registering c' entry.1 →
      heldSlots c' entry.1 = entry.2 ∧ totalTaskSlots c'.slots entry.1 = entry.2)
    (hIdle : ∀ executorId, executorId ∉ c'.registered.map Prod.fst ∨
      Registering c' executorId → heldSlots c' executorId = 0) :
    BooksInv c' := by
  have hPoint : ∀ (j : Nat) (executorId : String),
      c'.calls[j]?.bind Call.registering = some executorId →
        c.calls[j]?.bind Call.registering = some executorId := by
    intro j executorId hj
    rw [hCalls, getElem?_set_eq (lt_length_of_getElem? hOld)] at hj
    split_ifs at hj
    · simp [Call.registering] at hj
    · exact hj
  refine ⟨hRegistered ▸ hInv.registeredNodup, hRegistered ▸ hInv.registeredU32,
    fun call hMem => ?_,
    fun j k executorId hj hk =>
      hInv.registeringOnce j k executorId (hPoint j _ hj) (hPoint k _ hk),
    lockHeld_of_noHolder hNoHolder,
    fun call hMem => loopInv_of_holdsLock_false _ (hNoHolder call hMem), hDone, hIdle⟩
  rw [hCalls] at hMem
  rw [hRegistered]
  rcases mem_set_cases hMem with rfl | ⟨j, -, hj⟩
  · trivial
  · exact hInv.specs call (List.getElem?_mem hj)

/-
  A commit that releases the lock keeps the invariant when it keeps
  every executor's count and total.
-/
theorem BooksInv.commitCall
    {c c' : Cluster}
    {i : Nat}
    {old : Call}
    (hInv : BooksInv c)
    (hOld : c.calls[i]? = some old)
    (hHolds : old.holdsLock = true)
    (hRegistering : old.registering = none)
    (hCalls : c'.calls = c.calls.set i .done)
    (hRegistered : c'.registered = c.registered)
    (hHeld : ∀ executorId, heldSlots c' executorId = heldSlots c executorId)
    (hTotal : ∀ executorId, totalTaskSlots c'.slots executorId =
      totalTaskSlots c.slots executorId) :
    BooksInv c' := by
  have hPoint : ∀ j : Nat, c'.calls[j]?.bind Call.registering =
      c.calls[j]?.bind Call.registering :=
    fun j => hCalls ▸ registering_set hOld (by rw [hRegistering]; rfl) j
  obtain ⟨hDone, hIdle⟩ := hInv.books_of_eq hRegistered
    (fun executorId => by simp only [Registering, hPoint]) hHeld hTotal
  exact hInv.finishCall hOld hCalls hRegistered
    (noHolder_of_release hInv.lockHeld hOld hHolds hCalls rfl) hDone hIdle

/-
  The put of a registration, with the lock free: the executor's
  count goes from zero to its total and every other count stays.
-/
theorem BooksInv.registerPut
    {c c' : Cluster}
    (hInv : BooksInv c)
    {i : Nat}
    {specification : ExecutorData}
    {reserve : Bool}
    (hCall : c.calls[i]? = some (.registerSaving specification reserve))
    (hFree : c.slotsLocked = false)
    (hCalls : c'.calls = c.calls.set i .done)
    (hRegistered : c'.registered = c.registered)
    (hOther : ∀ other, other ≠ specification.executorId →
      c'.slots other = c.slots other ∧
        reservationCount other c'.outstanding = reservationCount other c.outstanding)
    (hWritten : availableTaskSlots c'.slots specification.executorId +
        reservationCount specification.executorId c'.outstanding =
      reservationCount specification.executorId c.outstanding +
        specification.availableTaskSlots)
    (hTotal : totalTaskSlots c'.slots specification.executorId =
      specification.totalTaskSlots) :
    BooksInv c' := by
  obtain ⟨hMem, hFull⟩ := hInv.specs _ (List.getElem?_mem hCall)
  have hSelf : c.calls[i]?.bind Call.registering = some specification.executorId := by
    simp [hCall, Call.registering]
  -- the registrations in flight after the put are the others
  have hPoint : ∀ j : Nat, c'.calls[j]?.bind Call.registering =
      if j = i then none else c.calls[j]?.bind Call.registering := by
    intro j
    rw [hCalls, getElem?_set_eq (lt_length_of_getElem? hCall)]
    split_ifs <;> rfl
  have hRegistering : ∀ other, Registering c' other ↔
      Registering c other ∧ other ≠ specification.executorId := by
    intro other
    constructor
    · rintro ⟨j, hj⟩
      rw [hPoint] at hj
      split_ifs at hj with hji
      exact ⟨⟨j, hj⟩, fun hEq => hji (hInv.registeringOnce j i _ hj (hEq ▸ hSelf))⟩
    · rintro ⟨⟨j, hj⟩, hNe⟩
      refine ⟨j, ?_⟩
      rw [hPoint, if_neg]
      · exact hj
      · rintro rfl
        exact hNe (Option.some.inj (hj.symm.trans hSelf))
  have hCancel : ∀ other, inCancel c' other = inCancel c other := by
    intro other
    have hCount := reservationCount_flatMap_set Call.cancelling other c.calls i _ .done hCall
    simp only [Call.cancelling, reservationCount_nil, add_zero] at hCount
    simp only [inCancel, hCalls, hCount]
  have hHeldOther : ∀ other, other ≠ specification.executorId →
      heldSlots c' other = heldSlots c other := by
    intro other hNe
    obtain ⟨hSlot, hCount⟩ := hOther other hNe
    simp only [heldSlots, availableTaskSlots, hSlot, hCount, hCancel]
  have hHeldSelf : heldSlots c' specification.executorId = specification.totalTaskSlots := by
    have hIdle := hInv.booksIdle _ (.inr ⟨i, hSelf⟩)
    simp only [heldSlots, hCancel] at hIdle ⊢
    omega
  have hNoHolder : ∀ call ∈ c'.calls, call.holdsLock = false := by
    intro call hMem'
    rw [hCalls] at hMem'
    rcases mem_set_cases hMem' with rfl | ⟨j, -, hj⟩
    · rfl
    · exact noHolder_of_free hInv.lockHeld hFree call (List.getElem?_mem hj)
  refine hInv.finishCall hCall hCalls hRegistered hNoHolder
    (fun entry hEntry hDone => ?_) (fun other hIdle => ?_)
  · rw [hRegistered] at hEntry
    by_cases hSame : entry.1 = specification.executorId
    · obtain ⟨executorId, total⟩ := entry
      simp only at hSame ⊢
      subst hSame
      rw [snd_eq_of_nodup_keys hInv.registeredNodup hEntry hMem, hHeldSelf, hTotal]
      exact ⟨rfl, rfl⟩
    · rw [hHeldOther _ hSame, totalTaskSlots, (hOther _ hSame).1]
      exact hInv.booksDone entry hEntry
        (fun hReg => hDone ((hRegistering _).mpr ⟨hReg, hSame⟩))
  · have hNe : other ≠ specification.executorId := by
      rintro rfl
      rcases hIdle with hAbsent | hReg
      · rw [hRegistered] at hAbsent
        exact hAbsent (List.mem_map_of_mem Prod.fst hMem)
      · exact ((hRegistering _).mp hReg).2 rfl
    rw [hHeldOther _ hNe]
    refine hInv.booksIdle other ?_
    rcases hIdle with hAbsent | hReg
    · rw [hRegistered] at hAbsent
      exact .inl hAbsent
    · exact .inr ((hRegistering _).mp hReg).1

/-
  The commit of `reserve_slots`: its plan moves slots from the
  ledgers to the outstanding reservations and the lock is released.
-/
theorem BooksInv.reserveCommit
    {c c' : Cluster}
    (hInv : BooksInv c)
    {i desired : Nat}
    {reservations : List ExecutorReservation}
    {txnOps : List (String × ExecutorData)}
    {snapshot : List String}
    {requested : Nat}
    (hCall : c.calls[i]? = some
      (.reserveLooping [] desired reservations txnOps snapshot requested))
    (hStep : advanceCall true c i
      (.reserveLooping [] desired reservations txnOps snapshot requested) = some c') :
    BooksInv c' := by
  obtain rfl := Option.some.inj hStep
  obtain ⟨hNodup, plan, rfl, rfl, hPlan⟩ := hInv.loops _ (List.getElem?_mem hCall)
  simp only [reservePlan, List.append_nil] at hPlan
  subst hPlan
  have hEffect := applyTxn_planTxnOps c.slots _
    ((reservePlan_visits_leading c.slots snapshot requested).sublist.nodup hNodup)
    (fun step hStep => reservePlan_le_available c.slots snapshot requested step hStep)
  refine hInv.commitCall hCall rfl rfl rfl rfl (fun executorId => ?_)
    (fun executorId => (hEffect executorId).2)
  have hCount := reservationCount_flatMap_set Call.cancelling executorId c.calls i _ .done hCall
  have hMoved := (hEffect executorId).1
  simp only [Call.cancelling, reservationCount_nil, add_zero] at hCount
  simp only [heldSlots, inCancel, reservationCount_append, hCount]
  omega

/- One turn of the reserve loop extends its plan by the executor it reads. -/
theorem BooksInv.reserveIterate
    {c c' : Cluster}
    (hInv : BooksInv c)
    {i desired : Nat}
    {executorId : String}
    {aliveExecutors : List String}
    {reservations : List ExecutorReservation}
    {txnOps : List (String × ExecutorData)}
    {snapshot : List String}
    {requested : Nat}
    (hCall : c.calls[i]? = some (.reserveLooping (executorId :: aliveExecutors) desired
      reservations txnOps snapshot requested))
    (hStep : advanceCall true c i (.reserveLooping (executorId :: aliveExecutors) desired
      reservations txnOps snapshot requested) = some c') :
    BooksInv c' := by
  obtain rfl := Option.some.inj hStep
  refine hInv.replaceCall hCall rfl rfl rfl rfl rfl rfl trivial ?_
    (lockHeld_keep hInv.lockHeld hCall rfl rfl rfl)
  obtain ⟨hNodup, plan, rfl, rfl, hPlan⟩ := hInv.loops _ (List.getElem?_mem hCall)
  refine ⟨hNodup, plan ++ [(executorId, min (availableTaskSlots c.slots executorId) desired)],
    ?_, ?_, ?_⟩
  · simp [planReservations, availableTaskSlots]
  · simp [planTxnOps, availableTaskSlots]
  · rw [List.append_assoc, List.singleton_append]
    exact (congrArg (plan ++ ·)
      (reservePlan_cons c.slots executorId aliveExecutors desired).symm).trans hPlan

/-
  The commit of `cancel_reservations`: each executor gets back what
  the call took from the outstanding reservations, with no wrap as
  the books stay within `u32`, and the lock is released.
-/
theorem BooksInv.cancelCommit
    {c c' : Cluster}
    (hInv : BooksInv c)
    {i : Nat}
    {executorSlots : List (String × ExecutorData)}
    {cancelling : List ExecutorReservation}
    (hCall : c.calls[i]? = some (.cancelLooping [] executorSlots cancelling))
    (hStep : advanceCall true c i (.cancelLooping [] executorSlots cancelling) = some c') :
    BooksInv c' := by
  obtain rfl := Option.some.inj hStep
  have hLoop : cancelReservationsLoop Faults.healthy c.slots [] executorSlots =
      cancelReservationsLoop Faults.healthy c.slots cancelling [] :=
    hInv.loops _ (List.getElem?_mem hCall)
  have hWritten := applyTxn_cancelReservationsLoop _ _ _ _ hLoop.symm
  refine hInv.commitCall hCall rfl rfl rfl rfl (fun executorId => ?_) (fun executorId => ?_)
  · have hCount := reservationCount_flatMap_set Call.cancelling executorId c.calls i _ .done hCall
    have hBound := hInv.heldSlots_lt executorId
    simp only [Call.cancelling, reservationCount_nil, add_zero] at hCount
    simp only [heldSlots, inCancel, availableTaskSlots, hWritten] at hBound ⊢
    split_ifs with hZero
    · omega
    · simp only [decodeExecutorData_some, returnSlots, wrappingAdd]
      rw [Nat.mod_eq_of_lt (by omega)]
      omega
  · simp only [totalTaskSlots, hWritten]
    split_ifs <;> rfl

/- One turn of the cancel loop is one turn of the coalescing loop. -/
theorem BooksInv.cancelIterate
    {c c' : Cluster}
    (hInv : BooksInv c)
    {i : Nat}
    {reservation : ExecutorReservation}
    {reservations : List ExecutorReservation}
    {executorSlots : List (String × ExecutorData)}
    {cancelling : List ExecutorReservation}
    (hCall : c.calls[i]? = some
      (.cancelLooping (reservation :: reservations) executorSlots cancelling))
    (hStep : advanceCall true c i
      (.cancelLooping (reservation :: reservations) executorSlots cancelling) = some c') :
    BooksInv c' := by
  obtain rfl := Option.some.inj hStep
  refine hInv.replaceCall hCall rfl rfl rfl rfl rfl rfl trivial ?_
    (lockHeld_keep hInv.lockHeld hCall rfl rfl rfl)
  have hLoop : cancelReservationsLoop Faults.healthy c.slots (reservation :: reservations)
      executorSlots = cancelReservationsLoop Faults.healthy c.slots cancelling [] :=
    hInv.loops _ (List.getElem?_mem hCall)
  rw [cancelReservationsLoop_healthy_cons] at hLoop
  exact hLoop

end ConcurrentCalls

end Ballista

------------------------------------------------------------
-- Runs Under the Locking Discipline
------------------------------------------------------------

namespace Ballista

namespace ConcurrentCalls

open ExecutorManager

/- Every next step of a call keeps the invariant. -/
theorem BooksInv.advance
    {c c' : Cluster}
    (hInv : BooksInv c)
    {i : Nat}
    {call : Call}
    (hCall : c.calls[i]? = some call)
    (hStep : advanceCall true c i call = some c') :
    BooksInv c' := by
  cases call with
  | registerSaving specification reserve =>
      simp only [advanceCall, Bool.true_and] at hStep
      by_cases hLocked : c.slotsLocked = true
      · simp [hLocked] at hStep
      rw [if_neg hLocked] at hStep
      obtain rfl := Option.some.inj hStep
      refine hInv.registerPut hCall (by simpa using hLocked) rfl rfl
        (fun other hOther => ?_) ?_ ?_
      · cases reserve <;> simp [Function.update_noteq hOther, Ne.symm hOther]
      · cases reserve <;> simp [availableTaskSlots, Nat.add_comm]
      · cases reserve <;> simp [totalTaskSlots]
  | reserveWaiting n =>
      simp only [advanceCall] at hStep
      split_ifs at hStep with hLocked
      obtain rfl := Option.some.inj hStep
      exact hInv.replaceCall hCall rfl rfl rfl rfl rfl rfl trivial trivial
        (lockHeld_acquire hInv.lockHeld hCall rfl (by simpa using hLocked) rfl)
  | reserveLocked n => simp [advanceCall] at hStep
  | reserveLooping aliveExecutors desired reservations txnOps snapshot requested =>
      cases aliveExecutors with
      | nil => exact hInv.reserveCommit hCall hStep
      | cons executorId aliveExecutors => exact hInv.reserveIterate hCall hStep
  | cancelWaiting reservations =>
      simp only [advanceCall] at hStep
      split_ifs at hStep with hLocked
      obtain rfl := Option.some.inj hStep
      exact hInv.replaceCall hCall rfl rfl rfl rfl rfl rfl trivial rfl
        (lockHeld_acquire hInv.lockHeld hCall rfl (by simpa using hLocked) rfl)
  | cancelLooping reservations executorSlots cancelling =>
      cases reservations with
      | nil => exact hInv.cancelCommit hCall hStep
      | cons reservation reservations => exact hInv.cancelIterate hCall hStep
  | done => simp [advanceCall] at hStep

/- Every step of a run under the locking discipline keeps the invariant. -/
theorem BooksInv.step
    {c c' : Cluster}
    (hInv : BooksInv c)
    {action : Action}
    (hStep : ConcurrentCalls.step true c action = some c') :
    BooksInv c' := by
  cases action with
  | registerExecutor executorId totalTaskSlots reserve timestamp =>
      simp only [ConcurrentCalls.step] at hStep
      split_ifs at hStep with hGuard
      obtain rfl := Option.some.inj hStep
      push_neg at hGuard
      exact hInv.startRegister reserve _ hGuard.1 hGuard.2
  | reserveSlots n =>
      obtain rfl := Option.some.inj hStep
      exact hInv.startReserve n
  | cancelReservations reservations =>
      simp only [ConcurrentCalls.step] at hStep
      split_ifs at hStep with hSub
      obtain rfl := Option.some.inj hStep
      exact hInv.startCancel hSub
  | snapshotAlive i aliveExecutors now =>
      simp only [ConcurrentCalls.step] at hStep
      split at hStep
      · rename_i n hCall
        split_ifs at hStep with hPerm
        obtain rfl := Option.some.inj hStep
        exact hInv.snapshot hCall (hPerm.nodup_iff.mpr (getAliveExecutors_nodup _ _))
      · simp at hStep
  | advance i =>
      obtain ⟨call, hCall, hAdvance⟩ := Option.bind_eq_some.mp hStep
      exact hInv.advance hCall hAdvance

/- A fresh scheduler has balanced books. -/
theorem BooksInv.initial :
    BooksInv Cluster.initial :=
  ⟨List.nodup_nil, by simp [Cluster.initial], by simp [Cluster.initial],
    by simp [Cluster.initial], by simp [LockHeld, Cluster.initial],
    by simp [Cluster.initial], by simp [Cluster.initial],
    fun _ _ => by simp [heldSlots, inCancel, availableTaskSlots, Cluster.initial]⟩

/- Every state a run under the locking discipline reaches has balanced books. -/
theorem BooksInv.run
    {actions : List Action}
    {c : Cluster}
    (hRun : run true Cluster.initial actions = some c) :
    BooksInv c :=
  runSteps_invariant BooksInv (fun _ _ _ hInv hStep => hInv.step hStep)
    BooksInv.initial hRun

/- At rest, no call holds reservations it is handing back. -/
theorem inCancel_of_quiescent
    {c : Cluster}
    (hQuiet : Quiescent c)
    (executorId : String) :
    inCancel c executorId = 0 := by
  have hEmpty : c.calls.flatMap Call.cancelling = [] :=
    List.flatMap_eq_nil_iff.mpr (fun call hMem => by rw [hQuiet call hMem]; rfl)
  simp [inCancel, hEmpty]

/- At rest, no registration is in flight. -/
theorem not_registering_of_quiescent
    {c : Cluster}
    (hQuiet : Quiescent c)
    (executorId : String) :
    ¬ Registering c executorId := by
  rintro ⟨j, hj⟩
  cases hCall : c.calls[j]? with
  | none => simp [hCall] at hj
  | some call =>
      rw [hQuiet call (List.getElem?_mem hCall)] at hCall
      simp [hCall, Call.registering] at hj

/-
  When `register_executor` waits for the `Slots` lock, every state a
  run reaches has each executor whose registration has written its
  ledger holding exactly its registered total: free, out, or being
  handed back, with the ledger's total equal to it. Once no call is
  in flight, free slots and outstanding reservations add up to the
  total, on the ledger and as registered.
-/
theorem lockedRegistration_conserves_slots
    (actions : List Action)
    (c : Cluster)
    (hRun : run true Cluster.initial actions = some c) :
    (∀ entry ∈ c.registered, ¬ Registering c entry.1 →
      heldSlots c entry.1 = entry.2 ∧ totalTaskSlots c.slots entry.1 = entry.2) ∧
    (Quiescent c → Conserved c ∧ ConservedAtRegistration c) := by
  have hInv := BooksInv.run hRun
  refine ⟨hInv.booksDone, fun hQuiet => ?_⟩
  have hBooks : ∀ entry ∈ c.registered,
      availableTaskSlots c.slots entry.1 + reservationCount entry.1 c.outstanding = entry.2 ∧
        totalTaskSlots c.slots entry.1 = entry.2 := by
    intro entry hEntry
    have hDone := hInv.booksDone entry hEntry (not_registering_of_quiescent hQuiet _)
    rw [heldSlots, inCancel_of_quiescent hQuiet, add_zero] at hDone
    exact hDone
  exact ⟨fun entry hEntry => (hBooks entry hEntry).1.trans (hBooks entry hEntry).2.symm,
    fun entry hEntry => (hBooks entry hEntry).1⟩

/-
  The interleaving of the race, with the puts after the reservation
  has committed: the reservation reads both ledgers absent and
  takes nothing, and the puts then write both totals whole.
-/
theorem lockedRegistration_conserves_slots_reserve_first :
    ∃ c,
      run true Cluster.initial
          [.registerExecutor "executor-1" 1 true 100,
            .registerExecutor "executor-2" 1 false 100,
            .reserveSlots 1,
            .advance 2,
            .snapshotAlive 2 ["executor-1", "executor-2"] 100,
            .advance 2,
            .advance 2,
            .advance 2,
            .advance 0,
            .advance 1] = some c ∧
        Quiescent c ∧ Conserved c ∧ ConservedAtRegistration c := by
  have hRun : run true Cluster.initial
      [.registerExecutor "executor-1" 1 true 100,
        .registerExecutor "executor-2" 1 false 100,
        .reserveSlots 1,
        .advance 2,
        .snapshotAlive 2 ["executor-1", "executor-2"] 100,
        .advance 2,
        .advance 2,
        .advance 2,
        .advance 0,
        .advance 1] = some _ := rfl
  exact ⟨_, hRun, by decide, (lockedRegistration_conserves_slots _ _ hRun).2 (by decide)⟩

end ConcurrentCalls

end Ballista

------------------------------------------------------------
-- Commits Under the Lock
------------------------------------------------------------

namespace Ballista

namespace ConcurrentCalls

open ExecutorManager

/-
  When `register_executor` waits for the `Slots` lock, every call
  about to commit commits what the sequential call computes on the
  ledger as it stands at that moment: a `reserve_slots` call hands
  out the reservations and writes the ledgers of `reserve_slots`
  over the alive set it read, and a `cancel_reservations` call
  writes the ledgers of `cancel_reservations` of its reservations.
  Each call takes effect at once, at its `put_txn`.
-/
theorem lockedCalls_commit_as_sequential
    (actions : List Action)
    (c : Cluster)
    (hRun : run true Cluster.initial actions = some c) :
    (∀ (i desired : Nat) (reservations : List ExecutorReservation)
        (txnOps : List (String × ExecutorData)) (snapshot : List String) (requested : Nat),
      c.calls[i]? = some (.reserveLooping [] desired reservations txnOps snapshot requested) →
      reserveSlots Faults.healthy c.slots snapshot requested =
        (.ok reservations, applyTxn c.slots txnOps)) ∧
    (∀ (i : Nat) (executorSlots : List (String × ExecutorData))
        (cancelling : List ExecutorReservation),
      c.calls[i]? = some (.cancelLooping [] executorSlots cancelling) →
      cancelReservations Faults.healthy c.slots cancelling =
        (.ok (), applyTxn c.slots executorSlots)) := by
  have hInv := BooksInv.run hRun
  refine ⟨fun i desired reservations txnOps snapshot requested hCall => ?_,
    fun i executorSlots cancelling hCall => ?_⟩
  · obtain ⟨-, plan, rfl, rfl, hPlan⟩ := hInv.loops _ (List.getElem?_mem hCall)
    simp only [reservePlan, List.append_nil] at hPlan
    rw [reserveSlots_healthy, hPlan]
  · have hLoop : cancelReservationsLoop Faults.healthy c.slots [] executorSlots =
        cancelReservationsLoop Faults.healthy c.slots cancelling [] :=
      hInv.loops _ (List.getElem?_mem hCall)
    exact cancelReservations_healthy c.slots cancelling executorSlots hLoop.symm

/-
  An executor with one free slot registered, then a `reserve_slots(1)`
  run up to its commit.
-/
theorem lockedCalls_commit_as_sequential_reserve_one :
    ∃ c, run true Cluster.initial
          [.registerExecutor "executor-1" 1 false 100,
            .advance 0,
            .reserveSlots 1,
            .advance 1,
            .snapshotAlive 1 ["executor-1"] 100,
            .advance 1] = some c ∧
      ∃ (desired : Nat) (reservations : List ExecutorReservation)
        (txnOps : List (String × ExecutorData)),
        c.calls[1]? = some (.reserveLooping [] desired reservations txnOps ["executor-1"] 1) ∧
        reserveSlots Faults.healthy c.slots ["executor-1"] 1 =
          (.ok reservations, applyTxn c.slots txnOps) := by
  have hRun : run true Cluster.initial
      [.registerExecutor "executor-1" 1 false 100,
        .advance 0,
        .reserveSlots 1,
        .advance 1,
        .snapshotAlive 1 ["executor-1"] 100,
        .advance 1] = some _ := rfl
  exact ⟨_, hRun, _, _, _, rfl,
    (lockedCalls_commit_as_sequential _ _ hRun).1 1 _ _ _ _ _ rfl⟩

end ConcurrentCalls

end Ballista
