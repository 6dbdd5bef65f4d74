import Ballista.Core.Types

/-
  Lock acquisition in the cluster-state store
  (`cluster/storage/mod.rs`). `acquire_locks` sorts its ids by the
  string `/{keyspace:?}/{key}`. It then hands one `lock` future
  per id to `try_join_all`, which drives all of them at once. Each
  future takes its mutex as soon as the mutex is free, in whatever
  order the futures happen to be polled. The call returns once
  every future has completed, and the guards stay held until the
  caller drops them.

  A run interleaves the steps of `n` concurrent calls. Two step
  relations act on the same state:
    * `JoinAllStep` is the code: a call takes any id it still
      waits for.
    * `OrderedStep` is the order the source comment promises: a
      call takes its ids one at a time, in sorted order.
  Every ordered step is a join-all step. Only the ordered
  discipline is free of deadlock.

  Main declarations:
    * `Keyspace`, `lockSortKey`, `sortLockIds`, `acquireLocksStart`
    * `LockCall`, `Deadlocked`, `JoinAllStep`, `OrderedStep`
    * `lockSortKey_injective`, `sortLockIds_strictly_sorted`
    * `joinAllStep_exists_iff`
    * `acquireLocks_try_join_all_deadlocks`
    * `OrderedInv`, `OrderedInv.not_deadlocked`, `OrderedInv.progress`
    * `acquireLocks_in_sorted_order_never_deadlocks`
-/

------------------------------------------------------------
-- Lock Ids and Their Order
------------------------------------------------------------

namespace Ballista

namespace Storage

/- The keyspaces of the cluster-state store. -/
inductive Keyspace
| executors
| jobStatus
| executionGraph
| activeJobs
| completedJobs
| failedJobs
| slots
| sessions
| heartbeats
deriving DecidableEq, Repr

/- What `{:?}` prints for a keyspace: the variant's name. -/
def Keyspace.debugName : Keyspace → String
| .executors => "Executors"
| .jobStatus => "JobStatus"
| .executionGraph => "ExecutionGraph"
| .activeJobs => "ActiveJobs"
| .completedJobs => "CompletedJobs"
| .failedJobs => "FailedJobs"
| .slots => "Slots"
| .sessions => "Sessions"
| .heartbeats => "Heartbeats"

/- A lock id: a keyspace and a key in it. -/
abbrev LockId :=
  Keyspace × String

/- The key `acquire_locks` sorts by: `format!("/{:?}/{}", ks, key)`. -/
def lockSortKey
    (id : LockId) : String :=
  "/" ++ id.1.debugName ++ "/" ++ id.2

/-
  `ids.sort_by_key(..)`: a stable sort by `lockSortKey`. Stable
  sorts by one key all return the same list, so insertion sort
  stands in for the library's merge sort.
-/
def sortLockIds
    (ids : List LockId) : List LockId :=
  ids.insertionSort (fun a b => lockSortKey a ≤ lockSortKey b)

/- No variant's name contains the separator. -/
theorem slash_not_mem_debugName
    (keyspace : Keyspace) :
    '/' ∉ keyspace.debugName.data := by
  cases keyspace <;> decide

/- Variants print differently. -/
theorem debugName_data_injective
    {keyspace keyspace' : Keyspace}
    (hName : keyspace.debugName.data = keyspace'.debugName.data) :
    keyspace = keyspace' := by
  cases keyspace <;> cases keyspace' <;> first | rfl | exact absurd hName (by decide)

/-
  A separator that occurs in neither head fixes where both lists
  split.
-/
theorem append_cons_inj_of_not_mem
    {α : Type}
    {c : α}
    {a b x y : List α}
    (ha : c ∉ a)
    (hb : c ∉ b)
    (h : a ++ c :: x = b ++ c :: y) :
    a = b ∧ x = y := by
  induction a generalizing b with
  | nil =>
      cases b with
      | nil => simpa using h
      | cons b0 b =>
          simp only [List.nil_append, List.cons_append, List.cons.injEq] at h
          exact absurd (h.1 ▸ List.mem_cons_self b0 b) hb
  | cons a0 a ih =>
      cases b with
      | nil =>
          simp only [List.nil_append, List.cons_append, List.cons.injEq] at h
          exact absurd (h.1 ▸ List.mem_cons_self a0 a) ha
      | cons b0 b =>
          simp only [List.cons_append, List.cons.injEq] at h
          simp only [List.mem_cons, not_or] at ha hb
          obtain ⟨rfl, hRest⟩ := h
          exact (ih ha.2 hb.2 hRest).imp (congrArg _) id

/-
  Distinct ids have distinct sort keys: the keyspace's name ends
  at the second `/`, and what follows is the key.
-/
theorem lockSortKey_injective :
    Function.Injective lockSortKey := by
  rintro ⟨keyspace, key⟩ ⟨keyspace', key'⟩ hKey
  have hData := congrArg String.data hKey
  simp only [lockSortKey, String.data_append, List.append_assoc,
    List.cons_append, List.nil_append, List.cons.injEq, true_and] at hData
  obtain ⟨hName, hRest⟩ := append_cons_inj_of_not_mem
    (slash_not_mem_debugName keyspace) (slash_not_mem_debugName keyspace') hData
  rw [debugName_data_injective hName, String.ext hRest]

/- The sort orders ids by their keys. -/
theorem sortLockIds_sorted
    (ids : List LockId) :
    (sortLockIds ids).Sorted (fun a b => lockSortKey a ≤ lockSortKey b) :=
  haveI : IsTotal LockId (fun a b => lockSortKey a ≤ lockSortKey b) :=
    ⟨fun _ _ => le_total _ _⟩
  haveI : IsTrans LockId (fun a b => lockSortKey a ≤ lockSortKey b) :=
    ⟨fun _ _ _ => le_trans⟩
  List.sorted_insertionSort _ ids

/- The sort only reorders. -/
theorem sortLockIds_perm
    (ids : List LockId) :
    (sortLockIds ids).Perm ids :=
  List.perm_insertionSort _ ids

/-
  Over pairwise-distinct ids the sorted list is strictly increasing
  in the key.
-/
theorem sortLockIds_strictly_sorted
    (ids : List LockId)
    (hDistinct : ids.Nodup) :
    (sortLockIds ids).Sorted (fun a b => lockSortKey a < lockSortKey b) :=
  ((sortLockIds_sorted ids).and ((sortLockIds_perm ids).nodup_iff.mpr hDistinct)).imp
    fun ⟨hLe, hNe⟩ => lt_of_le_of_ne hLe (lockSortKey_injective.ne hNe)

end Storage

end Ballista

------------------------------------------------------------
-- Calls, Steps and Deadlock
------------------------------------------------------------

namespace Ballista

namespace Storage

/-
  One `acquire_locks` call: the ids in the order it asks for them,
  the locks it holds in the order it got them, and whether it has
  returned and its caller has dropped the guards.
-/
structure LockCall (κ : Type) where
  ids : List κ
  held : List κ
  returned : Bool
deriving DecidableEq, Repr

namespace LockCall

variable {κ : Type}

/- The call still waits for `k`: it asked for it and has not got it. -/
def Waits
    (call : LockCall κ)
    (k : κ) : Prop :=
  call.returned = false ∧ k ∈ call.ids ∧ k ∉ call.held

/- The call waits for some lock. -/
def Unfinished
    (call : LockCall κ) : Prop :=
  ∃ k ∈ call.ids, call.Waits k

/- The call holds every lock it asked for and has not returned. -/
def Ready
    (call : LockCall κ) : Prop :=
  call.returned = false ∧ ∀ k ∈ call.ids, k ∈ call.held

/- The id a call that takes its ids in order asks for next. -/
def next
    (call : LockCall κ) : Option κ :=
  call.ids[call.held.length]?

instance [DecidableEq κ] (call : LockCall κ) (k : κ) :
    Decidable (call.Waits k) :=
  inferInstanceAs (Decidable (_ ∧ _ ∧ _))

instance [DecidableEq κ] (call : LockCall κ) :
    Decidable call.Unfinished :=
  inferInstanceAs (Decidable (∃ _ ∈ _, _))

instance [DecidableEq κ] (call : LockCall κ) :
    Decidable call.Ready :=
  inferInstanceAs (Decidable (_ ∧ ∀ _ ∈ _, _))

/- A call that has not returned and waits for nothing is ready. -/
theorem ready_of_not_unfinished
    {call : LockCall κ}
    (hLive : call.returned = false)
    (hDone : ¬ call.Unfinished) :
    call.Ready :=
  ⟨hLive, fun k hk => by
    by_contra hHeld
    exact hDone ⟨k, hk, hLive, hk, hHeld⟩⟩

end LockCall

section

variable {κ : Type} {n : Nat}

/- No call holds `k`. -/
def Free
    (calls : Fin n → LockCall κ)
    (k : κ) : Prop :=
  ∀ j, k ∉ (calls j).held

/- Some unfinished call other than `i` holds `k`. -/
def HeldByOther
    (calls : Fin n → LockCall κ)
    (i : Fin n)
    (k : κ) : Prop :=
  ∃ j, j ≠ i ∧ (calls j).Unfinished ∧ k ∈ (calls j).held

/-
  Some call is unfinished, and every unfinished call waits for a
  lock that another unfinished call holds.
-/
def Deadlocked
    (calls : Fin n → LockCall κ) : Prop :=
  (∃ i, (calls i).Unfinished) ∧
    ∀ i, (calls i).Unfinished →
      ∃ k ∈ (calls i).ids, (calls i).Waits k ∧ HeldByOther calls i k

instance [DecidableEq κ] (calls : Fin n → LockCall κ) (k : κ) :
    Decidable (Free calls k) :=
  inferInstanceAs (Decidable (∀ _, _))

instance [DecidableEq κ] (calls : Fin n → LockCall κ) (i : Fin n) (k : κ) :
    Decidable (HeldByOther calls i k) :=
  inferInstanceAs (Decidable (∃ _, _))

instance [DecidableEq κ] (calls : Fin n → LockCall κ) :
    Decidable (Deadlocked calls) :=
  inferInstanceAs (Decidable (_ ∧ _))

/- Call `i`'s future for `k` completes: the call now holds `k`. -/
def acquired
    (calls : Fin n → LockCall κ)
    (i : Fin n)
    (k : κ) :
    Fin n → LockCall κ :=
  Function.update calls i { calls i with held := (calls i).held ++ [k] }

/- Call `i` returns and its caller drops every guard. -/
def released
    (calls : Fin n → LockCall κ)
    (i : Fin n) :
    Fin n → LockCall κ :=
  Function.update calls i { calls i with held := [], returned := true }

@[simp] theorem acquired_ids
    (calls : Fin n → LockCall κ)
    (i j : Fin n)
    (k : κ) :
    (acquired calls i k j).ids = (calls j).ids := by
  by_cases hj : j = i
  · subst hj; simp [acquired]
  · simp [acquired, hj]

@[simp] theorem acquired_returned
    (calls : Fin n → LockCall κ)
    (i j : Fin n)
    (k : κ) :
    (acquired calls i k j).returned = (calls j).returned := by
  by_cases hj : j = i
  · subst hj; simp [acquired]
  · simp [acquired, hj]

@[simp] theorem acquired_held
    (calls : Fin n → LockCall κ)
    (i j : Fin n)
    (k : κ) :
    (acquired calls i k j).held =
      if j = i then (calls i).held ++ [k] else (calls j).held := by
  by_cases hj : j = i
  · subst hj; simp [acquired]
  · simp [acquired, hj]

@[simp] theorem released_ids
    (calls : Fin n → LockCall κ)
    (i j : Fin n) :
    (released calls i j).ids = (calls j).ids := by
  by_cases hj : j = i
  · subst hj; simp [released]
  · simp [released, hj]

@[simp] theorem released_returned
    (calls : Fin n → LockCall κ)
    (i j : Fin n) :
    (released calls i j).returned = (j = i || (calls j).returned) := by
  by_cases hj : j = i
  · subst hj; simp [released]
  · simp [released, hj]

@[simp] theorem released_held
    (calls : Fin n → LockCall κ)
    (i j : Fin n) :
    (released calls i j).held = if j = i then [] else (calls j).held := by
  by_cases hj : j = i
  · subst hj; simp [released]
  · simp [released, hj]

/-
  The code: `try_join_all` lets any of a call's futures complete
  whenever its mutex is free, and the call returns once all have.
-/
inductive JoinAllStep :
    (Fin n → LockCall κ) → (Fin n → LockCall κ) → Prop
| acquire {calls : Fin n → LockCall κ}
    (i : Fin n)
    (k : κ)
    (hWaits : (calls i).Waits k)
    (hFree : Free calls k) :
    JoinAllStep calls (acquired calls i k)
| release {calls : Fin n → LockCall κ}
    (i : Fin n)
    (hReady : (calls i).Ready) :
    JoinAllStep calls (released calls i)

/-
  The discipline the source comment promises: a call takes its ids
  one at a time, in the order it asks for them.
-/
inductive OrderedStep :
    (Fin n → LockCall κ) → (Fin n → LockCall κ) → Prop
| acquireNext {calls : Fin n → LockCall κ}
    (i : Fin n)
    (k : κ)
    (hLive : (calls i).returned = false)
    (hNext : (calls i).next = some k)
    (hFree : Free calls k) :
    OrderedStep calls (acquired calls i k)
| release {calls : Fin n → LockCall κ}
    (i : Fin n)
    (hReady : (calls i).Ready) :
    OrderedStep calls (released calls i)

/-
  Some join-all step can be taken: a call waits for a free lock,
  or a call is ready to return.
-/
def JoinAllEnabled
    (calls : Fin n → LockCall κ) : Prop :=
  (∃ i, ∃ k ∈ (calls i).ids, (calls i).Waits k ∧ Free calls k) ∨
    ∃ i, (calls i).Ready

instance [DecidableEq κ] (calls : Fin n → LockCall κ) :
    Decidable (JoinAllEnabled calls) :=
  inferInstanceAs (Decidable (_ ∨ _))

/- A join-all run can go on exactly when some step is enabled. -/
theorem joinAllStep_exists_iff
    (calls : Fin n → LockCall κ) :
    (∃ calls', JoinAllStep calls calls') ↔ JoinAllEnabled calls := by
  constructor
  · rintro ⟨_, hStep⟩
    cases hStep with
    | acquire i k hWaits hFree => exact .inl ⟨i, k, hWaits.2.1, hWaits, hFree⟩
    | release i hReady => exact .inr ⟨i, hReady⟩
  · rintro (⟨i, k, -, hWaits, hFree⟩ | ⟨i, hReady⟩)
    · exact ⟨_, .acquire i k hWaits hFree⟩
    · exact ⟨_, .release i hReady⟩

end

/-
  The calls as `acquire_locks` starts them: each has sorted its
  ids and holds nothing.
-/
def acquireLocksStart
    {n : Nat}
    (requests : Fin n → List LockId) :
    Fin n → LockCall LockId :=
  fun i => ⟨sortLockIds (requests i), [], false⟩

end Storage

end Ballista

------------------------------------------------------------
-- The Code Can Deadlock
------------------------------------------------------------

namespace Ballista

namespace Storage

/-
  Two calls both lock `(Slots, "a")` and `(Slots, "b")`. The second
  call's future for `a` completes first, then the first call's
  future for `b`. Each call now waits for the lock the other holds,
  and no step of any call is enabled.
-/
theorem acquireLocks_try_join_all_deadlocks :
    ∃ calls,
      Relation.ReflTransGen JoinAllStep
          (acquireLocksStart
            (fun _ : Fin 2 => [(Keyspace.slots, "a"), (Keyspace.slots, "b")]))
          calls ∧
        Deadlocked calls ∧
        ∀ calls', ¬ JoinAllStep calls calls' := by
  have hKeys : lockSortKey (.slots, "a") ≤ lockSortKey (.slots, "b") := by
    rw [String.le_iff_toList_le]
    decide
  have hSorted :
      sortLockIds [(.slots, "a"), (.slots, "b")] =
        [(.slots, "a"), (.slots, "b")] := by
    simp [sortLockIds, List.insertionSort, List.orderedInsert, hKeys]
  have hStart :
      acquireLocksStart
          (fun _ : Fin 2 => [(Keyspace.slots, "a"), (Keyspace.slots, "b")]) =
        fun _ => ⟨[(.slots, "a"), (.slots, "b")], [], false⟩ :=
    funext fun _ => by simp [acquireLocksStart, hSorted]
  rw [hStart]
  refine ⟨_,
    (Relation.ReflTransGen.single (JoinAllStep.acquire 1 (.slots, "a")
      (by decide) (by decide))).tail
      (JoinAllStep.acquire 0 (.slots, "b") (by decide) (by decide)),
    by decide, fun calls' hStep => ?_⟩
  have hStuck := (joinAllStep_exists_iff _).mp ⟨calls', hStep⟩
  revert hStuck
  decide

end Storage

end Ballista

------------------------------------------------------------
-- Ordered Acquisition Never Deadlocks
------------------------------------------------------------

namespace Ballista

namespace Storage

namespace LockCall

variable {κ ρ : Type} [LinearOrder ρ] (rank : κ → ρ)

/- After its held ids, a call asks for the id that follows them. -/
theorem next_of_ids_eq
    {call : LockCall κ}
    {m : κ}
    {rest : List κ}
    (hIds : call.held ++ m :: rest = call.ids) :
    call.next = some m := by
  simp only [next, ← hIds, List.getElem?_append_right le_rfl, Nat.sub_self,
    List.getElem?_cons_zero]

/- A call that holds a leading run of its ids asks for the id after it. -/
theorem eq_append_next
    {call : LockCall κ}
    {m : κ}
    (hInOrder : call.held <+: call.ids)
    (hNext : call.next = some m) :
    ∃ rest, call.ids = call.held ++ m :: rest := by
  obtain ⟨rest, hIds⟩ := hInOrder
  cases rest with
  | nil => simp [next, ← hIds] at hNext
  | cons m' rest =>
      obtain rfl : m' = m := Option.some.inj ((next_of_ids_eq hIds).symm.trans hNext)
      exact ⟨rest, hIds.symm⟩

/- Every held id ranks below every id still to come. -/
theorem rank_lt_of_held
    {call : LockCall κ}
    {k m : κ}
    (hSorted : call.ids.Sorted (fun a b => rank a < rank b))
    (hInOrder : call.held <+: call.ids)
    (hk : k ∈ call.held)
    (hm : m ∈ call.ids)
    (hmHeld : m ∉ call.held) :
    rank k < rank m := by
  obtain ⟨rest, hIds⟩ := hInOrder
  rw [← hIds] at hSorted hm
  have hmRest : m ∈ rest := (List.mem_append.mp hm).resolve_left hmHeld
  exact (List.pairwise_append.mp hSorted).2.2 k hk m hmRest

/- The next id is not held yet. -/
theorem next_not_mem_held
    {call : LockCall κ}
    {m : κ}
    (hSorted : call.ids.Sorted (fun a b => rank a < rank b))
    (hInOrder : call.held <+: call.ids)
    (hNext : call.next = some m) :
    m ∉ call.held := by
  intro hm
  obtain ⟨rest, hIds⟩ := eq_append_next hInOrder hNext
  rw [hIds] at hSorted
  exact lt_irrefl _
    ((List.pairwise_append.mp hSorted).2.2 m hm m (List.mem_cons_self m rest))

/- Every id the call still waits for ranks at least as high as the next. -/
theorem rank_next_le
    {call : LockCall κ}
    {k m : κ}
    (hSorted : call.ids.Sorted (fun a b => rank a < rank b))
    (hInOrder : call.held <+: call.ids)
    (hNext : call.next = some m)
    (hk : k ∈ call.ids)
    (hkHeld : k ∉ call.held) :
    rank m ≤ rank k := by
  obtain ⟨rest, hIds⟩ := eq_append_next hInOrder hNext
  rw [hIds] at hSorted hk
  rcases List.mem_cons.mp ((List.mem_append.mp hk).resolve_left hkHeld) with hkm | hkRest
  · rw [hkm]
  · exact le_of_lt (List.rel_of_sorted_cons
      (List.pairwise_append.mp hSorted).2.1 k hkRest)

/- An unfinished call waits for its next id. -/
theorem next_of_unfinished
    {call : LockCall κ}
    (hSorted : call.ids.Sorted (fun a b => rank a < rank b))
    (hInOrder : call.held <+: call.ids)
    (hUnfinished : call.Unfinished) :
    ∃ m, call.next = some m ∧ call.Waits m := by
  obtain ⟨k, -, hLive, hk, hkHeld⟩ := hUnfinished
  obtain ⟨rest, hIds⟩ := hInOrder
  cases rest with
  | nil => simp [← hIds] at hkHeld hk; exact absurd hk hkHeld
  | cons m rest =>
      have hNext := next_of_ids_eq hIds
      exact ⟨m, hNext, hLive, by rw [← hIds]; simp,
        next_not_mem_held rank hSorted ⟨_, hIds⟩ hNext⟩

end LockCall

section

variable {κ ρ : Type} [LinearOrder ρ] (rank : κ → ρ) {n : Nat}

/-
  What one-at-a-time acquisition keeps true of every call: its ids
  rise strictly in rank, it holds a leading run of them, and once
  returned it holds nothing.
-/
structure OrderedInv
    (calls : Fin n → LockCall κ) : Prop where
  sorted : ∀ i, (calls i).ids.Sorted (fun a b => rank a < rank b)
  heldInOrder : ∀ i, (calls i).held <+: (calls i).ids
  releasedEmpty : ∀ i, (calls i).returned = true → (calls i).held = []

variable {rank}

/- Taking the next id extends the leading run. -/
theorem append_next_of_held
    {call : LockCall κ}
    {k : κ}
    (hInOrder : call.held <+: call.ids)
    (hNext : call.next = some k) :
    call.held ++ [k] <+: call.ids := by
  obtain ⟨rest, hIds⟩ := LockCall.eq_append_next hInOrder hNext
  exact ⟨rest, by simp [hIds]⟩

/- One ordered step keeps the invariant. -/
theorem OrderedInv.step
    {calls calls' : Fin n → LockCall κ}
    (hInv : OrderedInv rank calls)
    (hStep : OrderedStep calls calls') :
    OrderedInv rank calls' := by
  cases hStep with
  | acquireNext i k hLive hNext _ =>
      refine ⟨fun j => by simpa using hInv.sorted j, fun j => ?_, fun j => ?_⟩
      · by_cases hj : j = i
        · subst hj; simpa using append_next_of_held (hInv.heldInOrder j) hNext
        · simpa [hj] using hInv.heldInOrder j
      · by_cases hj : j = i
        · subst hj; simp [hLive]
        · simpa [hj] using hInv.releasedEmpty j
  | release i _ =>
      refine ⟨fun j => by simpa using hInv.sorted j, fun j => ?_, fun j => ?_⟩
      · by_cases hj : j = i
        · simp [hj]
        · simpa [hj] using hInv.heldInOrder j
      · by_cases hj : j = i
        · simp [hj]
        · simpa [hj] using hInv.releasedEmpty j

/- The invariant holds along every ordered run. -/
theorem OrderedInv.reachable
    {start calls : Fin n → LockCall κ}
    (hStart : OrderedInv rank start)
    (hReach : Relation.ReflTransGen OrderedStep start calls) :
    OrderedInv rank calls := by
  induction hReach with
  | refl => exact hStart
  | tail _ hStep ih => exact ih.step hStep

/-
  Some unfinished call waits for nothing another unfinished call
  holds: the one whose next id ranks highest. Any unfinished call
  holding one of its ids would have a next id of higher rank still.
-/
theorem OrderedInv.exists_unblocked
    {calls : Fin n → LockCall κ}
    (hInv : OrderedInv rank calls)
    (hSome : ∃ i, (calls i).Unfinished) :
    ∃ i, (calls i).Unfinished ∧
      ∀ k, (calls i).Waits k → ¬ HeldByOther calls i k := by
  classical
  let nextRank : Fin n → WithBot ρ := fun i => (calls i).next.map rank
  obtain ⟨i, hiUnfinished, hMax⟩ := Finset.exists_max_image
    (Finset.univ.filter (fun i => (calls i).Unfinished)) nextRank
    (by obtain ⟨i, hi⟩ := hSome; exact ⟨i, by simpa using hi⟩)
  simp only [Finset.mem_filter, Finset.mem_univ, true_and] at hiUnfinished hMax
  refine ⟨i, hiUnfinished, fun k hk ⟨j, _, hjUnfinished, hkHeld⟩ => ?_⟩
  obtain ⟨m, hNext, -⟩ := LockCall.next_of_unfinished rank
    (hInv.sorted i) (hInv.heldInOrder i) hiUnfinished
  obtain ⟨m', hNext', hWaits'⟩ := LockCall.next_of_unfinished rank
    (hInv.sorted j) (hInv.heldInOrder j) hjUnfinished
  have hMaxJ : rank m' ≤ rank m := by
    simpa [nextRank, hNext, hNext'] using hMax j hjUnfinished
  have hCycle : rank m' < rank m' := calc
    rank m' ≤ rank m := hMaxJ
    _ ≤ rank k := LockCall.rank_next_le rank (hInv.sorted i)
      (hInv.heldInOrder i) hNext hk.2.1 hk.2.2
    _ < rank m' := LockCall.rank_lt_of_held rank (hInv.sorted j)
      (hInv.heldInOrder j) hkHeld hWaits'.2.1 hWaits'.2.2
  exact lt_irrefl _ hCycle

/- Under the invariant no state is deadlocked. -/
theorem OrderedInv.not_deadlocked
    {calls : Fin n → LockCall κ}
    (hInv : OrderedInv rank calls) :
    ¬ Deadlocked calls := by
  rintro ⟨hSome, hAll⟩
  obtain ⟨i, hUnfinished, hUnblocked⟩ := hInv.exists_unblocked hSome
  obtain ⟨k, -, hWaits, hHeld⟩ := hAll i hUnfinished
  exact hUnblocked k hWaits hHeld

/-
  Under the invariant a run only stops once every call has returned:
  the unblocked call takes its next id, or the call holding that id
  has every lock and returns.
-/
theorem OrderedInv.progress
    {calls : Fin n → LockCall κ}
    (hInv : OrderedInv rank calls)
    (hLive : ∃ i, (calls i).returned = false) :
    ∃ calls', OrderedStep calls calls' := by
  by_cases hSome : ∃ i, (calls i).Unfinished
  · obtain ⟨i, hUnfinished, hUnblocked⟩ := hInv.exists_unblocked hSome
    obtain ⟨m, hNext, hWaits⟩ := LockCall.next_of_unfinished rank
      (hInv.sorted i) (hInv.heldInOrder i) hUnfinished
    by_cases hFree : Free calls m
    · exact ⟨_, .acquireNext i m hWaits.1 hNext hFree⟩
    · obtain ⟨j, hmHeld⟩ : ∃ j, m ∈ (calls j).held := by
        simpa [Free] using hFree
      have hji : j ≠ i := fun hji => hWaits.2.2 (hji ▸ hmHeld)
      have hjLive : (calls j).returned = false := by
        by_contra hReturned
        simp [hInv.releasedEmpty j (by simpa using hReturned)] at hmHeld
      exact ⟨_, .release j (LockCall.ready_of_not_unfinished hjLive
        fun hjUnfinished => hUnblocked m hWaits ⟨j, hji, hjUnfinished, hmHeld⟩)⟩
  · obtain ⟨i, hiLive⟩ := hLive
    exact ⟨_, .release i (LockCall.ready_of_not_unfinished hiLive
      fun hiUnfinished => hSome ⟨i, hiUnfinished⟩)⟩

/- Under the invariant an ordered step is one the code can take. -/
theorem OrderedInv.joinAllStep
    {calls calls' : Fin n → LockCall κ}
    (hInv : OrderedInv rank calls)
    (hStep : OrderedStep calls calls') :
    JoinAllStep calls calls' := by
  cases hStep with
  | acquireNext i k hLive hNext hFree =>
      obtain ⟨rest, hIds⟩ := LockCall.eq_append_next (hInv.heldInOrder i) hNext
      exact .acquire i k ⟨hLive, by simp [hIds],
        LockCall.next_not_mem_held rank (hInv.sorted i) (hInv.heldInOrder i) hNext⟩ hFree
  | release i hReady => exact .release i hReady

end

/- `acquire_locks` starts every call inside the invariant. -/
theorem acquireLocksStart_orderedInv
    {n : Nat}
    (requests : Fin n → List LockId)
    (hDistinct : ∀ i, (requests i).Nodup) :
    OrderedInv lockSortKey (acquireLocksStart requests) :=
  ⟨fun i => sortLockIds_strictly_sorted _ (hDistinct i),
    fun _ => List.nil_prefix,
    fun _ hReturned => by simp [acquireLocksStart] at hReturned⟩

/-
  Had each call taken its sorted ids one at a time, no run over
  pairwise-distinct ids would reach a deadlock or stop before every
  call returned, and each such run is one the code can take.
-/
theorem acquireLocks_in_sorted_order_never_deadlocks
    {n : Nat}
    (requests : Fin n → List LockId)
    (hDistinct : ∀ i, (requests i).Nodup)
    (calls : Fin n → LockCall LockId)
    (hReach : Relation.ReflTransGen OrderedStep (acquireLocksStart requests) calls) :
    ¬ Deadlocked calls ∧
      ((∃ i, (calls i).returned = false) → ∃ calls', OrderedStep calls calls') ∧
      ∀ calls', OrderedStep calls calls' → JoinAllStep calls calls' := by
  have hInv := (acquireLocksStart_orderedInv requests hDistinct).reachable hReach
  exact ⟨hInv.not_deadlocked, hInv.progress, fun _ => hInv.joinAllStep⟩

/-
  Two calls over the ids of the deadlocking run, from their start.
-/
theorem acquireLocks_in_sorted_order_two_calls :
    (∀ i, ((fun _ : Fin 2 => [(Keyspace.slots, "a"), (Keyspace.slots, "b")]) i).Nodup) ∧
      (¬ Deadlocked (acquireLocksStart
          (fun _ : Fin 2 => [(Keyspace.slots, "a"), (Keyspace.slots, "b")])) ∧
        ((∃ i, (acquireLocksStart
            (fun _ : Fin 2 => [(Keyspace.slots, "a"), (Keyspace.slots, "b")]) i).returned =
              false) →
          ∃ calls', OrderedStep (acquireLocksStart
            (fun _ : Fin 2 => [(Keyspace.slots, "a"), (Keyspace.slots, "b")])) calls') ∧
        ∀ calls', OrderedStep (acquireLocksStart
            (fun _ : Fin 2 => [(Keyspace.slots, "a"), (Keyspace.slots, "b")])) calls' →
          JoinAllStep (acquireLocksStart
            (fun _ : Fin 2 => [(Keyspace.slots, "a"), (Keyspace.slots, "b")])) calls') :=
  ⟨by decide,
    acquireLocks_in_sorted_order_never_deadlocks _ (by decide) _ .refl⟩

end Storage

end Ballista
