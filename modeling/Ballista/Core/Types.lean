import Mathlib.Data.Finset.Max
import Mathlib.Data.Fintype.Basic
import Mathlib.Data.List.Dedup
import Mathlib.Data.List.Sort
import Mathlib.Data.String.Basic
import Mathlib.Logic.Relation
import Mathlib.Tactic.NormNum
import Mathlib.Tactic.PushNeg
import Mathlib.Tactic.Set
import Mathlib.Tactic.SplitIfs

/-
  Records shared by the executor manager, the slot-distribution
  policies, the cluster-state backends and the executor runtime.

  Integer fields are `Nat`: every subtraction the scheduler
  performs on them is guarded by a `min`, and the one addition
  that can leave `u32` (returning a slot) goes through
  `wrappingAdd`.

  Main declarations:
    * `BallistaError`
    * `ExecutorData`
    * `ExecutorReservation` and `ExecutorReservation.newFree`
    * `AvailableTaskSlots`
    * `ExecutorHeartbeat`
    * `reservationCount`
    * `wrappingAdd`
    * `lookup_cons_ite`
    * `runSteps`, `runSteps_invariant`
    * `getElem?_concat_eq`, `getElem?_set_eq`
-/

------------------------------------------------------------
-- Errors and Records
------------------------------------------------------------

namespace Ballista

/-
  The error kinds the modelled calls build or forward. Backend
  failures carry whatever error the backend reports.
-/
inductive BallistaError
| general (message : String)
| internal (message : String)
| dataFusionError (message : String)
| cancelled
deriving DecidableEq, Repr

/- Results compare by constructor and payload. -/
instance instDecidableEqExceptBallista
    {ε α : Type} [DecidableEq ε] [DecidableEq α] :
    DecidableEq (Except ε α) :=
  fun left right =>
    match left, right with
    | .error a, .error b => decidable_of_iff (a = b) (by simp)
    | .ok a, .ok b => decidable_of_iff (a = b) (by simp)
    | .error _, .ok _ => isFalse (by simp)
    | .ok _, .error _ => isFalse (by simp)

/- The slot ledger of one executor, as stored in `Slots`. -/
structure ExecutorData where
  executorId : String
  totalTaskSlots : Nat
  availableTaskSlots : Nat
deriving DecidableEq, Repr

/- The record `decode_into` gives for empty bytes: protobuf defaults. -/
instance : Inhabited ExecutorData :=
  ⟨⟨"", 0, 0⟩⟩

/-
  A reserved task slot on one executor, possibly already
  assigned to a job.
-/
structure ExecutorReservation where
  executorId : String
  jobId : Option String
deriving DecidableEq, Repr

namespace ExecutorReservation

/- A reservation not yet assigned to any job. -/
def newFree
    (executorId : String) :
    ExecutorReservation :=
  ⟨executorId, none⟩

/- Whether the reservation is bound to a job. -/
def assigned
    (reservation : ExecutorReservation) : Bool :=
  reservation.jobId.isSome

@[simp] theorem newFree_executorId
    (executorId : String) :
    (newFree executorId).executorId = executorId :=
  rfl

@[simp] theorem assigned_newFree
    (executorId : String) :
    (newFree executorId).assigned = false :=
  rfl

end ExecutorReservation

/-
  One entry of the free-slot vector handed to the distribution
  policies.
-/
structure AvailableTaskSlots where
  executorId : String
  slots : Nat
deriving DecidableEq, Repr

/-
  A heartbeat as cached by the scheduler: the executor and the
  unix-seconds timestamp it was recorded at.
-/
structure ExecutorHeartbeat where
  executorId : String
  timestamp : Nat
deriving DecidableEq, Repr

instance : Inhabited ExecutorHeartbeat :=
  ⟨⟨"", 0⟩⟩

end Ballista

------------------------------------------------------------
-- Counting Reservations
------------------------------------------------------------

namespace Ballista

/- How many reservations of a list name one executor. -/
def reservationCount
    (executorId : String)
    (reservations : List ExecutorReservation) : Nat :=
  reservations.countP (fun r => r.executorId == executorId)

@[simp] theorem reservationCount_nil
    (executorId : String) :
    reservationCount executorId [] = 0 :=
  rfl

@[simp] theorem reservationCount_append
    (executorId : String)
    (left right : List ExecutorReservation) :
    reservationCount executorId (left ++ right) =
      reservationCount executorId left +
        reservationCount executorId right :=
  List.countP_append _ _ _

@[simp] theorem reservationCount_cons
    (executorId : String)
    (r : ExecutorReservation)
    (rest : List ExecutorReservation) :
    reservationCount executorId (r :: rest) =
      reservationCount executorId rest +
        if r.executorId = executorId then 1 else 0 := by
  simp [reservationCount, List.countP_cons]

@[simp] theorem reservationCount_replicate_newFree
    (executorId other : String)
    (count : Nat) :
    reservationCount executorId
        (List.replicate count
          (ExecutorReservation.newFree other)) =
      if other = executorId then count else 0 := by
  simp [reservationCount, List.countP_replicate]

/-
  Counting is blind to order: permuted reservation lists name
  every executor equally often.
-/
theorem reservationCount_perm
    {left right : List ExecutorReservation}
    (hPerm : left.Perm right)
    (executorId : String) :
    reservationCount executorId left =
      reservationCount executorId right :=
  hPerm.countP_eq _

/-
  `u32` addition as an optimised build performs `+=`: it wraps
  at `2^32`.
-/
def wrappingAdd
    (a b : Nat) : Nat :=
  (a + b) % 2 ^ 32

/-
  A hash map modelled as its entries answers a `get` by its first
  entry for the key.
-/
@[simp] theorem lookup_cons_ite
    {α : Type}
    (key entryKey : String)
    (value : α)
    (entries : List (String × α)) :
    ((entryKey, value) :: entries).lookup key =
      if key = entryKey then some value else entries.lookup key := by
  by_cases hKey : key = entryKey
  · simp [List.lookup_cons, hKey]
  · have hBeq : (key == entryKey) = false := by simpa using hKey
    simp [List.lookup_cons, hKey, hBeq]

/- Whatever a `get` answers is an entry of the map. -/
theorem mem_of_lookup_eq_some
    {α : Type}
    {key : String}
    {value : α}
    {entries : List (String × α)}
    (hLookup : entries.lookup key = some value) :
    (key, value) ∈ entries := by
  induction entries with
  | nil => simp at hLookup
  | cons entry entries ih =>
      obtain ⟨entryKey, entryValue⟩ := entry
      by_cases hKey : key = entryKey
      · simp only [lookup_cons_ite, hKey, if_true, Option.some.injEq]
          at hLookup
        simp [hKey, hLookup]
      · simp only [lookup_cons_ite, hKey, if_false] at hLookup
        exact List.mem_cons_of_mem _ (ih hLookup)

/- In a map with one entry per key, `get` answers every entry. -/
theorem lookup_eq_some_of_mem
    {α : Type}
    {key : String}
    {value : α}
    {entries : List (String × α)}
    (hKeys : (entries.map Prod.fst).Nodup)
    (hMem : (key, value) ∈ entries) :
    entries.lookup key = some value := by
  induction entries with
  | nil => cases hMem
  | cons entry entries ih =>
      obtain ⟨entryKey, entryValue⟩ := entry
      simp only [List.map_cons, List.nodup_cons] at hKeys
      rcases List.mem_cons.mp hMem with hHead | hTail
      · obtain ⟨rfl, rfl⟩ := Prod.mk.inj hHead
        simp
      · have hOther : key ≠ entryKey := fun hKey =>
          hKeys.1 (hKey ▸ List.mem_map_of_mem Prod.fst hTail)
        simp only [lookup_cons_ite, hOther, if_false]
        exact ih hKeys.2 hTail

end Ballista

------------------------------------------------------------
-- Runs of Interleaved Steps
------------------------------------------------------------

namespace Ballista

/-
  A run of an interleaving model: the actions in order, each taken
  by a step function that answers `none` when the action is not
  enabled. The run stops at the first such action.
-/
def runSteps
    {σ α : Type}
    (step : σ → α → Option σ) :
    σ → List α → Option σ
| s, [] => some s
| s, action :: actions => (step s action).bind (runSteps step · actions)

/- A run through an enabled step goes on from where the step leads. -/
theorem runSteps_cons_of_step
    {σ α : Type}
    {step : σ → α → Option σ}
    {s s' : σ}
    {action : α}
    (hStep : step s action = some s')
    (actions : List α) :
    runSteps step s (action :: actions) = runSteps step s' actions := by
  simp [runSteps, hStep]

/- A position that reads an element lies within the list. -/
theorem lt_length_of_getElem?
    {α : Type}
    {l : List α}
    {i : Nat}
    {a : α}
    (hRead : l[i]? = some a) :
    i < l.length :=
  (List.getElem?_eq_some_iff.mp hRead).1

/- Reading a list with one element appended. -/
theorem getElem?_concat_eq
    {α : Type}
    (l : List α)
    (a : α)
    (i : Nat) :
    (l ++ [a])[i]? =
      if i < l.length then l[i]?
      else if i = l.length then some a else none := by
  split_ifs with hLt hEq
  · exact List.getElem?_append_left hLt
  · subst hEq
    exact List.getElem?_concat_length l a
  · exact List.getElem?_eq_none (by simp; omega)

/- Reading a list after one position is replaced. -/
theorem getElem?_set_eq
    {α : Type}
    {l : List α}
    {i : Nat}
    (hi : i < l.length)
    (a : α)
    (j : Nat) :
    (l.set i a)[j]? = if j = i then some a else l[j]? := by
  by_cases hj : j = i
  · subst hj
    simp [List.getElem?_set_self hi]
  · simp [List.getElem?_set_ne (Ne.symm hj), hj]

/- What every step keeps, every run keeps. -/
theorem runSteps_invariant
    {σ α : Type}
    {step : σ → α → Option σ}
    (P : σ → Prop)
    (hStep : ∀ s action s', P s → step s action = some s' → P s')
    {s s' : σ}
    {actions : List α}
    (hStart : P s)
    (hRun : runSteps step s actions = some s') :
    P s' := by
  induction actions generalizing s with
  | nil =>
      simp only [runSteps, Option.some.injEq] at hRun
      exact hRun ▸ hStart
  | cons action actions ih =>
      simp only [runSteps] at hRun
      cases hNext : step s action with
      | none => simp [hNext] at hRun
      | some next =>
          simp only [hNext, Option.some_bind] at hRun
          exact ih (hStep s action next hStart hNext) hRun

/-
  What relates the two ends of every allowed step relates the two
  ends of a run of allowed steps, for a reflexive and transitive
  relation.
-/
theorem runSteps_rel
    {σ α : Type}
    {step : σ → α → Option σ}
    (R : σ → σ → Prop)
    (allowed : α → Prop)
    (hRefl : ∀ s, R s s)
    (hTrans : ∀ s₁ s₂ s₃, R s₁ s₂ → R s₂ s₃ → R s₁ s₃)
    (hStep : ∀ s action s', allowed action → step s action = some s' → R s s')
    {s s' : σ}
    {actions : List α}
    (hAllowed : ∀ action ∈ actions, allowed action)
    (hRun : runSteps step s actions = some s') :
    R s s' := by
  induction actions generalizing s with
  | nil =>
      obtain rfl := Option.some.inj hRun
      exact hRefl s
  | cons action actions ih =>
      obtain ⟨next, hFirst, hRest⟩ := Option.bind_eq_some.mp hRun
      exact hTrans _ _ _ (hStep _ _ _ (hAllowed action (List.mem_cons_self _ _)) hFirst)
        (ih (fun later hMem => hAllowed later (List.mem_cons_of_mem _ hMem)) hRest)

/- A run of two parts goes on from where the first part leads. -/
theorem runSteps_append
    {σ α : Type}
    (step : σ → α → Option σ)
    (s : σ)
    (actions actions' : List α) :
    runSteps step s (actions ++ actions') =
      (runSteps step s actions).bind (runSteps step · actions') := by
  induction actions generalizing s with
  | nil => rfl
  | cons action actions ih =>
      show (step s action).bind (runSteps step · (actions ++ actions')) = _
      simp only [runSteps, Option.bind_assoc, ih]

end Ballista
