import Ballista.Core.Types

/-
  The slice of the state backend the executor manager drives:
  the `Slots` keyspace, read with `get` and written with the
  all-or-nothing `put_txn`, and a failure-injection record saying
  which backend call of one request fails.

  Records are kept decoded. `get` of an absent key returns empty
  bytes, which decode to the all-default protobuf record, so an
  absent executor reads as zero slots.

  Main declarations:
    * `SlotsKeyspace`, `decodeExecutorData`
    * `availableTaskSlots`, `totalTaskSlots`
    * `applyTxn`, `putTxn`, `putTxn_error`
    * `Faults`, `orFail`
-/

------------------------------------------------------------
-- The Slots Keyspace
------------------------------------------------------------

namespace Ballista

/- `Slots`: executor id ↦ its stored ledger record. -/
abbrev SlotsKeyspace :=
  String → Option ExecutorData

/-
  `decode_into` of what `get` returned: an absent key is empty
  bytes, which decode to the default record.
-/
def decodeExecutorData :
    Option ExecutorData → ExecutorData
| some data => data
| none => ⟨"", 0, 0⟩

@[simp] theorem decodeExecutorData_some
    (data : ExecutorData) :
    decodeExecutorData (some data) = data :=
  rfl

@[simp] theorem decodeExecutorData_none :
    decodeExecutorData none = ⟨"", 0, 0⟩ :=
  rfl

/- Free slots of an executor as the ledger reads them. -/
def availableTaskSlots
    (slots : SlotsKeyspace)
    (executorId : String) : Nat :=
  (decodeExecutorData (slots executorId)).availableTaskSlots

/- Total slots of an executor as the ledger reads them. -/
def totalTaskSlots
    (slots : SlotsKeyspace)
    (executorId : String) : Nat :=
  (decodeExecutorData (slots executorId)).totalTaskSlots

/-
  The writes of one `put_txn` over `Slots`, applied in order.
-/
def applyTxn
    (slots : SlotsKeyspace)
    (txnOps : List (String × ExecutorData)) :
    SlotsKeyspace :=
  txnOps.foldl
    (fun acc op => Function.update acc op.1 (some op.2)) slots

@[simp] theorem applyTxn_nil
    (slots : SlotsKeyspace) :
    applyTxn slots [] = slots :=
  rfl

@[simp] theorem applyTxn_cons
    (slots : SlotsKeyspace)
    (op : String × ExecutorData)
    (txnOps : List (String × ExecutorData)) :
    applyTxn slots (op :: txnOps) =
      applyTxn (Function.update slots op.1 (some op.2)) txnOps :=
  rfl

/- A transaction leaves every key it does not write alone. -/
theorem applyTxn_of_not_mem
    (slots : SlotsKeyspace)
    (txnOps : List (String × ExecutorData))
    (executorId : String)
    (hAbsent : executorId ∉ txnOps.map Prod.fst) :
    applyTxn slots txnOps executorId = slots executorId := by
  induction txnOps generalizing slots with
  | nil => rfl
  | cons op txnOps ih =>
      simp only [List.map_cons, List.mem_cons, not_or] at hAbsent
      rw [applyTxn_cons, ih _ hAbsent.2,
        Function.update_noteq hAbsent.1]

/-
  A transaction writing each key once leaves every written key
  holding its new record.
-/
theorem applyTxn_of_mem
    (slots : SlotsKeyspace)
    (txnOps : List (String × ExecutorData))
    (executorId : String)
    (data : ExecutorData)
    (hNodup : (txnOps.map Prod.fst).Nodup)
    (hMem : (executorId, data) ∈ txnOps) :
    applyTxn slots txnOps executorId = some data := by
  induction txnOps generalizing slots with
  | nil => cases hMem
  | cons op txnOps ih =>
      simp only [List.map_cons, List.nodup_cons] at hNodup
      rcases List.mem_cons.mp hMem with hHead | hTail
      · subst hHead
        rw [applyTxn_cons, applyTxn_of_not_mem _ _ _ hNodup.1]
        simp
      · exact ih _ hNodup.2 hTail

end Ballista

------------------------------------------------------------
-- Failures and the Atomic Transaction
------------------------------------------------------------

namespace Ballista

/-
  Which backend call of one request fails, and with what error;
  `none` means the call succeeds. Keys index the per-executor
  calls, each of which one request makes at most once.
-/
structure Faults where
  lock : Option BallistaError
  get : String → Option BallistaError
  decode : String → Option BallistaError
  encode : String → Option BallistaError
  putTxn : Option BallistaError

/- A backend on which every call succeeds. -/
def Faults.healthy : Faults :=
  ⟨none, fun _ => none, fun _ => none, fun _ => none, none⟩

@[simp] theorem Faults.healthy_lock :
    Faults.healthy.lock = none :=
  rfl

@[simp] theorem Faults.healthy_get
    (executorId : String) :
    Faults.healthy.get executorId = none :=
  rfl

@[simp] theorem Faults.healthy_decode
    (executorId : String) :
    Faults.healthy.decode executorId = none :=
  rfl

@[simp] theorem Faults.healthy_encode
    (executorId : String) :
    Faults.healthy.encode executorId = none :=
  rfl

@[simp] theorem Faults.healthy_putTxn :
    Faults.healthy.putTxn = none :=
  rfl

/- A backend call that returns `value` unless it fails. -/
def orFail
    {α : Type}
    (fault : Option BallistaError)
    (value : α) :
    Except BallistaError α :=
  match fault with
  | some error => .error error
  | none => .ok value

@[simp] theorem orFail_none
    {α : Type}
    (value : α) :
    orFail none value = .ok value :=
  rfl

@[simp] theorem orFail_some
    {α : Type}
    (error : BallistaError)
    (value : α) :
    orFail (some error) value = .error error :=
  rfl

@[simp] theorem except_ok_bind
    {α β : Type}
    (value : α)
    (f : α → Except BallistaError β) :
    (Except.ok value >>= f) = f value :=
  rfl

@[simp] theorem except_error_bind
    {α β : Type}
    (error : BallistaError)
    (f : α → Except BallistaError β) :
    (Except.error error >>= f) = Except.error error :=
  rfl

@[simp] theorem except_pure
    {α : Type}
    (value : α) :
    (pure value : Except BallistaError α) = .ok value :=
  rfl

/-
  `put_txn`: all writes land, or the call fails and the keyspace
  is untouched.
-/
def putTxn
    (faults : Faults)
    (slots : SlotsKeyspace)
    (txnOps : List (String × ExecutorData)) :
    Except BallistaError Unit × SlotsKeyspace :=
  match faults.putTxn with
  | some error => (.error error, slots)
  | none => (.ok (), applyTxn slots txnOps)

/- A failed transaction writes nothing. -/
theorem putTxn_error
    (faults : Faults)
    (slots : SlotsKeyspace)
    (txnOps : List (String × ExecutorData))
    (error : BallistaError)
    (hError : (putTxn faults slots txnOps).1 = .error error) :
    (putTxn faults slots txnOps).2 = slots := by
  unfold putTxn at hError ⊢
  cases hFault : faults.putTxn <;> simp_all

/- A successful transaction is exactly its writes. -/
theorem putTxn_ok
    (faults : Faults)
    (slots slots' : SlotsKeyspace)
    (txnOps : List (String × ExecutorData))
    (hOk : putTxn faults slots txnOps = (.ok (), slots')) :
    slots' = applyTxn slots txnOps := by
  unfold putTxn at hOk
  cases hFault : faults.putTxn <;> simp_all

end Ballista
