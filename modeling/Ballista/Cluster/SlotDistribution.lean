import Ballista.Core.Types

/-
  The two slot-distribution policies of `cluster/mod.rs`. Each
  consumes an iterator of mutable `AvailableTaskSlots` entries;
  the model takes the entries as a list and returns the
  reservations together with the entries as the loop leaves them
  (entries the loop never reaches come back untouched).

  Main declarations:
    * `reserveSlotsBias`, `reserveSlotsRoundRobin`
    * `reserveSlotsBias_drains_leading_entries`
    * `reserveSlotsRoundRobin_eq_firstFree`
    * `slotsOf`, `reserveSlots_policies_conserve_each_executor`
-/

------------------------------------------------------------
-- The Policies
------------------------------------------------------------

namespace Ballista

namespace Cluster

/-
  `reserve_slots_bias`: take every free slot of an entry before
  moving to the next, until `n` slots are reserved or the
  entries run out.
-/
def reserveSlotsBias :
    List AvailableTaskSlots → Nat →
      List ExecutorReservation × List AvailableTaskSlots
| slots, 0 => ([], slots)
| [], _ + 1 => ([], [])
| executor :: slots, n + 1 =>
    let take := min executor.slots (n + 1)
    let rest := reserveSlotsBias slots (n + 1 - take)
    (List.replicate take
        (ExecutorReservation.newFree executor.executorId) ++ rest.1,
      { executor with slots := executor.slots - take } :: rest.2)

/-
  `reserve_slots_round_robin`: one pass over the entries, taking
  one slot from every entry that has one, until `n` slots are
  reserved or the entries run out.
-/
def reserveSlotsRoundRobin :
    List AvailableTaskSlots → Nat →
      List ExecutorReservation × List AvailableTaskSlots
| slots, 0 => ([], slots)
| [], _ + 1 => ([], [])
| executor :: slots, n + 1 =>
    if executor.slots > 0 then
      let rest := reserveSlotsRoundRobin slots n
      (ExecutorReservation.newFree executor.executorId :: rest.1,
        { executor with slots := executor.slots - 1 } :: rest.2)
    else
      let rest := reserveSlotsRoundRobin slots (n + 1)
      (rest.1, executor :: rest.2)

/- Free slots summed over a slot vector. -/
def totalSlots
    (slots : List AvailableTaskSlots) : Nat :=
  (slots.map (·.slots)).sum

/-
  The reservations that take every free slot of each entry,
  listed in iteration order.
-/
def drainReservations
    (slots : List AvailableTaskSlots) :
    List ExecutorReservation :=
  slots.flatMap (fun executor =>
    List.replicate executor.slots
      (ExecutorReservation.newFree executor.executorId))

@[simp] theorem totalSlots_nil :
    totalSlots [] = 0 :=
  rfl

@[simp] theorem totalSlots_cons
    (executor : AvailableTaskSlots)
    (slots : List AvailableTaskSlots) :
    totalSlots (executor :: slots) =
      executor.slots + totalSlots slots := by
  simp [totalSlots]

@[simp] theorem drainReservations_nil :
    drainReservations [] = [] :=
  rfl

@[simp] theorem drainReservations_cons
    (executor : AvailableTaskSlots)
    (slots : List AvailableTaskSlots) :
    drainReservations (executor :: slots) =
      List.replicate executor.slots
          (ExecutorReservation.newFree executor.executorId) ++
        drainReservations slots := by
  simp [drainReservations]

end Cluster

end Ballista

------------------------------------------------------------
-- Bias: A Drained Prefix
------------------------------------------------------------

namespace Ballista

namespace Cluster

/- Bias reserves as many slots as asked for, or all there are. -/
theorem reserveSlotsBias_length
    (slots : List AvailableTaskSlots)
    (n : Nat) :
    (reserveSlotsBias slots n).1.length =
      min n (totalSlots slots) := by
  induction slots, n using reserveSlotsBias.induct with
  | case1 slots => simp [reserveSlotsBias]
  | case2 n => simp [reserveSlotsBias]
  | case3 executor slots n take ih =>
      simp only [take] at ih
      simp only [reserveSlotsBias, List.length_append,
        List.length_replicate, ih, totalSlots_cons]
      omega

/- The free slots left over are the old ones less those taken. -/
theorem reserveSlotsBias_totalSlots
    (slots : List AvailableTaskSlots)
    (n : Nat) :
    totalSlots (reserveSlotsBias slots n).2 +
        min n (totalSlots slots) =
      totalSlots slots := by
  induction slots, n using reserveSlotsBias.induct with
  | case1 slots => simp [reserveSlotsBias]
  | case2 n => simp [reserveSlotsBias]
  | case3 executor slots n take ih =>
      simp only [take] at ih
      simp only [reserveSlotsBias, totalSlots_cons]
      omega

/-
  Bias leaves a drained prefix, one partly taken entry `m`, and
  an untouched suffix; it reserves the prefix's slots in order
  and then `r` slots of entry `m`.
-/
theorem reserveSlotsBias_shape
    (slots : List AvailableTaskSlots)
    (n : Nat) :
    ∃ m ≤ slots.length,
      ∃ r ≤ totalSlots ((slots.drop m).take 1),
        totalSlots (slots.take m) + r =
            min n (totalSlots slots) ∧
          (reserveSlotsBias slots n).1 =
            drainReservations (slots.take m) ++
              ((slots.drop m).take 1).flatMap (fun executor =>
                List.replicate r
                  (ExecutorReservation.newFree executor.executorId)) ∧
          (reserveSlotsBias slots n).2 =
            (slots.take m).map (fun executor =>
                { executor with slots := 0 }) ++
              (slots.drop m).modifyHead (fun executor =>
                { executor with slots := executor.slots - r }) := by
  induction slots, n using reserveSlotsBias.induct with
  | case1 slots =>
      refine ⟨0, Nat.zero_le _, 0, Nat.zero_le _, by simp, ?_, ?_⟩
      · cases slots <;> simp [reserveSlotsBias]
      · cases slots <;> simp [reserveSlotsBias]
  | case2 n =>
      exact ⟨0, le_rfl, 0, le_rfl, by simp, by simp [reserveSlotsBias],
        by simp [reserveSlotsBias]⟩
  | case3 executor slots n take ih =>
      by_cases hFits : n + 1 ≤ executor.slots
      · -- the first entry covers the whole request
        have hTake : min executor.slots (n + 1) = n + 1 :=
          min_eq_right hFits
        refine ⟨0, Nat.zero_le _, n + 1, by simpa using hFits,
          by simp; omega, ?_, ?_⟩
        · simp [reserveSlotsBias, hTake]
        · simp [reserveSlotsBias, hTake]
      · -- the first entry is drained and the rest is served recursively
        have hTake : min executor.slots (n + 1) = executor.slots := by
          omega
        simp only [take, hTake] at ih
        obtain ⟨m, hm, r, hr, hSum, hRes, hSlots⟩ := ih
        refine ⟨m + 1, by simpa using hm, r, by simpa using hr,
          by simp only [List.take_succ_cons, totalSlots_cons]; omega,
          ?_, ?_⟩
        · simp [reserveSlotsBias, hTake, hRes]
        · simp [reserveSlotsBias, hTake, hSlots]

/-
  `reserve_slots_bias` reserves `k = min n (total)` free slots in
  iteration order, draining a prefix of the entries, taking the
  remainder from the next entry and leaving the rest untouched;
  the free slots drop by exactly `k`.
-/
theorem reserveSlotsBias_drains_leading_entries
    (slots : List AvailableTaskSlots)
    (n : Nat) :
    (reserveSlotsBias slots n).1.length = min n (totalSlots slots) ∧
      totalSlots (reserveSlotsBias slots n).2 +
          min n (totalSlots slots) =
        totalSlots slots ∧
      ∃ m ≤ slots.length,
        ∃ r ≤ totalSlots ((slots.drop m).take 1),
          totalSlots (slots.take m) + r =
              min n (totalSlots slots) ∧
            (reserveSlotsBias slots n).1 =
              drainReservations (slots.take m) ++
                ((slots.drop m).take 1).flatMap (fun executor =>
                  List.replicate r
                    (ExecutorReservation.newFree executor.executorId)) ∧
            (reserveSlotsBias slots n).2 =
              (slots.take m).map (fun executor =>
                  { executor with slots := 0 }) ++
                (slots.drop m).modifyHead (fun executor =>
                  { executor with slots := executor.slots - r }) :=
  ⟨reserveSlotsBias_length slots n,
    reserveSlotsBias_totalSlots slots n,
    reserveSlotsBias_shape slots n⟩

end Cluster

end Ballista

------------------------------------------------------------
-- Round Robin: A Single Pass
------------------------------------------------------------

namespace Ballista

namespace Cluster

/-
  Round robin reserves one slot on each of the first `n` entries
  that have a free slot.
-/
theorem reserveSlotsRoundRobin_reservations
    (slots : List AvailableTaskSlots)
    (n : Nat) :
    (reserveSlotsRoundRobin slots n).1 =
      ((slots.filter (fun executor => 0 < executor.slots)).take n).map
        (fun executor => ExecutorReservation.newFree executor.executorId) := by
  induction slots, n using reserveSlotsRoundRobin.induct with
  | case1 slots => simp [reserveSlotsRoundRobin]
  | case2 n => simp [reserveSlotsRoundRobin]
  | case3 executor slots n hFree ih =>
      simp [reserveSlotsRoundRobin, hFree, ih, List.filter_cons]
  | case4 executor slots n hEmpty ih =>
      simp [reserveSlotsRoundRobin, hEmpty, ih, List.filter_cons]

/-
  Round robin visits a prefix of the entries whose free ones are
  the first `n` free entries, takes one slot from each free entry
  it visits, and leaves the entries past the prefix untouched.
-/
theorem reserveSlotsRoundRobin_entries
    (slots : List AvailableTaskSlots)
    (n : Nat) :
    ∃ m ≤ slots.length,
      (slots.take m).filter (fun executor => 0 < executor.slots) =
          (slots.filter (fun executor => 0 < executor.slots)).take n ∧
        (reserveSlotsRoundRobin slots n).2 =
          (slots.take m).map (fun executor =>
              if 0 < executor.slots then
                { executor with slots := executor.slots - 1 }
              else executor) ++
            slots.drop m := by
  induction slots, n using reserveSlotsRoundRobin.induct with
  | case1 slots =>
      exact ⟨0, Nat.zero_le _, by simp, by cases slots <;> simp [reserveSlotsRoundRobin]⟩
  | case2 n =>
      exact ⟨0, le_rfl, by simp, by simp [reserveSlotsRoundRobin]⟩
  | case3 executor slots n hFree ih =>
      obtain ⟨m, hm, hVisited, hLeft⟩ := ih
      refine ⟨m + 1, by simpa using hm, ?_, ?_⟩
      · simp [List.filter_cons, hFree, hVisited]
      · simp [reserveSlotsRoundRobin, hFree, hLeft]
  | case4 executor slots n hEmpty ih =>
      obtain ⟨m, hm, hVisited, hLeft⟩ := ih
      refine ⟨m + 1, by simpa using hm, ?_, ?_⟩
      · simp [List.filter_cons, hEmpty, hVisited]
      · simp [reserveSlotsRoundRobin, hEmpty, hLeft]

/-
  `reserve_slots_round_robin` makes one pass: it reserves one slot
  on each of the first `n` entries that have a free slot, takes
  exactly that slot from each of them, and leaves every other
  entry as it was; it never comes back to an entry.
-/
theorem reserveSlotsRoundRobin_eq_firstFree
    (slots : List AvailableTaskSlots)
    (n : Nat) :
    (reserveSlotsRoundRobin slots n).1 =
        ((slots.filter (fun executor => 0 < executor.slots)).take n).map
          (fun executor => ExecutorReservation.newFree executor.executorId) ∧
      ∃ m ≤ slots.length,
        (slots.take m).filter (fun executor => 0 < executor.slots) =
            (slots.filter (fun executor => 0 < executor.slots)).take n ∧
          (reserveSlotsRoundRobin slots n).2 =
            (slots.take m).map (fun executor =>
                if 0 < executor.slots then
                  { executor with slots := executor.slots - 1 }
                else executor) ++
              slots.drop m :=
  ⟨reserveSlotsRoundRobin_reservations slots n,
    reserveSlotsRoundRobin_entries slots n⟩

/-
  On one executor with two free slots a request for two gets one
  reservation, where the total on offer would cover both.
-/
theorem reserveSlotsRoundRobin_two_slots_one_reservation :
    (reserveSlotsRoundRobin [⟨"executor-1", 2⟩] 2).1.length = 1 ∧
      min 2 (totalSlots [⟨"executor-1", 2⟩]) = 2 := by
  decide

end Cluster

end Ballista

------------------------------------------------------------
-- Every Executor's Slots Conserved
------------------------------------------------------------

namespace Ballista

namespace Cluster

/- Free slots of one executor summed over a slot vector. -/
def slotsOf
    (executorId : String)
    (slots : List AvailableTaskSlots) : Nat :=
  ((slots.filter (fun executor => executor.executorId = executorId)).map (·.slots)).sum

@[simp] theorem slotsOf_nil
    (executorId : String) :
    slotsOf executorId [] = 0 :=
  rfl

@[simp] theorem slotsOf_cons
    (executorId : String)
    (executor : AvailableTaskSlots)
    (slots : List AvailableTaskSlots) :
    slotsOf executorId (executor :: slots) =
      (if executor.executorId = executorId then executor.slots else 0) +
        slotsOf executorId slots := by
  by_cases hSame : executor.executorId = executorId <;>
    simp [slotsOf, List.filter_cons, hSame]

/-
  Bias moves each executor's slots from its entries to its
  reservations, one for one, and keeps every entry's executor.
-/
theorem reserveSlotsBias_conserves
    (slots : List AvailableTaskSlots)
    (n : Nat)
    (executorId : String) :
    reservationCount executorId (reserveSlotsBias slots n).1 +
        slotsOf executorId (reserveSlotsBias slots n).2 =
      slotsOf executorId slots ∧
    (reserveSlotsBias slots n).2.map (·.executorId) = slots.map (·.executorId) := by
  induction slots, n using reserveSlotsBias.induct with
  | case1 slots => cases slots <;> simp [reserveSlotsBias]
  | case2 n => simp [reserveSlotsBias]
  | case3 executor slots n take ih =>
      simp only [take] at ih
      have hTake : min executor.slots (n + 1) ≤ executor.slots := min_le_left _ _
      by_cases hSame : executor.executorId = executorId <;>
        simp only [reserveSlotsBias, reservationCount_append,
          reservationCount_replicate_newFree, slotsOf_cons, hSame, if_true, if_false,
          List.map_cons, ih.2, and_true] <;>
        omega

/-
  Round robin moves each executor's slots from its entries to its
  reservations, one for one, and keeps every entry's executor.
-/
theorem reserveSlotsRoundRobin_conserves
    (slots : List AvailableTaskSlots)
    (n : Nat)
    (executorId : String) :
    reservationCount executorId (reserveSlotsRoundRobin slots n).1 +
        slotsOf executorId (reserveSlotsRoundRobin slots n).2 =
      slotsOf executorId slots ∧
    (reserveSlotsRoundRobin slots n).2.map (·.executorId) = slots.map (·.executorId) := by
  induction slots, n using reserveSlotsRoundRobin.induct with
  | case1 slots => cases slots <;> simp [reserveSlotsRoundRobin]
  | case2 n => simp [reserveSlotsRoundRobin]
  | case3 executor slots n hFree ih =>
      by_cases hSame : executor.executorId = executorId <;>
        simp only [reserveSlotsRoundRobin, hFree, if_true, reservationCount_cons,
          ExecutorReservation.newFree_executorId, slotsOf_cons, hSame, if_false,
          List.map_cons, ih.2, and_true] <;>
        omega
  | case4 executor slots n hEmpty ih =>
      simp only [reserveSlotsRoundRobin, hEmpty, if_false, slotsOf_cons, List.map_cons,
        ih.2, and_true]
      omega

/-
  Neither distribution policy creates or loses a slot: for every
  executor, the reservations naming it and the free slots its
  entries are left with add up to the free slots it had, and every
  entry keeps its executor. In particular no `-=` on a `u32` entry
  goes below zero.
-/
theorem reserveSlots_policies_conserve_each_executor
    (slots : List AvailableTaskSlots)
    (n : Nat)
    (executorId : String) :
    (reservationCount executorId (reserveSlotsBias slots n).1 +
        slotsOf executorId (reserveSlotsBias slots n).2 =
      slotsOf executorId slots ∧
    (reserveSlotsBias slots n).2.map (·.executorId) = slots.map (·.executorId)) ∧
    (reservationCount executorId (reserveSlotsRoundRobin slots n).1 +
        slotsOf executorId (reserveSlotsRoundRobin slots n).2 =
      slotsOf executorId slots ∧
    (reserveSlotsRoundRobin slots n).2.map (·.executorId) = slots.map (·.executorId)) :=
  ⟨reserveSlotsBias_conserves slots n executorId,
    reserveSlotsRoundRobin_conserves slots n executorId⟩

end Cluster

end Ballista
