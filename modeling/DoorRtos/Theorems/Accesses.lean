import DoorRtos.Accesses
import DoorRtos.Runs
import DoorRtos.Theorems.Boot

/-! Which operations access a queue of queues beyond its last subqueue. The two loops that raise `highest_prio` test the
    subqueue before they test the index, and so read one past the last subqueue when all are empty from there on. -/

namespace DoorRtos
open Linked

section
variable {w : QueueId} {k k' : Kernel} {past : Bool} {subqueues : Level → PCBQueue} {n h : Nat} {op : QueueOp}

/-- The loop with its reads is the loop. -/
theorem raiseHighestPrioTraced_snd (past : Bool) (subqueues : Level → PCBQueue) (n h : Nat) :
    (raiseHighestPrioTraced past subqueues n h).2 = raiseHighestPrio past subqueues n h := by
  induction n generalizing h with
  | zero => rfl
  | succ n ih =>
    unfold raiseHighestPrioTraced raiseHighestPrio
    split
    · exact ih (h + 1)
    · rfl

theorem raiseHighestPrio_le (hle : h ≤ numPrio + 1) : raiseHighestPrio past subqueues n h ≤ numPrio + 1 := by
  induction n generalizing h with
  | zero => exact hle
  | succ n ih =>
    unfold raiseHighestPrio
    split
    next htest => exact ih (of_decide_eq_true (Bool.and_eq_true_iff.mp htest).2)
    next => exact hle

theorem isEmptyAt_of_lt (past : Bool) (hlt : h < numPrio + 1) :
    isEmptyAt past subqueues h = true ↔ (subqueues ⟨h, hlt⟩).head = none := by
  unfold isEmptyAt
  rw [dif_pos hlt]
  exact Option.isNone_iff_eq_none

/-- The loop reads no index beyond the last subqueue exactly when it meets one that is not empty. -/
theorem raiseHighestPrioTraced_bounded (hle : h ≤ numPrio + 1) (hn : numPrio + 1 < n + h) :
    (∀ i ∈ (raiseHighestPrioTraced past subqueues n h).1, i ≤ numPrio) ↔
      ∃ j : Level, h ≤ j.val ∧ (subqueues j).head ≠ none := by
  induction n generalizing h with
  | zero => omega
  | succ n ih =>
    unfold raiseHighestPrioTraced
    by_cases hlt : h < numPrio + 1
    · by_cases hempty : (subqueues ⟨h, hlt⟩).head = none
      · rw [(isEmptyAt_of_lt past hlt).mpr hempty, decide_eq_true hlt]
        have hnext : (∃ j : Level, h + 1 ≤ j.val ∧ (subqueues j).head ≠ none) ↔
            ∃ j : Level, h ≤ j.val ∧ (subqueues j).head ≠ none := by
          refine ⟨fun ⟨j, hj, hne⟩ => ⟨j, Nat.le_of_succ_le hj, hne⟩, fun ⟨j, hj, hne⟩ => ⟨j, ?_, hne⟩⟩
          refine Nat.lt_of_le_of_ne hj fun heq => hne ?_
          rwa [show j = ⟨h, hlt⟩ from Fin.ext heq.symm]
        rw [← hnext, ← ih hlt (by omega)]
        refine ⟨fun hall i hi => hall i (List.mem_cons_of_mem h hi), fun hall i hi => ?_⟩
        rcases List.mem_cons.mp hi with rfl | hi
        · exact Nat.le_of_lt_succ hlt
        · exact hall i hi
      · have hstop : isEmptyAt past subqueues h = false :=
          Bool.eq_false_iff.mpr fun he => hempty ((isEmptyAt_of_lt past hlt).mp he)
        rw [hstop]
        refine iff_of_true (fun i hi => ?_) ⟨⟨h, hlt⟩, Nat.le_refl h, hempty⟩
        rw [List.mem_singleton.mp hi]
        exact Nat.le_of_lt_succ hlt
    · rw [decide_eq_false hlt, Bool.and_false]
      refine iff_of_false (fun hall => hlt (Nat.lt_succ_of_le (hall h List.mem_cons_self))) ?_
      rintro ⟨j, hj, -⟩
      exact hlt (Nat.lt_of_le_of_lt hj j.isLt)

/-- What removal at the tail leaves of a queue: nothing of one with at most one PCB. -/
theorem dequeuePCBFIFO_head {next next' : Links PcbRef} {q q' : PCBQueue} {o : Option PcbRef}
    (hs : dequeuePCBFIFO next q = some (o, next', q')) : q'.head ≠ none ↔ ∃ e, q.head = some e ∧ next e ≠ none := by
  unfold dequeuePCBFIFO Queue.shift at hs
  split at hs
  next hhead =>
    cases hs
    rw [hhead]
    simp
  next e hhead =>
    rw [hhead]
    split at hs
    next hnext =>
      cases hs
      simp [Queue.empty, hnext]
    next hnext =>
      obtain ⟨y, -, hs⟩ := Option.map_eq_some_iff.mp hs
      cases hs
      simp [hhead, hnext]

/-- A walk that does not end is one over more than one PCB. -/
theorem dequeuePCBFIFO_stuck {next : Links PcbRef} {q : PCBQueue} (hs : dequeuePCBFIFO next q = none) :
    ∃ e, q.head = some e ∧ next e ≠ none := by
  unfold dequeuePCBFIFO Queue.shift at hs
  split at hs
  next => cases hs
  next e hhead =>
    split at hs
    next => cases hs
    next hnext => exact ⟨e, hhead, hnext⟩

theorem unlinkElement_bounded {i : Level} {previous : Option PcbRef} {current : PcbRef}
    (hbound : (k.queue w).highestPrio ≤ numPrio + 1) (hs : unlinkElement w i previous current k = some k') :
    (k'.queue w).highestPrio ≤ numPrio + 1 := by
  unfold unlinkElement at hs
  dsimp only at hs
  split at hs
  · cases hs
    rw [Kernel.setQueue_queue_self]
    exact raiseHighestPrio_le hbound
  · split at hs
    · cases hs
      rwa [Kernel.setQueue_queue_self]
    · split at hs
      · cases hs
        rwa [Kernel.setQueue_queue_self]
      · obtain ⟨p, -, rfl⟩ := Option.map_eq_some_iff.mp hs
        rwa [Kernel.setQueue_queue_self]

namespace QueueOp

theorem dequeue_inBounds_iff (hbound : (k.queue w).highestPrio ≤ numPrio + 1) :
    dequeue.InBounds w k ↔ dequeue.Leaves w k := by
  unfold InBounds accesses Leaves
  dsimp only
  by_cases hlt : (k.queue w).highestPrio < numPrio + 1
  · rw [dif_pos hlt]
    have hat : ∀ i : Level, (k.queue w).highestPrio = i.val → i = ⟨_, hlt⟩ := fun i hi => Fin.ext hi.symm
    cases hs : dequeuePCBFIFO k.pcbNext ((k.queue w).subqueues ⟨_, hlt⟩) with
    | none =>
      refine iff_of_true (fun i hi => ?_) fun i hi => Or.inl ?_
      · rw [List.mem_singleton.mp hi]
        exact Nat.le_of_lt_succ hlt
      · rw [hat i hi]
        exact dequeuePCBFIFO_stuck hs
    | some r =>
      obtain ⟨o, next, q⟩ := r
      rw [Option.elim_some, List.forall_mem_cons, and_iff_right (Nat.le_of_lt_succ hlt),
        raiseHighestPrioTraced_bounded hbound (by omega)]
      constructor
      · rintro ⟨j, hj, hne⟩ i hi
        rw [hat i hi, ← dequeuePCBFIFO_head hs]
        by_cases hji : j = ⟨_, hlt⟩
        · rw [hji, Function.update_self] at hne
          exact Or.inl hne
        · rw [Function.update_of_ne hji] at hne
          exact Or.inr ⟨j, Fin.lt_def.mpr (Nat.lt_of_le_of_ne hj fun heq => hji (hat j heq)), hne⟩
      · intro hleaves
        have hfirst := hleaves ⟨_, hlt⟩ rfl
        rw [← dequeuePCBFIFO_head hs] at hfirst
        rcases hfirst with hne | ⟨j, hj, hne⟩
        · refine ⟨⟨_, hlt⟩, Nat.le_refl _, ?_⟩
          rwa [Function.update_self]
        · refine ⟨j, Nat.le_of_lt (Fin.lt_def.mp hj), ?_⟩
          rwa [Function.update_of_ne (Fin.ne_of_gt hj)]
  · rw [dif_neg hlt]
    refine iff_of_true (fun i hi => absurd hi List.not_mem_nil) fun i hi => absurd (hi ▸ i.isLt) hlt

theorem remove_inBounds_iff {pcb : PcbRef} (hbound : (k.queue w).highestPrio ≤ numPrio + 1) :
    (remove pcb).InBounds w k ↔ (remove pcb).Leaves w k := by
  unfold InBounds accesses Leaves
  dsimp only
  rw [List.forall_mem_cons]
  by_cases hlt : (k.pcbs pcb).priority < numPrio + 1
  · rw [dif_pos hlt, and_iff_right (Nat.le_of_lt_succ hlt)]
    have hat : ∀ i : Level, (k.pcbs pcb).priority = i.val → i = ⟨_, hlt⟩ := fun i hi => Fin.ext hi.symm
    by_cases hsole : ((k.queue w).subqueues ⟨_, hlt⟩).head = some pcb ∧ ((k.queue w).subqueues ⟨_, hlt⟩).tail = some pcb
    · rw [hsole.1, hsole.2, seekElement_head, Option.elim_some, if_pos ⟨Option.some_ne_none pcb, rfl, rfl⟩,
        raiseHighestPrioTraced_bounded hbound (by omega)]
      constructor
      · rintro ⟨j, hj, hne⟩
        refine ⟨⟨_, hlt⟩, rfl, fun _ _ => ⟨j, hj, ?_⟩⟩
        by_cases hji : j = ⟨_, hlt⟩
        · rw [hji, Function.update_self] at hne
          exact absurd rfl hne
        · rw [Function.update_of_ne hji] at hne
          exact ⟨hji, hne⟩
      · rintro ⟨i, hi, hleaves⟩
        obtain rfl := hat i hi
        obtain ⟨j, hj, hji, hne⟩ := hleaves hsole.1 hsole.2
        refine ⟨j, hj, ?_⟩
        rwa [Function.update_of_ne hji]
    · refine iff_of_true (fun i hi => ?_) ⟨⟨_, hlt⟩, rfl, fun hhead htail => absurd ⟨hhead, htail⟩ hsole⟩
      cases hs : seekElement k.pcbNext pcb (maxProcesses + 1) none ((k.queue w).subqueues ⟨_, hlt⟩).head with
      | none =>
        rw [hs] at hi
        exact absurd hi List.not_mem_nil
      | some r =>
        rw [hs, Option.elim_some] at hi
        split at hi
        next hfound =>
          obtain ⟨c, hc⟩ := Option.ne_none_iff_exists'.mp hfound.1
          rw [hc, seekElement_found (r := r) hs hc] at hfound
          exact absurd hfound.2 hsole
        next => exact absurd hi List.not_mem_nil
  · refine iff_of_false (fun hand => hlt (Nat.lt_succ_of_le hand.1)) ?_
    rintro ⟨i, hi, -⟩
    exact hlt (hi ▸ i.isLt)

theorem inBounds_iff (hbound : (k.queue w).highestPrio ≤ numPrio + 1) : op.InBounds w k ↔ op.Leaves w k := by
  cases op with
  | enqueue pcb => simp [InBounds, accesses, Leaves]
  | dequeue => exact dequeue_inBounds_iff hbound
  | remove pcb => exact remove_inBounds_iff hbound
  | isEmpty =>
    unfold InBounds accesses Leaves
    dsimp only
    refine iff_of_true (fun i hi => ?_) trivial
    split at hi
    · exact absurd hi List.not_mem_nil
    next hle =>
      rw [List.mem_singleton.mp hi]
      exact Nat.le_of_not_lt hle

theorem after_bounded (hbound : (k.queue w).highestPrio ≤ numPrio + 1) (hs : op.after w k = some k') :
    (k'.queue w).highestPrio ≤ numPrio + 1 := by
  cases op with
  | enqueue pcb =>
    obtain ⟨i, -, rfl⟩ := enqueuePCBByPriority_pushed hs
    rw [Kernel.setQueue_queue_self]
    dsimp only
    split
    · exact Nat.le_of_lt i.isLt
    · exact hbound
  | dequeue =>
    obtain ⟨r, hdeq, rfl⟩ := Option.map_eq_some_iff.mp hs
    unfold dequeuePCBFIFOByPriority at hdeq
    dsimp only at hdeq
    split at hdeq
    · obtain ⟨r', -, hdeq⟩ := Option.bind_eq_some_iff.mp hdeq
      cases hdeq
      rw [Kernel.setQueue_queue_self]
      exact raiseHighestPrio_le hbound
    · cases hdeq
      exact hbound
  | remove pcb =>
    obtain ⟨r, hrem, rfl⟩ := Option.map_eq_some_iff.mp hs
    unfold removeElementByPriority at hrem
    split at hrem
    · unfold removeElement at hrem
      split at hrem
      · cases hrem
      · cases hrem
        exact hbound
      · obtain ⟨k₁, hunlink, rfl⟩ := Option.map_eq_some_iff.mp hrem
        exact unlinkElement_bounded hbound hunlink
    · cases hrem
  | isEmpty =>
    cases hs
    exact hbound

end QueueOp
end

/-- Every access of a sequence of operations is to a subqueue exactly when each of them, in its turn, leaves a PCB in a
    subqueue from `highest_prio` on if it empties one. -/
theorem subqueue_accesses_iff (w : QueueId) (k : Kernel) (ops : List QueueOp)
    (hbound : (k.queue w).highestPrio ≤ numPrio + 1) :
    Runs.Meets (QueueOp.after w) (QueueOp.InBounds w) k ops ↔ Runs.Meets (QueueOp.after w) (QueueOp.Leaves w) k ops :=
  Runs.meets_congr (I := fun k => (k.queue w).highestPrio ≤ numPrio + 1) (fun _ _ h => QueueOp.inBounds_iff h)
    (fun _ _ _ h hs => QueueOp.after_bounded h hs) hbound

/-- The first process is taken out of the ready queue. -/
theorem subqueue_accesses_at_boot :
    ∃ k, boot rtosMap = .switched k ∧
      Runs.Meets (QueueOp.after .ready) (QueueOp.InBounds .ready) k [.dequeue, .isEmpty] := by
  have hrun : ((boot rtosMap).kernel?.any fun k =>
      decide ((k.queue .ready).highestPrio ≤ numPrio + 1 ∧ QueueOp.dequeue.Leaves .ready k)) = true := by decide +kernel
  obtain ⟨k, hboot, -⟩ := boot_spec rtosMap
  rw [hboot, Outcome.kernel?_switched, Option.any_some] at hrun
  obtain ⟨hbound, hleaves⟩ := of_decide_eq_true hrun
  exact ⟨k, hboot, (subqueue_accesses_iff .ready k _ hbound).mpr ⟨hleaves, fun _ _ => ⟨trivial, fun _ _ => trivial⟩⟩⟩

/-- One process waits for memory, and is taken out of the queue: the loop reads the subqueue at index `NUM_PRIO + 1`. -/
theorem dequeue_past_subqueues :
    ∃ k L, boot rtosMap = .switched k ∧ Rep k L ∧
      ¬Runs.Meets (QueueOp.after .memoryWait) (QueueOp.InBounds .memoryWait) k [.enqueue wcPid, .dequeue] := by
  have hrun : ((boot rtosMap).kernel?.any fun k => ((QueueOp.enqueue wcPid).after .memoryWait k).any fun k' =>
      decide (QueueOp.dequeue.accesses .memoryWait k' = [0, 0, 1, 2, 3, 4, 5, 6])) = true := by decide +kernel
  obtain ⟨k, hboot, h⟩ := boot_spec rtosMap
  rw [hboot, Outcome.kernel?_switched, Option.any_some] at hrun
  obtain ⟨k', hs, hend⟩ := Option.any_eq_true _ _ |>.mp hrun
  refine ⟨k, bootContents, hboot, h.started.rep, fun hmeets => ?_⟩
  have hall := (hmeets.2 k' hs).1
  unfold QueueOp.InBounds at hall
  rw [of_decide_eq_true hend] at hall
  exact absurd (hall 6 (by decide)) (by decide)

end DoorRtos
