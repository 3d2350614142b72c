import DoorRtos.Boot
import DoorRtos.Theorems.MetaQueue
import DoorRtos.Stable
import DoorRtos.Refinement

/-! The ready queue and the memory queue are two stable priority queues over PCBs that share one `next`
    field. -/

namespace DoorRtos
namespace PriorityQueues
open Linked

/-- An operation on one of the two queues. `past` is what the read one past the last subqueue meets. -/
inductive Op where
  | enqueue (w : QueueId) (pcb : PcbRef)
  | dequeue (w : QueueId) (past : Bool)
  | isEmpty (w : QueueId)

inductive Answer where
  | done
  | pcb (p : Option PcbRef)
  | empty (b : Bool)

/-- The operations of `queue.c`. -/
def step (k : Kernel) : Op → Option (Answer × Kernel)
  | .enqueue w p => (enqueuePCBByPriority w p k).map fun k => (.done, k)
  | .dequeue w past =>
    (dequeuePCBFIFOByPriority w { k with pastSubqueues := past }).map fun r => (.pcb r.1, r.2)
  | .isEmpty w => some (.empty (isMETAPCBQueueEmpty w k), k)

/-- Two independent stable priority queues, each the list of its PCBs in order of arrival. -/
abbrev Arrivals := QueueId → List PcbRef

def spec (prio : PcbRef → Nat) (A : Arrivals) : Op → Answer × Arrivals
  | .enqueue w p => (.done, Function.update A w (A w ++ [p]))
  | .dequeue w _ => (.pcb (Stable.serve prio (A w)).1, Function.update A w (Stable.serve prio (A w)).2)
  | .isEmpty w => (.empty (A w).isEmpty, A)

/-- A PCB is added only while it is in neither queue, with a priority that has a subqueue. -/
def Allowed (prio : PcbRef → Nat) (A : Arrivals) : Op → Prop
  | .enqueue _ p => (∀ w, p ∉ A w) ∧ prio p ≤ numPrio
  | _ => True

/-- The subqueue of a priority holds the PCBs of that priority, the newest first. -/
structure Represents (prio : PcbRef → Nat) (k : Kernel) (A : Arrivals) : Prop where
  rep : ∃ L, Rep k L ∧ ∀ w (i : Level), L (w, i) = (Stable.bucket prio (A w) i.val).reverse
  prios : ∀ p, (k.pcbs p).priority = prio p
  bound : ∀ w, ∀ p ∈ A w, prio p ≤ numPrio

section
variable {prio : PcbRef → Nat} {k : Kernel} {A : Arrivals} {L : Slot → List PcbRef} {w : QueueId} {p : PcbRef}

theorem bucket_of_bound (hb : ∀ p ∈ A w, prio p ≤ numPrio) {n : Nat} (hn : numPrio < n) :
    Stable.bucket prio (A w) n = [] := by
  refine List.eq_nil_iff_forall_not_mem.mpr fun p hp => ?_
  obtain ⟨hmem, rfl⟩ := Stable.mem_bucket.mp hp
  exact absurd (hb p hmem) (by omega)

theorem nil_of_levels (hL : ∀ i : Level, L (w, i) = (Stable.bucket prio (A w) i.val).reverse)
    (hb : ∀ p ∈ A w, prio p ≤ numPrio) (hnil : ∀ i, L (w, i) = []) : A w = [] := by
  refine Stable.eq_nil_of_buckets prio fun n => ?_
  by_cases hn : n < numPrio + 1
  · have := hL ⟨n, hn⟩
    rw [hnil] at this
    exact List.reverse_eq_nil_iff.mp this.symm
  · exact bucket_of_bound hb (by omega)

theorem represents_enqueue (h : Represents prio k A) (hp : ∀ w, p ∉ A w) (hle : prio p ≤ numPrio) :
    ∃ k', enqueuePCBByPriority w p k = some k' ∧ Represents prio k' (Function.update A w (A w ++ [p])) := by
  obtain ⟨⟨L, hrep, hL⟩, hprio, hb⟩ := h
  have hun : Unlinked L p := fun ⟨w', i⟩ hmem => by
    rw [hL w' i, List.mem_reverse] at hmem
    exact hp w' (Stable.mem_bucket.mp hmem).1
  have hi : (k.pcbs p).priority = (⟨prio p, by omega⟩ : Level).val := hprio p
  obtain ⟨next, c, hs, hrep'⟩ := enqueuePCBByPriority_spec (w := w) hrep hun hi
  refine ⟨_, hs, ⟨_, hrep', fun w' j => ?_⟩, fun p' => by rw [Kernel.setQueue_pcbs]; exact hprio p', fun w' => ?_⟩
  · unfold insertAt
    by_cases hw : w' = w
    · subst hw
      rw [Function.update_self]
      by_cases hj : j.val = prio p
      · have hj' : j = ⟨prio p, by omega⟩ := Fin.ext hj
        rw [hj', Function.update_self, hL, Stable.bucket_concat_self, List.reverse_append]
        rfl
      · have hne : ((w', j) : Slot) ≠ (w', ⟨prio p, by omega⟩) := fun e => hj (congrArg (·.2.val) e)
        rw [Function.update_of_ne hne, hL, Stable.bucket_concat_of_ne fun e => hj e.symm]
    · rw [Function.update_of_ne hw, Function.update_of_ne fun e => hw (congrArg Prod.fst e), hL]
  · by_cases hw : w' = w
    · subst hw
      rw [Function.update_self]
      intro q hq
      rcases List.mem_append.mp hq with hq | hq
      · exact hb w' q hq
      · rw [List.mem_singleton.mp hq]
        exact hle
    · rw [Function.update_of_ne hw]
      exact hb w'

theorem represents_dequeue (h : Represents prio k A) :
    ∃ k', dequeuePCBFIFOByPriority w k = some ((Stable.serve prio (A w)).1, k') ∧
      Represents prio k' (Function.update A w (Stable.serve prio (A w)).2) := by
  obtain ⟨⟨L, hrep, hL⟩, hprio, hb⟩ := h
  rcases exists_first L w with hnil | ⟨i, l, p, hl, hlow⟩
  · have hA : A w = [] := nil_of_levels (hL w) (hb w) hnil
    refine ⟨k, by rw [dequeuePCBFIFOByPriority_empty hrep hnil, hA]; rfl, ?_⟩
    rw [hA, Stable.serve_nil, ← hA, Function.update_eq_self]
    exact ⟨⟨L, hrep, hL⟩, hprio, hb⟩
  · have hbucket : Stable.bucket prio (A w) i.val = p :: l.reverse := by
      have := congrArg List.reverse ((hL w i).symm.trans hl)
      rw [List.reverse_reverse, List.reverse_append] at this
      exact this
    have hserve := Stable.serve_eq hbucket fun n hn => by
      have hlow' := hlow ⟨n, Nat.lt_trans hn i.isLt⟩ hn
      rw [hL] at hlow'
      exact List.reverse_eq_nil_iff.mp hlow'
    have hpi : prio p = i.val := (Stable.mem_bucket.mp (hbucket ▸ List.mem_cons_self)).2
    obtain ⟨next, c, hs, hrep'⟩ := dequeuePCBFIFOByPriority_spec hrep hl hlow
    rw [hserve]
    refine ⟨_, hs, ⟨_, hrep', fun w' j => ?_⟩, fun p' => by rw [Kernel.setQueue_pcbs]; exact hprio p', fun w' => ?_⟩
    · by_cases hw : w' = w
      · subst hw
        rw [Function.update_self]
        by_cases hj : j = i
        · subst hj
          rw [Function.update_self, Stable.bucket_erase, hbucket, List.erase_cons_head, List.reverse_reverse]
        · rw [Function.update_of_ne fun e => hj (congrArg Prod.snd e), hL,
            Stable.bucket_erase_of_ne fun e => hj (Fin.ext (e.symm.trans hpi))]
      · rw [Function.update_of_ne hw, Function.update_of_ne fun e => hw (congrArg Prod.fst e), hL]
    · by_cases hw : w' = w
      · subst hw
        rw [Function.update_self]
        exact fun q hq => hb w' q (List.mem_of_mem_erase hq)
      · rw [Function.update_of_ne hw]
        exact hb w'

theorem represents_isEmpty (h : Represents prio k A) : isMETAPCBQueueEmpty w k = (A w).isEmpty := by
  obtain ⟨⟨L, hrep, hL⟩, -, hb⟩ := h
  rw [Bool.eq_iff_iff, isMETAPCBQueueEmpty_iff hrep, List.isEmpty_iff]
  refine ⟨nil_of_levels (hL w) (hb w), fun hA i => ?_⟩
  rw [hL, hA]
  rfl

/-- What lies past the last subqueue is no part of what the queues hold. -/
theorem Represents.past (h : Represents prio k A) (past : Bool) :
    Represents prio { k with pastSubqueues := past } A := by
  obtain ⟨⟨L, hrep, hL⟩, hprio, hb⟩ := h
  exact ⟨⟨L, hrep.congr rfl rfl, hL⟩, hprio, hb⟩

/-- Every allowed operation answers as the two stable priority queues do, and keeps the representation. -/
theorem step_refines (o : Op) (h : Represents prio k A) (ha : Allowed prio A o) :
    ∃ k', step k o = some ((spec prio A o).1, k') ∧ Represents prio k' (spec prio A o).2 := by
  cases o with
  | enqueue w p =>
    obtain ⟨k', hs, hrep⟩ := represents_enqueue (w := w) h ha.1 ha.2
    exact ⟨k', by rw [step, hs]; rfl, hrep⟩
  | dequeue w past =>
    obtain ⟨k', hs, hrep⟩ := represents_dequeue (w := w) (h.past past)
    exact ⟨k', by rw [step, hs]; rfl, hrep⟩
  | isEmpty w => exact ⟨k, by rw [step, represents_isEmpty h]; rfl, h⟩

/-- From two initialised queues, every sequence of allowed operations runs to its end and answers as two
    independent stable priority queues do, and the queues end up holding what those hold. -/
theorem runs_as_priority_queues (k : Kernel) (hr : k.readyQueue = initMETAPCBQueue)
    (hm : k.memoryWaitQueue = initMETAPCBQueue)
    (os : List Op) (hall : Refinement.AllAllowed (spec fun p => (k.pcbs p).priority)
      (Allowed fun p => (k.pcbs p).priority) (fun _ => []) os) :
    ∃ k', Refinement.run step k os =
        some ((Refinement.spec (spec fun p => (k.pcbs p).priority) (fun _ => []) os).1, k') ∧
      Represents (fun p => (k.pcbs p).priority) k'
        (Refinement.spec (spec fun p => (k.pcbs p).priority) (fun _ => []) os).2 := by
  have hinit : Represents (fun p => (k.pcbs p).priority) k fun _ => [] :=
    ⟨⟨_, rep_init hr hm, fun _ _ => rfl⟩, fun _ => rfl, fun _ _ hp => absurd hp List.not_mem_nil⟩
  exact Refinement.run_refines (fun _ _ o h ha => step_refines o h ha) hinit hall

/-- A later PCB of higher priority overtakes an earlier one, and a PCB goes from one queue to the other. -/
theorem runs_as_priority_queues_overtaking :
    ∃ k', Refinement.run step
        { initPCB 2 Priority.high (initPCB 1 Priority.medium zeroed) with
          readyQueue := initMETAPCBQueue, memoryWaitQueue := initMETAPCBQueue }
        [.enqueue .ready 1, .enqueue .ready 2, .dequeue .ready false, .enqueue .memoryWait 2, .dequeue .ready false,
          .dequeue .ready true, .isEmpty .memoryWait] =
      some ([.done, .done, .pcb (some 2), .done, .pcb (some 1), .pcb none, .empty false], k') := by
  obtain ⟨k', hrun, -⟩ := runs_as_priority_queues
    { initPCB 2 Priority.high (initPCB 1 Priority.medium zeroed) with
      readyQueue := initMETAPCBQueue, memoryWaitQueue := initMETAPCBQueue } rfl rfl
    [.enqueue .ready 1, .enqueue .ready 2, .dequeue .ready false, .enqueue .memoryWait 2, .dequeue .ready false,
      .dequeue .ready true, .isEmpty .memoryWait]
    ⟨⟨fun w => by cases w <;> decide, by decide⟩, ⟨fun w => by cases w <;> decide, by decide⟩, trivial,
      ⟨fun w => by cases w <;> decide, by decide⟩, trivial, trivial, trivial, trivial⟩
  exact ⟨k', hrun⟩

end
end PriorityQueues
end DoorRtos
