import DoorRtos.Queues

/-! The indices at which the operations of `queue.c` on a queue of queues access its subqueues. -/

namespace DoorRtos
open Linked

/-- The loop of `raiseHighestPrio`, with the indices that its first condition reads. -/
def raiseHighestPrioTraced (past : Bool) (subqueues : Level → PCBQueue) : Nat → Nat → List Nat × Nat
  | 0, highestPrio => ([], highestPrio)
  | n + 1, highestPrio =>
    if isEmptyAt past subqueues highestPrio && decide (highestPrio < numPrio + 1) then
      let r := raiseHighestPrioTraced past subqueues n (highestPrio + 1)
      (highestPrio :: r.1, r.2)
    else ([highestPrio], highestPrio)

/-- An operation on a queue of queues. -/
inductive QueueOp where
  | enqueue (pcb : PcbRef)
  | dequeue
  | remove (pcb : PcbRef)
  | isEmpty
  deriving DecidableEq, Repr

namespace QueueOp

/-- The indices that the operation accesses in queue `w`, in order. -/
def accesses (w : QueueId) (k : Kernel) : QueueOp → List Nat
  | enqueue pcb => [(k.pcbs pcb).priority]
  | dequeue =>
    let q := k.queue w
    if h : q.highestPrio < numPrio + 1 then
      q.highestPrio :: (dequeuePCBFIFO k.pcbNext (q.subqueues ⟨_, h⟩)).elim [] fun r =>
        (raiseHighestPrioTraced k.pastSubqueues (Function.update q.subqueues ⟨_, h⟩ r.2.2) (numPrio + 2) q.highestPrio).1
    else []
  | remove pcb =>
    let mq := k.queue w
    (k.pcbs pcb).priority ::
      if h : (k.pcbs pcb).priority < numPrio + 1 then
        let q := mq.subqueues ⟨_, h⟩
        (seekElement k.pcbNext pcb (maxProcesses + 1) none q.head).elim [] fun r =>
          if r.2 ≠ none ∧ q.head = r.2 ∧ q.tail = r.2 then
            (raiseHighestPrioTraced k.pastSubqueues (Function.update mq.subqueues ⟨_, h⟩ Queue.empty) (numPrio + 2)
              mq.highestPrio).1
          else []
      else []
  | isEmpty => if (k.queue w).highestPrio > numPrio then [] else [(k.queue w).highestPrio]

/-- The kernel's data after the operation. -/
def after (w : QueueId) (k : Kernel) : QueueOp → Option Kernel
  | enqueue pcb => enqueuePCBByPriority w pcb k
  | dequeue => (dequeuePCBFIFOByPriority w k).map Prod.snd
  | remove pcb => (removeElementByPriority pcb w k).map Prod.snd
  | isEmpty => some k

/-- Every access uses an index of a subqueue. -/
def InBounds (w : QueueId) (k : Kernel) (op : QueueOp) : Prop := ∀ i ∈ op.accesses w k, i ≤ numPrio

instance (w : QueueId) (k : Kernel) (op : QueueOp) : Decidable (op.InBounds w k) :=
  inferInstanceAs (Decidable (∀ i ∈ op.accesses w k, i ≤ numPrio))

/-- The priority of the PCB is the index of a subqueue, and an operation that empties a subqueue leaves another one with a
    PCB in it, at `highest_prio` or above. -/
def Leaves (w : QueueId) (k : Kernel) : QueueOp → Prop
  | enqueue pcb => (k.pcbs pcb).priority ≤ numPrio
  | dequeue =>
    ∀ i : Level, (k.queue w).highestPrio = i.val →
      (∃ e, ((k.queue w).subqueues i).head = some e ∧ k.pcbNext e ≠ none) ∨
        ∃ j : Level, i < j ∧ ((k.queue w).subqueues j).head ≠ none
  | remove pcb =>
    ∃ i : Level, (k.pcbs pcb).priority = i.val ∧
      (((k.queue w).subqueues i).head = some pcb → ((k.queue w).subqueues i).tail = some pcb →
        ∃ j : Level, (k.queue w).highestPrio ≤ j.val ∧ j ≠ i ∧ ((k.queue w).subqueues j).head ≠ none)
  | isEmpty => True

instance (w : QueueId) (k : Kernel) : ∀ op : QueueOp, Decidable (op.Leaves w k)
  | enqueue _ => inferInstanceAs (Decidable (_ ≤ _))
  | dequeue => inferInstanceAs (Decidable (∀ _ : Level, _ → _ ∨ _))
  | remove _ => inferInstanceAs (Decidable (∃ _ : Level, _ ∧ (_ → _ → _)))
  | isEmpty => inferInstanceAs (Decidable True)

end QueueOp
end DoorRtos
