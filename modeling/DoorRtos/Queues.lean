import DoorRtos.Kernel
import DoorRtos.Linked.Search

/-! The queue operations of `queue.c`, `msg_queue.c` and `memory_queue.c`. The three files repeat the same
    insertion and the same two removals for PCBs, envelopes and memory blocks. -/

namespace DoorRtos
open Linked

/-- `searchDequeue` and `searchDequeueMessage`, given what the removals `fifo` at the tail and `lifo` at the head do to the
    queue: the head is left to the first and the tail to the second. The walk from an empty queue follows `NULL`. -/
def searchQueue {ι : Type} [DecidableEq ι] (fifo : Option (Option ι × Links ι × Queue ι)) (lifo : Option ι × Queue ι)
    (n : Nat) (next : Links ι) (q : Queue ι) (e : ι) : Option (Option ι × Links ι × Queue ι) :=
  if q.head = some e then fifo
  else if q.tail = some e then some (lifo.1, next, lifo.2)
  else do
    let temp ← q.head
    let (dequeued, next) ← unlink next e n temp
    return (dequeued, next, q)

/-! ### Queues of PCBs -/

def initPCBQueue : PCBQueue := Queue.empty

def isEmpty (q : PCBQueue) : Bool := q.isEmpty

def enqueuePCB (next : Links PcbRef) (q : PCBQueue) (e : PcbRef) : Links PcbRef × PCBQueue := q.push next e

/-- There are `maxProcesses` PCBs, so a longer walk never ends. -/
def dequeuePCBFIFO (next : Links PcbRef) (q : PCBQueue) : Option (Option PcbRef × Links PcbRef × PCBQueue) :=
  q.shift maxProcesses next

def dequeuePCBLIFO (next : Links PcbRef) (q : PCBQueue) : Option PcbRef × PCBQueue := q.pop next

def searchDequeue (next : Links PcbRef) (q : PCBQueue) (e : PcbRef) :
    Option (Option PcbRef × Links PcbRef × PCBQueue) :=
  searchQueue (dequeuePCBFIFO next q) (dequeuePCBLIFO next q) maxProcesses next q e

/-! ### The two queues of queues -/

def initMETAPCBQueue : METAPCBQueue := ⟨numPrio + 1, fun _ => initPCBQueue⟩

/-- `isEmpty (q->subqueues + i)`; one past the last subqueue it reads whatever lies there. -/
def isEmptyAt (past : Bool) (subqueues : Level → PCBQueue) (i : Nat) : Bool :=
  if h : i < numPrio + 1 then isEmpty (subqueues ⟨i, h⟩) else past

/-- `while (isEmpty (q->subqueues + q->highest_prio) && q->highest_prio < (NUM_PRIO + 1)) q->highest_prio++`.
    It goes round at most once for each subqueue, and tests once more. -/
def raiseHighestPrio (past : Bool) (subqueues : Level → PCBQueue) : Nat → Nat → Nat
  | 0, highestPrio => highestPrio
  | n + 1, highestPrio =>
    if isEmptyAt past subqueues highestPrio && decide (highestPrio < numPrio + 1) then
      raiseHighestPrio past subqueues n (highestPrio + 1)
    else highestPrio

def isMETAPCBQueueEmpty (w : QueueId) (k : Kernel) : Bool :=
  if h : (k.queue w).highestPrio < numPrio + 1 then isEmpty ((k.queue w).subqueues ⟨_, h⟩) else true

def dequeuePCBFIFOByPriority (w : QueueId) (k : Kernel) : Option (Option PcbRef × Kernel) :=
  let q := k.queue w
  if h : q.highestPrio < numPrio + 1 then do
    let (tmpPcb, next, sub) ← dequeuePCBFIFO k.pcbNext (q.subqueues ⟨_, h⟩)
    let subqueues := Function.update q.subqueues ⟨_, h⟩ sub
    let highestPrio := raiseHighestPrio k.pastSubqueues subqueues (numPrio + 2) q.highestPrio
    return (tmpPcb, k.setQueue w next ⟨highestPrio, subqueues⟩)
  else return (none, k)

/-- A priority above `NUM_PRIO` indexes past the subqueues. -/
def enqueuePCBByPriority (w : QueueId) (pcb : PcbRef) (k : Kernel) : Option Kernel :=
  let q := k.queue w
  let priority := (k.pcbs pcb).priority
  if h : priority < numPrio + 1 then
    let (next, sub) := enqueuePCB k.pcbNext (q.subqueues ⟨_, h⟩) pcb
    let highestPrio := if priority < q.highestPrio then priority else q.highestPrio
    some (k.setQueue w next ⟨highestPrio, Function.update q.subqueues ⟨_, h⟩ sub⟩)
  else none

/-- `while (current != pcb && current != NULL)`, with the node before `current`. -/
def seekElement (next : Links PcbRef) (pcb : PcbRef) :
    Nat → Option PcbRef → Option PcbRef → Option (Option PcbRef × Option PcbRef)
  | 0, _, _ => none
  | n + 1, previous, current =>
    match current with
    | none => some (previous, none)
    | some c => if c = pcb then some (previous, some c) else seekElement next pcb n (some c) (next c)

/-- The four ways in which `remove_element` takes out the PCB `current` that its walk has found. The node
    before a removed tail keeps its link to it. -/
def unlinkElement (w : QueueId) (i : Level) (previous : Option PcbRef) (current : PcbRef) (k : Kernel) : Option Kernel :=
  let mq := k.queue w
  let q := mq.subqueues i
  if q.head = some current ∧ q.tail = some current then
    let subqueues := Function.update mq.subqueues i Queue.empty
    let highestPrio := raiseHighestPrio k.pastSubqueues subqueues (numPrio + 2) mq.highestPrio
    some (k.setQueue w k.pcbNext ⟨highestPrio, subqueues⟩)
  else if q.head = some current then
    let subqueues := Function.update mq.subqueues i ⟨k.pcbNext current, q.tail⟩
    some (k.setQueue w k.pcbNext ⟨mq.highestPrio, subqueues⟩)
  else if q.tail = some current then
    let subqueues := Function.update mq.subqueues i ⟨q.head, previous⟩
    some (k.setQueue w k.pcbNext ⟨mq.highestPrio, subqueues⟩)
  else
    previous.map fun previous => k.setQueue w (Function.update k.pcbNext previous (k.pcbNext current)) mq

/-- `remove_element` on the subqueue `i` of queue `w`. -/
def removeElement (w : QueueId) (i : Level) (pcb : PcbRef) (k : Kernel) : Option (Nat × Kernel) :=
  match seekElement k.pcbNext pcb (maxProcesses + 1) none ((k.queue w).subqueues i).head with
  | none => none
  | some (_, none) => some (rtxError, k)
  | some (previous, some current) => (unlinkElement w i previous current k).map fun k => (rtxSuccess, k)

def removeElementByPriority (pcb : PcbRef) (w : QueueId) (k : Kernel) : Option (Nat × Kernel) :=
  if h : (k.pcbs pcb).priority < numPrio + 1 then removeElement w ⟨_, h⟩ pcb k else none

/-! ### Queues of envelopes -/

def initMsgQueue : MessagesQueue := Queue.empty

def isMsgqEmpty (q : MessagesQueue) : Bool := q.isEmpty

def enqueueMessage (next : Links Addr) (q : MessagesQueue) (e : Addr) : Links Addr × MessagesQueue := q.push next e

def dequeueMessageLIFO (next : Links Addr) (q : MessagesQueue) : Option Addr × MessagesQueue := q.pop next

def dequeueMessageFIFO (next : Links Addr) (q : MessagesQueue) : Option (Option Addr × Links Addr × MessagesQueue) :=
  q.shift addressSpace next

def searchDequeueMessage (next : Links Addr) (q : MessagesQueue) (e : Addr) :
    Option (Option Addr × Links Addr × MessagesQueue) :=
  searchQueue (dequeueMessageFIFO next q) (dequeueMessageLIFO next q) addressSpace next q e

/-! ### The free memory queue -/

def initFreeMemoryQueue : FreeMemoryQueue := Queue.empty

def enqueueFreeMemoryQueue (next : Links Addr) (q : FreeMemoryQueue) (e : Addr) : Links Addr × FreeMemoryQueue :=
  q.push next e

def dequeueMemoryBlockFIFO (next : Links Addr) (q : FreeMemoryQueue) :
    Option (Option Addr × Links Addr × FreeMemoryQueue) :=
  q.shift addressSpace next

end DoorRtos
