import DoorRtos.Queues

/-! The kernel primitives of `primitives.c`, with `get_pcb` of `task.c` and the trap handler of `swi.c`. -/

namespace DoorRtos
open Linked

/-- The first slot of the process table that carries `pid`. -/
def getPcb (k : Kernel) (pid : Nat) : Option PcbRef :=
  (List.finRange maxProcesses).find? fun i => (k.pcbs i).pid == pid

/-- Resumes `nextPcb`; the caller's code is left for good. -/
def contextSwitch {α : Type} (nextPcb : Option PcbRef) (k : Kernel) : Outcome α :=
  match nextPcb with
  | none => .stuck
  | some p => .switched { k with currentPcb := p }

def processSwitch (k : Kernel) : Outcome Kernel := do
  if k.readyQueue.highestPrio ≤ k.current.priority then
    let (nextPcb, k) ← dequeuePCBFIFOByPriority .ready k
    -- The test for `NULL` only sets `ret_code`; the next statement follows the pointer.
    let next ← nextPcb
    let k := k.setState next .running
    let k := k.setState k.currentPcb .ready
    let k ← enqueuePCBByPriority .ready k.currentPcb k
    let k := { k with inIProcess := false }
    contextSwitch (some next) k
  else return k

def kernelSendMessage (processID : Nat) (envelope : Addr) (k : Kernel) : Outcome (Nat × Kernel) := do
  let sourcePID := k.current.pid
  let k := k.setMess envelope { k.mess envelope with senderPid := sourcePID, destPid := processID }
  match getPcb k processID with
  | none => return (rtxError, k)
  | some destination =>
    let messQueue ← (k.pcbs destination).messQueue
    let (next, q) := enqueueMessage k.messNext (k.mQueues messQueue) envelope
    let k := { k with messNext := next, mQueues := Function.update k.mQueues messQueue q }
    if (k.pcbs destination).state = .messageWait then
      let k := k.setState destination .ready
      let k ← enqueuePCBByPriority .ready destination k
      let source ← getPcb k sourcePID
      if (k.pcbs destination).priority > (k.pcbs source).priority ∧ ¬k.inIProcess then
        let (nextPcb, k) ← dequeuePCBFIFOByPriority .ready k
        contextSwitch nextPcb k
      else return (rtxSuccess, k)
    else return (rtxSuccess, k)

/-- How a primitive that blocks the running process leaves: the next ready process runs. -/
def runNext {α : Type} (k : Kernel) : Outcome α := do
  let (nextPcb, k) ← dequeuePCBFIFOByPriority .ready k
  let next ← nextPcb
  contextSwitch (some next) (k.setState next .running)

def kernelReceiveMessage (k : Kernel) : Outcome (Option Addr × Kernel) := do
  let messQueue ← k.current.messQueue
  if k.inIProcess ∧ isMsgqEmpty (k.mQueues messQueue) then
    return (none, { k with msgReturn := true })
  else if isMsgqEmpty (k.mQueues messQueue) ∧ ¬k.inIProcess then
    let k := { k with msgReturn := false }
    runNext (k.setState k.currentPcb .messageWait)
  else
    let k := { k with msgReturn := true }
    let (e, next, q) ← dequeueMessageFIFO k.messNext (k.mQueues messQueue)
    let k := { k with messNext := next, mQueues := Function.update k.mQueues messQueue q }
    return (e, { k with retCodeRecv := toWord e })

def kernelRequestMemoryBlock (k : Kernel) : Outcome (Option Addr × Kernel) := do
  let (memBlock, next, q) ← dequeueMemoryBlockFIFO k.blockNext k.freeMemQ
  let k := { k with blockNext := next, freeMemQ := q }
  match memBlock with
  | some b => return (some b, k)
  | none =>
    if k.inIProcess then return (none, k)
    else
      let k := k.setState k.currentPcb .memoryWait
      let k ← enqueuePCBByPriority .memoryWait k.currentPcb k
      runNext k

def kernelReleaseMemoryBlock (memoryBlock : Addr) (k : Kernel) : Outcome (Nat × Kernel) := do
  let (next, q) := enqueueFreeMemoryQueue k.blockNext k.freeMemQ memoryBlock
  let k := { k with blockNext := next, freeMemQ := q }
  if isMETAPCBQueueEmpty .memoryWait k then return (rtxSuccess, k)
  else
    let (waiting, k) ← dequeuePCBFIFOByPriority .memoryWait k
    let waiting ← waiting
    let k := k.setState waiting .ready
    let k ← enqueuePCBByPriority .ready waiting k
    if (k.pcbs waiting).priority < k.current.priority then
      let k ← processSwitch k
      return (rtxSuccess, k)
    else return (rtxSuccess, k)

/-! ### Delayed messages -/

/-- `while (ptr != NULL && delay > ptr->delay)`: walks down the delta list, taking each delta passed off
    the delay. -/
def seekDelay (k : Kernel) : Nat → Nat → Option Addr → Option Addr → Option (Nat × Option Addr × Option Addr)
  | 0, _, _, _ => none
  | n + 1, delay, ptr, prevPtr =>
    match ptr with
    | none => some (delay, none, prevPtr)
    | some p =>
      if delay > (k.mess p).delay then
        seekDelay k n (delay - (k.mess p).delay) (k.messNext p) (some p)
      else some (delay, some p, prevPtr)

/-- Unsigned 32-bit subtraction. -/
def subWord (a b : Nat) : Nat := (a + (2 ^ 32 - b)) % 2 ^ 32

/-- The four cases in which an envelope is linked into the delta list between `prevPtr` and `ptr`. -/
def linkDelayed (e : Addr) (delay : Nat) (ptr prevPtr : Option Addr) (k : Kernel) : Kernel :=
  match ptr, prevPtr with
  | none, none =>
    let k := k.setMess e { k.mess e with delay := delay }
    let (next, q) := enqueueMessage k.messNext k.delayedSendQueue e
    { k with messNext := next, delayedSendQueue := q }
  | some p, none =>
    let k := k.setMess p { k.mess p with delay := subWord (k.mess p).delay delay }
    let k := k.setMess e { k.mess e with delay := delay }
    let k := k.setMessNext e (some p)
    { k with delayedSendQueue := { k.delayedSendQueue with head := some e } }
  | none, some prev =>
    let k := k.setMess e { k.mess e with delay := delay }
    let k := k.setMessNext e none
    k.setMessNext prev (some e)
  | some p, some prev =>
    let k := k.setMess p { k.mess p with delay := subWord (k.mess p).delay delay }
    let k := k.setMess e { k.mess e with delay := delay }
    let k := k.setMessNext prev (some e)
    k.setMessNext e (some p)

def kernelDelayedSend (processID : Nat) (envelope : Addr) (delay : Int) (k : Kernel) : Outcome (Nat × Kernel) := do
  let k := k.setMess envelope { k.mess envelope with destPid := processID, senderPid := k.current.pid }
  if delay < 0 then return (rtxError, k)
  else if delay = 0 then kernelSendMessage processID envelope k
  else
    let (delay, ptr, prevPtr) ← seekDelay k addressSpace delay.toNat k.delayedSendQueue.head none
    return (rtxSuccess, linkDelayed envelope delay ptr prevPtr k)

/-! ### Priorities -/

def kernelSetProcessPriority (processID priority : Nat) (k : Kernel) : Outcome (Nat × Kernel) := do
  if processID = 0 ∨ priority = 4 then return (rtxError, k)
  else match getPcb k processID with
  | none => return (rtxError, k)
  | some pcb =>
    if pcb = k.currentPcb then
      if priority ≤ (k.pcbs pcb).priority then
        return (rtxSuccess, k.setPriority pcb priority)
      else
        let k ← processSwitch (k.setPriority pcb priority)
        return (rtxSuccess, k)
    else if (k.pcbs pcb).state = .memoryWait then
      let (returnValue, k) ← removeElementByPriority pcb .memoryWait k
      if returnValue = rtxError then return (rtxError, k)
      else
        let k := k.setPriority pcb priority
        let k ← enqueuePCBByPriority .memoryWait pcb k
        return (rtxSuccess, k)
    else if (k.pcbs pcb).state = .messageWait then
      return (rtxSuccess, k.setPriority pcb priority)
    else
      let (returnValue, k) ← removeElementByPriority pcb .ready k
      if returnValue = rtxError then return (rtxError, k)
      else
        let k := k.setPriority pcb priority
        let k ← enqueuePCBByPriority .ready pcb k
        if priority < k.current.priority then
          let k ← processSwitch k
          return (rtxSuccess, k)
        else return (rtxSuccess, k)

def kernelGetProcessPriority (processID : Nat) (k : Kernel) : Nat × Kernel :=
  match getPcb k processID with
  | none => (rtxError, k)
  | some pcb => ((k.pcbs pcb).priority, { k with retCodeGetPrio := (k.pcbs pcb).priority })

/-! ### The trap handler -/

namespace KernelCode
def sendMessage : Nat := 1
def receiveMessage : Nat := 2
def requestMemory : Nat := 3
def releaseMemory : Nat := 4
def releaseProcessor : Nat := 5
def delayedSend : Nat := 6
def setPrio : Nat := 7
def getPrio : Nat := 8
end KernelCode

/-- `swi_trap_handler`, which stores the result of a primitive that returns. The narrowing of the priority
    to `UINT8` is that of the parameter of `kernel_set_process_priority`. -/
def swiTrapHandler (k : Kernel) : Outcome Kernel := do
  if k.kernelCode = KernelCode.sendMessage then
    let envelope ← toPtr k.param2
    let (r, k) ← kernelSendMessage k.param1 envelope k
    return { k with retCode := r }
  else if k.kernelCode = KernelCode.receiveMessage then
    let (_, k) ← kernelReceiveMessage k
    return k
  else if k.kernelCode = KernelCode.requestMemory then
    let (b, k) ← kernelRequestMemoryBlock k
    return { k with retCode := toWord b }
  else if k.kernelCode = KernelCode.releaseMemory then
    let memoryBlock ← toPtr k.param1
    let (r, k) ← kernelReleaseMemoryBlock memoryBlock k
    return { k with retCode := r }
  else if k.kernelCode = KernelCode.releaseProcessor then
    processSwitch k
  else if k.kernelCode = KernelCode.delayedSend then
    let envelope ← toPtr k.param2
    let (r, k) ← kernelDelayedSend k.param1 envelope (toInt k.param3) k
    return { k with retCode := r }
  else if k.kernelCode = KernelCode.setPrio then
    let (r, k) ← kernelSetProcessPriority k.param1 (k.param2 % 2 ^ 8) k
    return { k with retCode := r }
  else if k.kernelCode = KernelCode.getPrio then
    let (_, k) := kernelGetProcessPriority k.param1 k
    return k
  else return k

end DoorRtos
