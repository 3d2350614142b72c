import DoorRtos.Primitives

/-! The start of the system: `init.c`, in the build without `_RTX_EVAL_`. -/

namespace DoorRtos
open Linked

/-! ### The memory pool -/

/-- `sizeof (struct memory_block_t)`: the data and the pointer to the next block. -/
abbrev sizeofMemoryBlock : Nat := memBlockSize + 4

/-- Where the linker puts `__end`. The memory pool starts there and fits below the end of the addresses. -/
structure Layout where
  endAddr : Nat
  pos : 0 < endAddr
  fits : endAddr + numMemBlocks * sizeofMemoryBlock ≤ addressSpace

/-- `__end` as `rtos.map` gives it. -/
def rtosMap : Layout := ⟨0x10105f50, by decide, by decide⟩

/-- The block that `init_free_memory` carves in its round `i`. -/
def Layout.block (img : Layout) (i : Fin numMemBlocks) : Addr where
  val := img.endAddr + i.val * sizeofMemoryBlock
  pos := Nat.lt_of_lt_of_le img.pos (Nat.le_add_right _ _)
  lt := by
    have hi := i.isLt
    have hfits := img.fits
    simp only [sizeofMemoryBlock, memBlockSize, numMemBlocks, addressSpace] at hi hfits ⊢
    omega

/-- The first two blocks of the pool behind the `__end` of `rtos.map`. -/
def firstBlock : Addr := rtosMap.block 0
def secondBlock : Addr := rtosMap.block 1

/-- The blocks of the pool, in the order of their addresses. -/
def Layout.pool (img : Layout) : List Addr := (List.finRange numMemBlocks).map img.block

def enqueueBlocks (k : Kernel) (blocks : List Addr) : Kernel :=
  blocks.foldl (fun k b =>
    let (next, q) := enqueueFreeMemoryQueue k.blockNext k.freeMemQ b
    { k with blockNext := next, freeMemQ := q }) k

def initFreeMemory (img : Layout) (k : Kernel) : Kernel :=
  enqueueBlocks { k with freeMemQ := initFreeMemoryQueue } img.pool

/-! ### The process table -/

/-- What every block of code that creates a process does to its mailbox and its PCB. -/
def initPCB (p : PcbRef) (priority : Nat) (k : Kernel) : Kernel :=
  { k with
    mQueues := Function.update k.mQueues p initMsgQueue
    pcbs := Function.update k.pcbs p ⟨p.val, .ready, priority, some p⟩ }

/-- Creates a process that starts in the ready queue. -/
def initReady (k : Kernel) (process : PcbRef × Nat) : Option Kernel :=
  enqueuePCBByPriority .ready process.1 (initPCB process.1 process.2 k)

def initAll (processes : List (PcbRef × Nat)) (k : Kernel) : Option Kernel := processes.foldlM initReady k

/-- The processes of `tasks`, as `init_tasks` fills it. -/
def tasks : List (PcbRef × Nat) := [(1, Priority.medium), (2, Priority.medium), (3, Priority.medium)]

/-- The processes of `init_stress_processes`: `PROCESS_A1` to `PROCESS_A3`. -/
def stressProcesses : List (PcbRef × Nat) :=
  [(7, Priority.medium), (8, Priority.medium), (9, Priority.medium), (10, Priority.medium), (11, Priority.medium),
    (12, Priority.medium), (13, Priority.medium)]

/-- The processes of `init_s_processes`. -/
def sProcesses : List (PcbRef × Nat) :=
  [(kcdPid, Priority.medium), (wcPid, Priority.high), (crtPid, Priority.high), (setPrioPid, Priority.high),
    (nullPid, Priority.null)]

/-- The interrupt processes get a PCB and a mailbox, but no place in the ready queue. -/
def initIProcesses (k : Kernel) : Kernel :=
  let k := { k with inIProcess := false }
  let k := initPCB timerPid Priority.low k
  let k := { k with delayedSendQueue := initMsgQueue }
  initPCB uartPid Priority.low k

/-- The first loop of `start_scheduler`. -/
def clearTable (k : Kernel) : Kernel := { k with pcbs := fun i => { k.pcbs i with pid := dummyPid } }

def startScheduler (k : Kernel) : Outcome Kernel := do
  let k := { clearTable k with readyQueue := initMETAPCBQueue, memoryWaitQueue := initMETAPCBQueue }
  let k ← initAll tasks k
  let k ← initAll stressProcesses k
  let k ← initAll sProcesses k
  let k := initIProcesses k
  let (first, k) ← dequeuePCBFIFOByPriority .ready k
  contextSwitch first k

/-- The static data before `main` runs. -/
def zeroed : Kernel where
  pcbs _ := ⟨0, .ready, 0, none⟩
  pcbNext _ := none
  readyQueue := ⟨0, fun _ => ⟨none, none⟩⟩
  memoryWaitQueue := ⟨0, fun _ => ⟨none, none⟩⟩
  pastSubqueues := true
  mess _ := ⟨0, 0, 0⟩
  messNext _ := none
  mQueues _ := ⟨none, none⟩
  delayedSendQueue := ⟨none, none⟩
  blockNext _ := none
  freeMemQ := ⟨none, none⟩
  currentPcb := nullPid
  inIProcess := false
  kernelCode := 0
  param1 := 0
  param2 := 0
  param3 := 0
  retCode := 0
  retCodeRecv := 0
  retCodeGetPrio := 0
  msgReturn := false

/-- `main`: the memory pool, and then the scheduler, which resumes the first process. -/
def boot (img : Layout) : Outcome Kernel := startScheduler (initFreeMemory img zeroed)

end DoorRtos
