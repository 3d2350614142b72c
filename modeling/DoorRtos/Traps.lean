import DoorRtos.Primitives

/-! The system calls of `swi.c` and the processes that make them. A process runs its own code until it enters a wrapper,
    which stores its arguments in the global cells and traps. While the trap handler runs nothing interrupts it, and the
    processor changes hands only where a primitive calls `context_switch`; a process that is resumed goes on behind its
    trap. Interrupts are left out here: none comes between the stores of a wrapper and its trap or before it reads its
    result, and the interrupt processes never run, so that a delayed message stays where it is. -/

namespace DoorRtos

/-- A system call with its arguments, as 32-bit words. -/
inductive Call where
  | releaseProcessor
  | sendMessage (processID envelope : Nat)
  | receiveMessage (senderID : Nat)
  | requestMemoryBlock
  | releaseMemoryBlock (memoryBlock : Nat)
  | delayedSend (processID envelope delay : Nat)
  | setProcessPriority (processID priority : Nat)
  | getProcessPriority (processID : Nat)
  deriving DecidableEq, Repr

namespace Call

/-- What a wrapper stores before its first trap. -/
def enter (c : Call) (k : Kernel) : Kernel :=
  match c with
  | releaseProcessor => { k with kernelCode := KernelCode.releaseProcessor }
  | sendMessage processID envelope =>
    { k with param1 := processID, param2 := envelope, kernelCode := KernelCode.sendMessage }
  | receiveMessage senderID =>
    { k with msgReturn := false, retCodeRecv := 0, param1 := senderID, kernelCode := KernelCode.receiveMessage }
  | requestMemoryBlock => { k with kernelCode := KernelCode.requestMemory }
  | releaseMemoryBlock memoryBlock => { k with param1 := memoryBlock, kernelCode := KernelCode.releaseMemory }
  | delayedSend processID envelope delay =>
    { k with param1 := processID, param2 := envelope, param3 := delay, kernelCode := KernelCode.delayedSend }
  | setProcessPriority processID priority =>
    { k with param1 := processID, param2 := priority, kernelCode := KernelCode.setPrio }
  | getProcessPriority processID => { k with param1 := processID, kernelCode := KernelCode.getPrio }

/-- What a wrapper returns behind its trap; `receive_message` goes round its loop while `msg_return` is 0. -/
def leave (c : Call) (k : Kernel) : Option Nat :=
  match c with
  | releaseProcessor => some 0
  | receiveMessage _ => if k.msgReturn then some k.retCodeRecv else none
  | sendMessage _ _ | requestMemoryBlock | releaseMemoryBlock _ | delayedSend _ _ _ => some k.retCode
  | setProcessPriority _ _ | getProcessPriority _ => some k.retCodeGetPrio

/-- The envelope or the block that a call hands over to the kernel. -/
def gives (c : Call) (k : Kernel) : Option Addr :=
  match c with
  | sendMessage processID envelope => if (getPcb k processID).isSome then toPtr envelope else none
  | delayedSend processID envelope delay =>
    if toInt delay < 0 ∨ toInt delay = 0 ∧ (getPcb k processID).isNone then none else toPtr envelope
  | releaseMemoryBlock memoryBlock => toPtr memoryBlock
  | _ => none

end Call

/-- What a process does when it runs: its own code, or the code behind the trap of a call. `left` tells
    whether the trap left through `context_switch`. -/
inductive Pc where
  | user
  | trapped (c : Call) (left : Bool)
  deriving DecidableEq, Repr

/-- What an observer of the system calls sees. -/
inductive Obs where
  | called (p : PcbRef) (c : Call) (given : Option Addr)
  | returned (p : PcbRef) (c : Call) (value : Nat)
  deriving DecidableEq, Repr

/-- The kernel, the place where each process is, and the history of the calls. -/
structure Sys where
  kernel : Kernel
  pc : PcbRef → Pc
  log : List Obs

/-- What the running process does next: it makes a system call, or goes on behind its trap. -/
inductive Act where
  | call (c : Call)
  | resume
  deriving DecidableEq, Repr

namespace Sys

/-- The trap of a call of the running process. -/
def trap (c : Call) (s : Sys) : Option Sys :=
  let back (left : Bool) := Function.update s.pc s.kernel.currentPcb (.trapped c left)
  match swiTrapHandler s.kernel with
  | .returned k => some { s with kernel := k, pc := back false }
  | .switched k => some { s with kernel := k, pc := back true }
  | .stuck => none

def step (s : Sys) : Act → Option Sys
  | .call c =>
    match s.pc s.kernel.currentPcb with
    | .user =>
      let seen := Obs.called s.kernel.currentPcb c (c.gives s.kernel)
      trap c { s with kernel := c.enter s.kernel, log := s.log ++ [seen] }
    | .trapped _ _ => none
  | .resume =>
    match s.pc s.kernel.currentPcb with
    | .user => none
    | .trapped c _ =>
      match c.leave s.kernel with
      | some value =>
        some { s with
          pc := Function.update s.pc s.kernel.currentPcb .user
          log := s.log ++ [.returned s.kernel.currentPcb c value] }
      | none => trap c { s with kernel := { s.kernel with kernelCode := KernelCode.receiveMessage } }

/-- The system when `start_scheduler` resumes the first process: no process has made a call. -/
def start (k : Kernel) : Sys := ⟨k, fun _ => .user, []⟩

end Sys
end DoorRtos
