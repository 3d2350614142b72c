import DoorRtos.Boot
import DoorRtos.Interrupts
import DoorRtos.Stack

/-! The processor under the kernel: the registers that the handlers save and restore, the stacks of the processes, and the
    switch from one process to another. The saving and restoring are the macros of `arch.h`; the processor has one stack
    pointer, so that an exception and its handler use the stack of the process that they interrupt. -/

namespace DoorRtos
open Stack

/-! ### The processor -/

inductive Reg where
  | d0 | d1 | d2 | d3 | d4 | d5 | d6 | d7
  | a0 | a1 | a2 | a3 | a4 | a5 | a6
  deriving DecidableEq, Repr

/-- What a process can see of the processor. -/
structure Context where
  reg : Reg → UInt32
  sp : Nat
  pc : UInt32
  sr : UInt16

structure Cpu extends Context where
  memory : Memory

/-- The order of `SAVE_CONTEXT`. -/
def saveOrder : List Reg := [.d0, .d1, .d2, .d3, .d4, .d5, .d6, .d7, .a0, .a1, .a2, .a3, .a4, .a5, .a6]

/-- The order of `RESTORE_CONTEXT`. -/
def restoreOrder : List Reg := [.a6, .a5, .a4, .a3, .a2, .a1, .a0, .d7, .d6, .d5, .d4, .d3, .d2, .d1, .d0]

namespace Cpu

/-- `move.l r, -(%sp)`. -/
def push (c : Cpu) (r : Reg) : Cpu :=
  { c with
    sp := c.sp - 4
    memory := Stack.store c.memory (c.sp - 4) (c.reg r) }

/-- `move.l (%sp)+, r`. -/
def pop (c : Cpu) (r : Reg) : Cpu :=
  { c with
    reg := Function.update c.reg r (load c.memory c.sp)
    sp := c.sp + 4 }

def saveContext (c : Cpu) : Cpu := saveOrder.foldl push c

def restoreContext (c : Cpu) : Cpu := restoreOrder.foldl pop c

/-- What the processor does for an exception: the frame has the program counter and, below it, a longword with the format,
    the vector and the status register. The format tells how far the stack pointer was from a multiple of 4. -/
def exception (vector : Nat) (c : Cpu) : Cpu :=
  let sp := c.sp / 4 * 4 - 8
  let frame := UInt32.ofNat ((4 + c.sp % 4) * 2 ^ 28 + vector * 2 ^ 18 + c.sr.toNat)
  { c with
    sp := sp
    sr := c.sr ||| 0x2000
    memory := Stack.store (Stack.store c.memory (sp + 4) c.pc) sp frame }

/-- `rte`. -/
def returnFromException (c : Cpu) : Cpu :=
  let frame := load c.memory c.sp
  { c with
    sp := c.sp + 8 + frame.toNat / 2 ^ 28 % 4
    pc := load c.memory (c.sp + 4)
    sr := frame.toUInt16 }

/-- `SET_SP`, `RESTORE_CONTEXT` and `RETURN_FROM_EXCEPTION`. -/
def resume (sp : Nat) (c : Cpu) : Cpu := ({ c with sp := sp }.restoreContext).returnFromException

/-- The level up to which interrupts are held off. -/
def mask (c : Cpu) : Nat := c.sr.toNat / 2 ^ 8 % 8

end Cpu

/-! ### The exceptions -/

inductive Exception where
  | trap
  | interrupt (i : Interrupt)
  deriving DecidableEq, Repr

namespace Exception

/-- The entries that `INIT_TRAP_HANDLER`, `INIT_TIMER_INTERRUPT` and `INIT_UART_INTERRUPT` fill. -/
def vector : Exception → Nat
  | trap => 32
  | interrupt .timer => 30
  | interrupt .uart => 64

/-- The level that `init_timer` and `init_UART` program. -/
def level : Interrupt → Nat
  | .timer => 6
  | .uart => 5

/-- A trap is always taken, an interrupt when its level is above the mask. -/
def Accepted (mask : Nat) : Exception → Prop
  | trap => True
  | interrupt i => mask < level i

def handler : Exception → Kernel → Outcome Kernel
  | trap => swiTrapHandler
  | interrupt i => i.handler

end Exception

/-! ### The stacks -/

def topOfKernelStack : Nat := 0xB0000

def defaultStackSize : Nat := 512

/-- The created processes with the sizes of their stacks, in the order of their creation. -/
def stackSizes : List (PcbRef × Nat) :=
  (tasks ++ stressProcesses).map (fun process => (process.1, defaultStackSize)) ++
    [(kcdPid, 2048), (wcPid, 2048), (crtPid, 2048), (setPrioPid, 2048), (nullPid, defaultStackSize),
      (timerPid, defaultStackSize), (uartPid, defaultStackSize)]

/-- The longword below the entry. Local processes run in user mode, interrupt processes with interrupts held off. -/
def firstFrame (isIProcess : Bool) : UInt32 := if isIProcess then 0x41002700 else 0x41000000

/-- `init_local_stack`: the frame of an exception with the entry of the process, and the registers below it. The first word
    goes to the address itself, as if it were pushed from one word above. -/
def initLocalStack (m : Memory) (stackPointer : Nat) (procEntry : UInt32) (isIProcess : Bool) : Memory × Nat :=
  pushAll m (stackPointer + 4)
    [procEntry, firstFrame isIProcess, 0xD0, 0xD1, 0xD2, 0xD3, 0xD4, 0xD5, 0xD6, 0xD7,
      0xA0, 0xA1, 0xA2, 0xA3, 0xA4, 0xA5, 0xA6]

/-- The memory, `stack_pointer` of each PCB and `stack_offset` while the processes are created. -/
structure Stacks where
  memory : Memory
  stackPointer : PcbRef → Nat
  stackOffset : Nat

/-- What every block of code that creates a process does for its stack. -/
def initStack (img : Layout) (procEntry : PcbRef → UInt32) (s : Stacks) (process : PcbRef × Nat) : Stacks :=
  let (memory, sp) :=
    initLocalStack s.memory (img.endAddr + s.stackOffset) (procEntry process.1) (IProcess process.1)
  { memory := memory
    stackPointer := Function.update s.stackPointer process.1 sp
    stackOffset := s.stackOffset - process.2 }

def initStacks (img : Layout) (procEntry : PcbRef → UInt32) (m : Memory) : Stacks :=
  stackSizes.foldl (initStack img procEntry) ⟨m, fun _ => 0, topOfKernelStack⟩

/-- The offset of the stack of process `p`, and its size. -/
def place : List (PcbRef × Nat) → Nat → PcbRef → Option (Nat × Nat)
  | [], _, _ => none
  | process :: processes, offset, p =>
    if p = process.1 then some (offset, process.2) else place processes (offset - process.2) p

/-- Where the stack of process `p` begins and where it ends. The first word is at the offset. -/
def Layout.stack (img : Layout) (p : PcbRef) : Option (Nat × Nat) :=
  (place stackSizes topOfKernelStack p).map fun s => (img.endAddr + s.1 + 4 - s.2, img.endAddr + s.1 + 4)

/-! ### The machine -/

/-- The processor and the kernel with the `stack_pointer` of each PCB and the cell `tmp_sp`. -/
structure Processor where
  cpu : Cpu
  kernel : Kernel
  stackPointer : PcbRef → Nat
  tmpSp : Nat

namespace Processor

/-- The begin of a handler, up to `GET_SP`. The C prologue leaves the memory `prologue`, and `UNLK_FP` takes its frame away
    again. The address of the handler is left out, as is the store of `tmp_sp` to the PCB, which `context_switch`
    makes too. -/
def enter (vector : Nat) (prologue : Memory) (s : Processor) : Processor :=
  let cpu := { s.cpu.exception vector with sr := 0x2700, memory := prologue }.saveContext
  { s with cpu := cpu, tmpSp := cpu.sp }

/-- The primitives have run, and have left the memory `body`. -/
def handled (e : Exception) (prologue body : Memory) (s : Processor) : Processor :=
  let s := s.enter e.vector prologue
  { s with cpu := { s.cpu with memory := body } }

/-- The end of a handler and of `context_switch`. -/
def leave (s : Processor) : Processor := { s with cpu := s.cpu.resume s.tmpSp }

/-- `context_switch` to the running process of `k`. -/
def contextSwitch (k : Kernel) (s : Processor) : Processor :=
  let stackPointer := Function.update s.stackPointer s.kernel.currentPcb s.tmpSp
  { s with kernel := k, stackPointer := stackPointer, tmpSp := stackPointer k.currentPcb }.leave

/-- The processor when `start_scheduler` has created the processes and resumes the first one. -/
def start (img : Layout) (procEntry : PcbRef → UInt32) (cpu : Cpu) (k : Kernel) : Processor :=
  let s := initStacks img procEntry cpu.memory
  leave ⟨{ cpu with memory := s.memory }, k, s.stackPointer, s.stackPointer k.currentPcb⟩

/-- What process `p` finds in the processor when it runs, or will find when it is resumed. -/
def context (s : Processor) (p : PcbRef) : Context :=
  if p = s.kernel.currentPcb then s.cpu.toContext else (s.cpu.resume (s.stackPointer p)).toContext

end Processor

/-- The stacks keep their contents, but for the stack of `p` below `sp`. -/
def Layout.Spares (img : Layout) (p : PcbRef) (sp : Nat) (m m' : Memory) : Prop :=
  ∀ q lo hi, img.stack q = some (lo, hi) → Agree (if q = p then sp else lo) hi m m'

inductive Activity where
  | compute
  | exception (e : Exception)
  deriving DecidableEq, Repr

/-- An exception that the running process takes: it has room for its frame, and the C code of the handler stays inside of
    the stack below. -/
structure Processor.Enters (img : Layout) (s : Processor) (e : Exception) (prologue body : Memory) : Prop where
  accepted : e.Accepted s.cpu.mask
  room : ∃ lo hi, img.stack s.kernel.currentPcb = some (lo, hi) ∧ lo + 68 ≤ s.cpu.sp / 4 * 4
  prologue_spares : img.Spares s.kernel.currentPcb (s.cpu.exception e.vector).sp (s.cpu.exception e.vector).memory prologue
  body_spares : img.Spares s.kernel.currentPcb (s.enter e.vector prologue).tmpSp (s.enter e.vector prologue).cpu.memory body

/-- Between two exceptions the code of a process may do anything that stays inside of its stack and leaves the upper half of
    the status register as it is. -/
inductive Processor.Step (img : Layout) : Processor → PcbRef × Activity → Processor → Prop
  | compute {s : Processor} {lo hi : Nat} {cpu : Cpu} {k : Kernel} (hstack : img.stack s.kernel.currentPcb = some (lo, hi))
      (hlo : lo ≤ cpu.sp) (hhi : cpu.sp ≤ hi) (hsr : cpu.sr.toNat / 2 ^ 8 = s.cpu.sr.toNat / 2 ^ 8)
      (hmemory : img.Spares s.kernel.currentPcb hi s.cpu.memory cpu.memory)
      (hcurrent : k.currentPcb = s.kernel.currentPcb) :
      Step img s (s.kernel.currentPcb, .compute) { s with cpu := cpu, kernel := k }
  | returns {s : Processor} {e : Exception} {prologue body : Memory} {k : Kernel} (henters : s.Enters img e prologue body)
      (hhandler : e.handler s.kernel = .returned k) :
      Step img s (s.kernel.currentPcb, .exception e) { s.handled e prologue body with kernel := k }.leave
  | switches {s : Processor} {e : Exception} {prologue body : Memory} {k : Kernel} (henters : s.Enters img e prologue body)
      (hhandler : e.handler s.kernel = .switched k) :
      Step img s (s.kernel.currentPcb, .exception e) ((s.handled e prologue body).contextSwitch k)

end DoorRtos
