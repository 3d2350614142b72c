import DoorRtos.Traps

/-! The interrupt handlers of `timer_handler.c` and `uart_handler.c`, and one round of the timer process of
    `timer_i_process.c`. -/

namespace DoorRtos
open Linked

/-! ### The handlers -/

/-- Both handlers link the interrupted PCB into the ready queue and resume their own process. -/
def interruptHandler (iProcess : PcbRef) (k : Kernel) : Outcome Kernel := do
  let k := { k with inIProcess := true }
  let k ← enqueuePCBByPriority .ready k.currentPcb k
  contextSwitch (some iProcess) k

def timerHandler (k : Kernel) : Outcome Kernel := interruptHandler timerPid k

def uartHandler (k : Kernel) : Outcome Kernel := interruptHandler uartPid k

inductive Interrupt where
  | timer
  | uart
  deriving DecidableEq, Repr

namespace Interrupt

def pid : Interrupt → PcbRef
  | timer => timerPid
  | uart => uartPid

def handler : Interrupt → Kernel → Outcome Kernel
  | timer => timerHandler
  | uart => uartHandler

end Interrupt

/-- What can happen to the machine. The interrupt processes run with interrupts masked (their saved status
    register is `0x2700`), so an interrupt meets another process. -/
inductive Event where
  | interrupt (i : Interrupt)
  | iRelease
  | call (c : Call)
  deriving DecidableEq, Repr

/-- The kernel, with a count of the interrupts of each kind and of the rounds that each interrupt process
    has finished: a round ends with the call of `release_processor`. -/
structure Machine where
  kernel : Kernel
  interrupts : PcbRef → Nat
  rounds : PcbRef → Nat

namespace Machine

def start (k : Kernel) : Machine := ⟨k, fun _ => 0, fun _ => 0⟩

def step (m : Machine) : Event → Option Machine
  | .interrupt i =>
    if IProcess m.kernel.currentPcb then none
    else (i.handler m.kernel).kernel?.map fun k =>
      { m with kernel := k, interrupts := Function.update m.interrupts i.pid (m.interrupts i.pid + 1) }
  | .iRelease =>
    let p := m.kernel.currentPcb
    if IProcess p then
      (swiTrapHandler (Call.releaseProcessor.enter m.kernel)).kernel?.map fun k =>
        { m with kernel := k, rounds := Function.update m.rounds p (m.rounds p + 1) }
    else none
  | .call c =>
    if IProcess m.kernel.currentPcb then none
    else (swiTrapHandler (c.enter m.kernel)).kernel?.map fun k => { m with kernel := k }

end Machine

/-! ### The timer process -/

/-- What the first loop of a round does with an envelope. -/
def timerInsert (e : Addr) (k : Kernel) : Outcome Kernel := do
  let (delay, ptr, prevPtr) ← seekDelay k addressSpace (k.mess e).delay k.delayedSendQueue.head none
  let k := k.setMess e { k.mess e with destPid := (k.mess e).senderPid }
  return linkDelayed e delay ptr prevPtr k

/-- The first loop of a round: envelopes from the timer's own mailbox go into the delta list. -/
def timerMailbox : Nat → Kernel → Outcome Kernel
  | 0, _ => .stuck
  | n + 1, k => do
    let (envPtr, k) ← kernelReceiveMessage k
    let k := { k with msgReturn := false }
    match envPtr with
    | none => return k
    | some e =>
      let k ← timerInsert e k
      timerMailbox n k

/-- The second loop of a round: while the head of the delta list carries `timer_count`, it is taken out and
    passed on. The pairs tell what was passed to `kernel_send_message`, in order. -/
def timerExpire : Nat → Nat → Kernel → Outcome (Nat × List (Nat × Addr) × Kernel)
  | 0, _, _ => .stuck
  | n + 1, timerCount, k =>
    match k.delayedSendQueue.head with
    | none => return (timerCount, [], k)
    | some e =>
      if (k.mess e).delay = timerCount then do
        let (_, q) := dequeueMessageLIFO k.messNext k.delayedSendQueue
        let k := { k with delayedSendQueue := q }
        let destPid := (k.mess e).destPid
        let (_, k) ← kernelSendMessage destPid e k
        let (timerCount, passed, k) ← timerExpire n 0 k
        return (timerCount, (destPid, e) :: passed, k)
      else return (timerCount, [], k)

/-- One round of the loop of `timer_i_process`, up to its `release_processor`. -/
def timerRound (timerCount : Nat) (k : Kernel) : Outcome (Nat × List (Nat × Addr) × Kernel) := do
  let timerCount := (timerCount + 1) % 2 ^ 32
  let k ← timerMailbox addressSpace k
  let timerCount := match k.delayedSendQueue.head with
    | none => timerCount
    | some e => if timerCount > (k.mess e).delay then 0 else timerCount
  timerExpire addressSpace timerCount k

end DoorRtos
