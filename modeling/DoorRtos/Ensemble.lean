import DoorRtos.Effects
import DoorRtos.Hotkeys
import DoorRtos.Network
import DoorRtos.Traps
import DoorRtos.WallClock

/-! The processes together: each runs its own code on the kernel, one statement in a turn, and only the running process has
    a turn. Interrupts are left out, and with them the interrupt processes: a message that is delayed never arrives, and one
    to the UART waits in its mailbox. At the end the same processes as nodes of a network, each with its own memory and a
    mailbox of messages. -/

namespace DoorRtos
open Interaction Network

/-! ### The statements -/

namespace Op

/-- The block that a statement stores to, or that a call hands over. -/
def operand : Op → Option Addr
  | sendMessage _ e | releaseMemoryBlock e | store e _ _ => some e
  | _ => none

end Op

/-- A store to an element of `data` is inside of the array. -/
def Field.InBounds : Field → Prop
  | data i => i < messDataSize
  | _ => True

instance (field : Field) : Decidable field.InBounds := by
  cases field <;> unfold Field.InBounds <;> infer_instance

/-- What an envelope holds after an assignment to one of its fields. -/
def Content.store (c : Content) : Field → Nat → Content
  | .type, value => { c with type := value }
  | .data i, value => { c with data := Function.update c.data i (UInt8.ofNat value) }
  | .senderPid, _ | .size, _ => c

namespace ClockOp

def operand : ClockOp → Option Addr
  | basic op => op.operand
  | delayedSend _ e _ => some e

/-- The system call that the statement makes. An assignment makes none. -/
def call : ClockOp → Option Call
  | basic .receiveMessage => some (.receiveMessage 0)
  | basic .requestMemoryBlock => some .requestMemoryBlock
  | basic (.sendMessage processID e) => some (.sendMessage processID.val e.val)
  | basic (.releaseMemoryBlock b) => some (.releaseMemoryBlock b.val)
  | basic .releaseProcessor => some .releaseProcessor
  | basic (.setProcessPriority processID priority) => some (.setProcessPriority (ofInt processID) (ofInt priority))
  | basic (.store _ _ _) | basic (.write _ _) => none
  | delayedSend processID e delay => some (.delayedSend processID.val e.val (ofInt delay))

/-- The answer of a statement that is given neither a message nor a block. -/
def plain : (op : ClockOp) → Option (ClockAns op)
  | basic .receiveMessage | basic .requestMemoryBlock => none
  | basic (.sendMessage _ _) | basic (.releaseMemoryBlock _) | basic .releaseProcessor
  | basic (.setProcessPriority _ _) | basic (.store _ _ _) | basic (.write _ _) | delayedSend _ _ _ => some ()

end ClockOp

/-- The code of a process that delays no messages, among those that may. -/
def Proc.code {α : Type} (p : Proc α) : ClockProc α := p.hoist ClockOp.basic fun _ x => x

/-! ### On the kernel -/

/-- The processes with the kernel: what is in the envelopes, what each process has still to do, and what it has done. -/
structure Ensemble where
  sys : Sys
  contents : Addr → Content
  rest : PcbRef → ClockProc Unit
  past : PcbRef → History ClockOp ClockAns

namespace Ensemble

def start (k : Kernel) (contents : Addr → Content) (program : PcbRef → ClockProc Unit) : Ensemble :=
  ⟨.start k, contents, program, fun _ => []⟩

/-- The envelope at an address, as a process reads it. -/
def envelope (s : Ensemble) (e : Addr) : Envelope :=
  ⟨e, (s.sys.kernel.mess e).senderPid, (s.contents e).type, (s.contents e).data⟩

/-- An assignment to a field of an envelope. One that is not inside of `data` is not followed. -/
def store (e : Addr) (field : Field) (value : Nat) (s : Ensemble) : Option Ensemble :=
  if field.InBounds then
    let mess := s.sys.kernel.mess e
    let mess := if field = .senderPid then { mess with senderPid := value } else mess
    some { s with
      sys := { s.sys with kernel := s.sys.kernel.setMess e mess }
      contents := Function.update s.contents e ((s.contents e).store field value) }
  else none

/-- A statement that makes no system call. The registers of the serial port are not modelled. -/
def assign (s : Ensemble) : ClockOp → Option Ensemble
  | .basic (.store e field value) => s.store e field value
  | _ => some s

/-- The answer to a statement whose system call has returned `value`. A process that is given `NULL` for a block stores
    through it, and is not followed. -/
def answer (s : Ensemble) (value : Nat) : (op : ClockOp) → Option (ClockAns op)
  | .basic .receiveMessage => some ((toPtr value).map s.envelope)
  | .basic .requestMemoryBlock => toPtr value
  | .basic (.sendMessage _ _) | .basic (.releaseMemoryBlock _) | .basic .releaseProcessor
  | .basic (.setProcessPriority _ _) | .basic (.store _ _ _) | .basic (.write _ _) | .delayedSend _ _ _ => some ()

/-- Process `p` has been answered and goes on behind the statement. -/
def goOn (s : Ensemble) (p : PcbRef) (op : ClockOp) (x : ClockAns op) (next : ClockAns op → ClockProc Unit) : Ensemble :=
  { s with rest := Function.update s.rest p (next x), past := Function.update s.past p (s.past p ++ [⟨op, x⟩]) }

/-- The statement of process `p`, or the part of it that is done before another process may run. -/
def perform (s : Ensemble) (p : PcbRef) (op : ClockOp) (next : ClockAns op → ClockProc Unit) : Option Ensemble :=
  match op.call with
  | none => do
    let x ← op.plain
    let s ← s.assign op
    return s.goOn p op x next
  | some c =>
    match s.sys.pc p with
    | .user => (s.sys.step (.call c)).map fun sys => { s with sys := sys }
    | .trapped c _ =>
      match c.leave s.sys.kernel with
      | none => (s.sys.step .resume).map fun sys => { s with sys := sys }
      | some value => do
        let x ← s.answer value op
        let sys ← s.sys.step .resume
        return { s with sys := sys }.goOn p op x next

/-- A turn of process `p`. A process whose code has come to its end has none. -/
def step (s : Ensemble) (p : PcbRef) : Option Ensemble :=
  if p = s.sys.kernel.currentPcb then
    match s.rest p with
    | .ret _ => none
    | .call op next => s.perform p op next
  else none

end Ensemble

/-! ### As a network -/

/-- The blocks that a process holds, and what is in them. -/
structure Local where
  held : List Addr
  memory : Addr → Content

namespace Local

def obtain (l : Local) (b : Addr) (content : Content) : Local :=
  ⟨b :: l.held, Function.update l.memory b content⟩

def give (l : Local) (b : Addr) : Local := { l with held := l.held.filter (· ≠ b) }

def store (l : Local) (e : Addr) (field : Field) (value : Nat) : Local :=
  { l with memory := Function.update l.memory e ((l.memory e).store field value) }

/-- The message that a process with this pid sends. -/
def letter (l : Local) (pid : Nat) (e : Addr) : Envelope := ⟨e, pid, (l.memory e).type, (l.memory e).data⟩

end Local

section
variable (pids : PcbRef → Nat) (p : PcbRef)

/-- What a statement of process `p` does, with its answer, when the slots of the process table carry `pids`. A process is
    given only what it does not hold. A message to a slot that does not carry its own pid is refused. -/
inductive Acts : Local → (op : Op) → Ans op → Action PcbRef Envelope → Local → Prop
  | receive (l : Local) (env : Envelope) (hnew : env.addr ∉ l.held) :
      Acts l .receiveMessage (some env) (.receive env) (l.obtain env.addr ⟨env.type, env.data⟩)
  | request (l : Local) (b : Addr) (content : Content) (hnew : b ∉ l.held) :
      Acts l .requestMemoryBlock b .silent (l.obtain b content)
  | send (l : Local) (q : PcbRef) (e : Addr) (hq : pids q = q.val) :
      Acts l (.sendMessage q e) () (.send q (l.letter (pids p) e)) (l.give e)
  | refused (l : Local) (q : PcbRef) (e : Addr) (hq : pids q ≠ q.val) : Acts l (.sendMessage q e) () .silent (l.give e)
  | release (l : Local) (b : Addr) : Acts l (.releaseMemoryBlock b) () .silent (l.give b)
  | store (l : Local) (e : Addr) (field : Field) (value : Nat) :
      Acts l (.store e field value) () .silent (l.store e field value)
  | releaseProcessor (l : Local) : Acts l .releaseProcessor () .silent l
  | setProcessPriority (l : Local) (processID priority : Int) : Acts l (.setProcessPriority processID priority) () .silent l
  | write (l : Local) (register : Register) (value : Nat) : Acts l (.write register value) () .silent l

/-- A message that is delayed by nothing is sent at once. -/
inductive ClockActs : Local → (op : ClockOp) → ClockAns op → Action PcbRef Envelope → Local → Prop
  | basic {l l' : Local} {op : Op} {x : Ans op} {a : Action PcbRef Envelope} (h : Acts pids p l op x a l') :
      ClockActs l (.basic op) x a l'
  | now (l : Local) (q : PcbRef) (e : Addr) (delay : Int) (hd : toInt (ofInt delay) = 0) (hq : pids q = q.val) :
      ClockActs l (.delayedSend q e delay) () (.send q (l.letter (pids p) e)) (l.give e)
  | later (l : Local) (q : PcbRef) (e : Addr) (delay : Int) (hd : toInt (ofInt delay) = 0 → pids q ≠ q.val) :
      ClockActs l (.delayedSend q e delay) () .silent (l.give e)

/-- A statement may be executed when it stores to and hands over only what the process holds. -/
def effect : Effect Op Ans Local (Action PcbRef Envelope) where
  ok l op := (∀ b, op.operand = some b → b ∈ l.held) ∧ ∀ e field value, op = .store e field value → field.InBounds
  act := Acts pids p

def clockEffect : Effect ClockOp ClockAns Local (Action PcbRef Envelope) where
  ok l op := (∀ b, op.operand = some b → b ∈ l.held) ∧ ∀ e field value, op = .basic (.store e field value) → field.InBounds
  act := ClockActs pids p

end

/-- A process as a node: its code and its blocks. -/
abbrev Node := ClockProc Unit × Local

/-- The processes as nodes. None holds a block at first, and nothing has been sent. -/
def Ensemble.network (contents : Addr → Content) (program : PcbRef → ClockProc Unit) : Config PcbRef Node Envelope :=
  ⟨fun p => (program p, ⟨[], contents⟩), fun _ => []⟩

/-- The steps of the nodes. -/
abbrev nodeStep (pids : PcbRef → Nat) (p : PcbRef) : Node → Action PcbRef Envelope → Node → Prop :=
  Prog.Step (clockEffect pids p)

/-- The code stores to, sends and releases only blocks that the process holds, whatever it is answered. -/
def Careful (pids : PcbRef → Nat) (p : PcbRef) (code : ClockProc Unit) : Prop :=
  ∀ contents, code.Spec (clockEffect pids p) ⟨[], contents⟩ (fun _ => True) fun _ _ _ => True

end DoorRtos
