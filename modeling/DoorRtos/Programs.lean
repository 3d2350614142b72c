import DoorRtos.Interaction
import DoorRtos.Primitives

/-! The code of the processes that serve messages: `crt_process.c`, `set_priority_process.c`, `register_command` of
    `kcd_process.c` and the output side of `uart_i_process.c`. Debugging output is left out. -/

namespace DoorRtos
open Interaction

/-! ### What a process asks of the kernel and of the memory -/

abbrev messDataSize : Nat := 128

namespace MessType
def commandRegistration : Nat := 0x20
def crtDisplayRequest : Nat := 0x22
def crtDisplayNoPrompt : Nat := 0x23
end MessType

/-- A received envelope: its address, what the process reads of its header, and the bytes from the data field on. -/
structure Envelope where
  addr : Addr
  senderPid : Nat
  type : Nat
  data : Nat → UInt8

/-- A message of the keyboard process with a text, followed by zeros. -/
def textMessage (addr : Addr) (type : Nat) (text : List UInt8) : Envelope :=
  ⟨addr, kcdPid.val, type, fun i => text.getD i 0⟩

/-- A field of an envelope that a process stores to. -/
inductive Field where
  | type
  | senderPid
  | size
  | data (i : Nat)
  deriving DecidableEq, Repr

/-- The registers of the serial port that are written. -/
inductive Register where
  | serial1Imr
  | serial1Wd
  deriving DecidableEq, Repr

inductive Op where
  | receiveMessage
  | requestMemoryBlock
  | sendMessage (processID : PcbRef) (envelope : Addr)
  | releaseMemoryBlock (memoryBlock : Addr)
  | releaseProcessor
  | setProcessPriority (processID priority : Int)
  | store (envelope : Addr) (field : Field) (value : Nat)
  | write (register : Register) (value : Nat)
  deriving DecidableEq, Repr

/-- `receive_message` may be answered by `NULL`. -/
abbrev Ans : Op → Type
  | .receiveMessage => Option Envelope
  | .requestMemoryBlock => Addr
  | _ => Unit

/-- The code of a process. -/
abbrev Proc (α : Type) := Prog Op Ans α

def receiveMessage : Proc (Option Envelope) := Prog.perform Op.receiveMessage
def requestMemoryBlock : Proc Addr := Prog.perform Op.requestMemoryBlock
def sendMessage (processID : PcbRef) (envelope : Addr) : Proc Unit := Prog.perform (Op.sendMessage processID envelope)
def releaseMemoryBlock (memoryBlock : Addr) : Proc Unit := Prog.perform (Op.releaseMemoryBlock memoryBlock)
def releaseProcessor : Proc Unit := Prog.perform Op.releaseProcessor
def setProcessPriority (processID priority : Int) : Proc Unit := Prog.perform (Op.setProcessPriority processID priority)
def store (envelope : Addr) (field : Field) (value : Nat) : Proc Unit := Prog.perform (Op.store envelope field value)
def write (register : Register) (value : Nat) : Proc Unit := Prog.perform (Op.write register value)

/-- The loops of a process that serves messages, for `n` answers of `receive_message`: it handles and releases every
    message, and when there is none it releases the processor and asks again. -/
def serve (handle : Envelope → Proc Unit) : Nat → Proc Unit
  | 0 => return ()
  | n + 1 => do
    let envIn ← receiveMessage
    match envIn with
    | some envIn =>
      handle envIn
      releaseMemoryBlock envIn.addr
      serve handle n
    | none =>
      releaseProcessor
      serve handle n

/-! ### `crt_process.c` -/

/-- The statements that send one byte to the UART. -/
def putChar (c : Nat) : Proc Unit := do
  let envOut ← requestMemoryBlock
  store envOut (.data 0) c
  sendMessage uartPid envOut
  write .serial1Imr 3

/-- Sends the bytes one by one. -/
def putChars : List Char → Proc Unit
  | [] => return ()
  | c :: cs => do
    putChar c.toNat
    putChars cs

def fancyPrompt : Proc Unit := putChars ['u', '@', 'd', 'o', 'o', 'r', ':', '~', '#', ' ']

/-- The byte `'\r'`. -/
def carriageReturn : UInt8 := 13

/-- One round of the loops over the data. The block requested after the line feed goes nowhere. -/
def displayByte (prompt : Bool) (c : UInt8) : Proc Unit := do
  if c = carriageReturn then
    putChar '\r'.toNat
    putChar '\n'.toNat
    let _ ← requestMemoryBlock
    if prompt then fancyPrompt
  else putChar c.toNat

/-- `while (data[i] != '\0' && i < MESS_DATA_SIZE)`, which goes round at most once for each index, and tests once
    more. -/
def displayFrom (prompt : Bool) (data : Nat → UInt8) : Nat → Nat → Proc Unit
  | 0, _ => return ()
  | n + 1, i => do
    if data i ≠ 0 ∧ i < messDataSize then
      displayByte prompt (data i)
      displayFrom prompt data n (i + 1)

def display (prompt : Bool) (envIn : Envelope) : Proc Unit := displayFrom prompt envIn.data (messDataSize + 1) 0

def crtHandle (envIn : Envelope) : Proc Unit := do
  if envIn.type = MessType.crtDisplayRequest then display true envIn
  else if envIn.type = MessType.crtDisplayNoPrompt then display false envIn

def crtProcess (n : Nat) : Proc Unit := serve crtHandle n

/-! ### The output side of `uart_i_process.c` -/

/-- `while (env_ptr != NULL)`, for at most `n` rounds; what is left after them is still to be output. -/
def uartOutputFrom : Nat → Option Envelope → Proc (Option Envelope)
  | _, none => return none
  | 0, some env => return some env
  | n + 1, some env => do
    write .serial1Wd (env.data 0).toNat
    releaseMemoryBlock env.addr
    let next ← receiveMessage
    write .serial1Imr 2
    uartOutputFrom n next

def uartOutput (n : Nat) : Proc (Option Envelope) := do
  let env ← receiveMessage
  uartOutputFrom n env

/-! ### `set_priority_process.c` -/

def registerCommand (currentPid command : Nat) : Proc Unit := do
  let p ← requestMemoryBlock
  store p .type MessType.commandRegistration
  store p .senderPid currentPid
  store p (.data 0) command
  sendMessage kcdPid p

/-- The conversion of an `int` to a byte. -/
def toByte (n : Int) : Nat := (n % 256).toNat

/-- A byte read through a `CHAR *`. -/
def charAt (data : Nat → UInt8) (i : Nat) : Int := (data i).toInt8.toInt

/-- The text of an error message, up to its `'\0'`. -/
def errorText (inPrio inPid : Int) : List Nat :=
  ['\r', 'E', 'R', 'R', 'R', 'O', 'R', ' ', '%', '(', 'P', 'I', 'D', ':'].map Char.toNat ++
    [toByte ((inPid.tdiv 10).tmod 10 + 0x30), toByte (inPid.tmod 10 + 0x30)] ++
    [' ', 'P', ':'].map Char.toNat ++ [toByte (inPrio.tmod 10 + 0x30)] ++ [')', '\r', '\x00'].map Char.toNat

/-- Stores a text from index `i` on. -/
def storeText (envelope : Addr) : Nat → List Nat → Proc Unit
  | _, [] => return ()
  | i, c :: cs => do
    store envelope (.data i) c
    storeText envelope (i + 1) cs

def errorMessage (envToCrt : Addr) (inPrio inPid : Int) : Proc Unit := do
  storeText envToCrt 0 (errorText inPrio inPid)
  store envToCrt .size 23
  store envToCrt .type MessType.crtDisplayNoPrompt
  sendMessage crtPid envToCrt

namespace Envelope

/-- The two numbers of a command. -/
def inProcess (env : Envelope) : Int := (charAt env.data 2 - 0x30) * 10 + (charAt env.data 3 - 0x30)

def inPriority (env : Envelope) : Int := charAt env.data 5 - 0x30

/-- A message of the keyboard process with a space behind the command. -/
def IsCommand (env : Envelope) : Prop := env.senderPid = kcdPid.val ∧ env.data 1 = 32

instance (env : Envelope) : Decidable env.IsCommand := inferInstanceAs (Decidable (_ ∧ _))

/-- The test of the two numbers of a command; `get_pcb` looks into the process table of `k`. -/
def IsValid (k : Kernel) (env : Envelope) : Prop :=
  0 < env.inProcess ∧ env.inProcess < 100 ∧ env.inPriority < 4 ∧ (getPcb k env.inProcess.toNat).isSome

instance (k : Kernel) (env : Envelope) : Decidable (env.IsValid k) := inferInstanceAs (Decidable (_ ∧ _ ∧ _ ∧ _))

end Envelope

def setPrioHandle (k : Kernel) (envOut : Addr) (envIn : Envelope) : Proc Unit := do
  if envIn.IsCommand then
    if envIn.IsValid k then setProcessPriority envIn.inProcess envIn.inPriority
    else errorMessage envOut envIn.inPriority envIn.inProcess

def setPrioProcess (k : Kernel) (n : Nat) : Proc Unit := do
  registerCommand setPrioPid.val 'C'.toNat
  let envOut ← requestMemoryBlock
  store envOut .type 0
  serve (setPrioHandle k envOut) n

/-! ### Histories -/

/-- The blocks that a process has been given by `request_memory_block`. -/
def requested (h : History Op Ans) : List Addr :=
  h.filterMap fun
    | ⟨.requestMemoryBlock, b⟩ => some b
    | _ => none

/-- The envelopes that it has sent to process `p`. -/
def envelopesTo (p : PcbRef) (h : History Op Ans) : List Addr :=
  h.filterMap fun
    | ⟨.sendMessage q e, _⟩ => if q = p then some e else none
    | _ => none

/-- The blocks that it has released. -/
def released (h : History Op Ans) : List Addr :=
  h.filterMap fun
    | ⟨.releaseMemoryBlock b, _⟩ => some b
    | _ => none

/-- The messages that it has received. -/
def received (h : History Op Ans) : List Envelope :=
  h.filterMap fun
    | ⟨.receiveMessage, x⟩ => x
    | _ => none

/-- The processes and the priorities that it has asked for with `set_process_priority`. -/
def settings (h : History Op Ans) : List (Int × Int) :=
  h.filterMap fun
    | ⟨.setProcessPriority processID priority, _⟩ => some (processID, priority)
    | _ => none

section
variable {h₁ h₂ : History Op Ans}

@[simp] theorem requested_append : requested (h₁ ++ h₂) = requested h₁ ++ requested h₂ := List.filterMap_append

@[simp] theorem envelopesTo_append (p : PcbRef) : envelopesTo p (h₁ ++ h₂) = envelopesTo p h₁ ++ envelopesTo p h₂ :=
  List.filterMap_append

@[simp] theorem released_append : released (h₁ ++ h₂) = released h₁ ++ released h₂ := List.filterMap_append

@[simp] theorem received_append : received (h₁ ++ h₂) = received h₁ ++ received h₂ := List.filterMap_append

@[simp] theorem settings_append : settings (h₁ ++ h₂) = settings h₁ ++ settings h₂ := List.filterMap_append

/-- A property of histories that `serve` keeps when it finds no message, and when it handles one, holds of all of its
    histories. -/
theorem serve_sat {handle : Envelope → Proc Unit} {I : History Op Ans → Prop} (hnil : I [])
    (hnone : ∀ h, I h → I (⟨.receiveMessage, none⟩ :: ⟨.releaseProcessor, ()⟩ :: h))
    (hsome : ∀ env h₁ h₂, (handle env).Does h₁ () → I h₂ →
      I (⟨.receiveMessage, some env⟩ :: (h₁ ++ ⟨.releaseMemoryBlock env.addr, ()⟩ :: h₂)))
    (n : Nat) : (serve handle n).Sat fun h _ => I h := by
  induction n with
  | zero => exact .ret hnil
  | succ n ih =>
    unfold serve receiveMessage
    rw [Prog.perform_bind]
    refine .call fun envIn => ?_
    cases envIn with
    | none => exact .call fun _ => ih.imp fun h _ hI => hnone h hI
    | some env =>
      exact .bind (Q := fun h₁ _ => (handle env).Does h₁ ()) (fun h₁ _ hd => hd) fun h₁ _ hd =>
        .call fun _ => ih.imp fun h₂ _ hI => hsome env h₁ h₂ hd hI

end

end DoorRtos
