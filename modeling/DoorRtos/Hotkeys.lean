import DoorRtos.Keyboard
import DoorRtos.Strings

/-! The input side of `uart_i_process.c`: a received character is a hotkey, perhaps, and goes to the keyboard process. -/

namespace DoorRtos

/-- A store through `NULL`, or anything else that C gives no meaning to. -/
inductive Fault where
  | nullWrite
  | stuck
  deriving DecidableEq, Repr

/-- What the processes store in an envelope. -/
structure Content where
  type : Nat
  data : Nat → UInt8

/-- The kernel's data while the interrupt process runs, the envelopes, and the two arrays of `IntToStr`. -/
structure Uart where
  kernel : Kernel
  contents : Addr → Content
  stringHolder : Nat → UInt8
  stringHolderTemp : Nat → UInt8

/-- The characters of a string constant. -/
def literal (string : String) : Nat → UInt8 := fun i => (string.toList.map fun c => UInt8.ofNat c.toNat).getD i 0

namespace Uart

/-! ### The kernel -/

/-- An interrupt process is not left for another one. -/
def returned {α : Type} : Outcome α → Except Fault α
  | .returned a => .ok a
  | _ => .error .stuck

def requestMemoryBlock (s : Uart) : Except Fault (Option Addr × Uart) := do
  let (b, k) ← returned (kernelRequestMemoryBlock s.kernel)
  return (b, { s with kernel := k })

def sendMessage (processID : PcbRef) (envelope : Addr) (s : Uart) : Except Fault Uart := do
  let (_, k) ← returned (kernelSendMessage processID.val envelope s.kernel)
  return { s with kernel := k }

/-- Reads a field of the PCB that the pointer points to. -/
def pcbOf (p : Option PcbRef) : Except Fault PcbRef :=
  match p with
  | none => .error .stuck
  | some p => .ok p

/-! ### The hotkeys -/

/-- `uart_print_string` and `uart_print_integer`: a text for the CRT process. The block is not tested for `NULL`
    before its `type` is stored. -/
def uartPrint (string : Uart → Option ((Nat → UInt8) × Uart)) (s : Uart) : Except Fault Uart := do
  let (q, s) ← s.requestMemoryBlock
  match q with
  | none => .error .nullWrite
  | some q =>
    match string s with
    | none => .error .stuck
    | some (string, s) =>
      let data := (strncpyTraced (s.contents q).data string messDataSize).2
      let contents := Function.update s.contents q ⟨MessType.crtDisplayNoPrompt, data⟩
      sendMessage crtPid q { s with contents := contents }

def uartPrintString (string : String) : Uart → Except Fault Uart := uartPrint fun s => some (literal string, s)

def uartPrintInteger (num : Nat) : Uart → Except Fault Uart := uartPrint fun s =>
  (intToStr s.stringHolder s.stringHolderTemp (UInt32.ofNat num)).map fun r =>
    (r.1, { s with stringHolder := r.1, stringHolderTemp := r.2 })

def printPcbInfos (pcb : Option PcbRef) (s : Uart) : Except Fault Uart := do
  let s ← uartPrintString "PID " s
  let p ← pcbOf pcb
  let s ← uartPrintInteger (s.kernel.pcbs p).pid s
  let s ← uartPrintString "  |  PRIORITY : " s
  let s ← uartPrintInteger (s.kernel.pcbs p).priority s
  uartPrintString "\r" s

/-- `while (seekpcb != tail)`, and the last PCB. A walk over more PCBs than there are does not end. -/
def printPcbs (w : QueueId) (i : Level) : Nat → Option PcbRef → Uart → Except Fault Uart
  | 0, _, _ => .error .stuck
  | n + 1, seekpcb, s =>
    if seekpcb ≠ (s.kernel.sub (w, i)).tail then do
      let s ← printPcbInfos seekpcb s
      let p ← pcbOf seekpcb
      printPcbs w i n (s.kernel.pcbNext p) s
    else printPcbInfos seekpcb s

/-- One round of the loop over the subqueues. -/
def printSubqueue (w : QueueId) (isEmptyText : String) (s : Uart) (i : Level) : Except Fault Uart := do
  let q := s.kernel.sub (w, i)
  if q.head = none ∧ q.tail = none then
    let s ← uartPrintString "QUEUE " s
    let s ← uartPrintInteger i.val s
    uartPrintString isEmptyText s
  else printPcbs w i maxProcesses q.head s

def printQueue (w : QueueId) (isEmptyText : String) (s : Uart) : Except Fault Uart :=
  (List.finRange (numPrio + 1)).foldlM (printSubqueue w isEmptyText) s

def printReadyQueue : Uart → Except Fault Uart := printQueue .ready "IS EMPTY\r"

def printMemoryQueue : Uart → Except Fault Uart := printQueue .memoryWait " IS EMPTY\n\r"

def parseHotkey (recv : UInt8) (s : Uart) : Except Fault Uart :=
  if recv.toNat = 'Q'.toNat then printReadyQueue s
  else if recv.toNat = 'M'.toNat then printMemoryQueue s
  else .ok s

/-! ### The character -/

/-- The part of `uart_i_process` under `if (temp & 1)`. -/
def handleCharacter (recv : UInt8) (s : Uart) : Except Fault Uart := do
  let s ← parseHotkey recv s
  let (envPtr, s) ← s.requestMemoryBlock
  match envPtr with
  | none => return s
  | some envPtr =>
    let data := Function.update (Function.update (s.contents envPtr).data 0 recv) 1 0
    let contents := Function.update s.contents envPtr ⟨MessType.keyboardInput, data⟩
    sendMessage kcdPid envPtr { s with contents := contents }

end Uart
end DoorRtos
