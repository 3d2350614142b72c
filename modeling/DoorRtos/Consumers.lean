import DoorRtos.Hotkeys

/-! The consumers of the stress test, `process_c1.c` and `process_c2.c`, statement by statement. At a report whose number
    is divisible by 20 a consumer delays a message to itself, and sets aside in a local queue the reports that come before
    that message is back. Debugging output is left out. -/

namespace DoorRtos
open Linked

namespace MessType
def countReport : Nat := 0x10
def wakeup10 : Nat := 0x11
end MessType

/-- `*(UINT32 *) data`, the highest byte first. -/
def wordAt (data : Nat → UInt8) : UInt32 :=
  UInt32.ofNat ((((data 0).toNat * 256 + (data 1).toNat) * 256 + (data 2).toNat) * 256 + (data 3).toNat)

/-- A `COUNT_REPORT` message and its number. -/
structure Report where
  envelope : Addr
  num : UInt32
  deriving DecidableEq, Repr

namespace Report

def Twentieth (r : Report) : Prop := r.num % 20 = 0

instance (r : Report) : Decidable r.Twentieth := inferInstanceAs (Decidable (_ = _))

end Report

/-- The local queue of a consumer, the messages of its mailbox, the oldest first, and those it has delayed, and a record:
    the blocks that it has obtained and given away, the reports that have arrived and those that it has examined. -/
structure Consumer where
  queue : MessagesQueue
  messNext : Links Addr
  contents : Addr → Content
  mailbox : List Addr
  delayed : List Addr
  obtained : List Addr
  given : List Addr
  arrived : List Report
  examined : List Report

namespace Consumer

def start (messNext : Links Addr) (contents : Addr → Content) : Consumer :=
  ⟨initMsgQueue, messNext, contents, [], [], [], [], [], []⟩

/-- The block has been obtained more often than given away, or is on the way to the consumer. -/
def InUse (s : Consumer) (a : Addr) : Prop := a ∈ s.mailbox ∨ a ∈ s.delayed ∨ s.given.count a < s.obtained.count a

instance (s : Consumer) (a : Addr) : Decidable (s.InUse a) := inferInstanceAs (Decidable (_ ∨ _ ∨ _))

/-! ### The surroundings -/

/-- A report arrives in the mailbox, in a block of its own. -/
def arrive (envelope : Addr) (data : Nat → UInt8) (s : Consumer) : Option Consumer :=
  if s.InUse envelope then none
  else some { s with
    contents := Function.update s.contents envelope ⟨MessType.countReport, data⟩
    mailbox := s.mailbox ++ [envelope]
    arrived := s.arrived ++ [⟨envelope, wordAt data⟩] }

/-- A delayed message arrives in the mailbox. -/
def expire (s : Consumer) : Option Consumer :=
  match s.delayed with
  | [] => none
  | a :: delayed => some { s with delayed := delayed, mailbox := s.mailbox ++ [a] }

/-- `request_memory_block` is answered by a block that nobody holds. -/
def grant (block : Addr) (s : Consumer) : Option Consumer :=
  if s.InUse block then none else some { s with obtained := s.obtained ++ [block] }

/-- `receive_message (NULL)`, which waits while the mailbox is empty. -/
def receive (s : Consumer) : Option (Addr × Consumer) :=
  match s.mailbox with
  | [] => none
  | a :: mailbox => some (a, { s with mailbox := mailbox, obtained := s.obtained ++ [a] })

/-- `release_memory_block`, or a message to another process. -/
def give (a : Addr) (s : Consumer) : Consumer := { s with given := s.given ++ [a] }

/-- `delayed_send (current_pcb->pid, a, delay)` -/
def delayedSend (a : Addr) (s : Consumer) : Consumer := { s.give a with delayed := s.delayed ++ [a] }

/-! ### The memory -/

def setType (a : Addr) (type : Nat) (s : Consumer) : Consumer :=
  { s with contents := Function.update s.contents a { s.contents a with type := type } }

/-- The stores of `uart_print_string`. -/
def fill (a : Addr) (string : String) (s : Consumer) : Consumer :=
  let data := (strncpyTraced (s.contents a).data (literal string) messDataSize).2
  { s with contents := Function.update s.contents a ⟨MessType.crtDisplayNoPrompt, data⟩ }

def enqueue (a : Addr) (s : Consumer) : Consumer :=
  let r := enqueueMessage s.messNext s.queue a
  { s with messNext := r.1, queue := r.2 }

def dequeue (s : Consumer) : Option (Option Addr × Consumer) :=
  (dequeueMessageFIFO s.messNext s.queue).map fun r => (r.1, { s with messNext := r.2.1, queue := r.2.2 })

/-- The message that the outer loop goes on with: from the local queue, or from the mailbox when that is empty. -/
def take (s : Consumer) : Option (Option Addr × Consumer) :=
  if isMsgqEmpty s.queue then s.receive.map fun r => (some r.1, r.2) else s.dequeue

/-- `num = *(UINT32 *) (p->data)`, for the test `num % 20`. -/
def examine (a : Addr) (s : Consumer) : Consumer :=
  { s with examined := s.examined ++ [⟨a, wordAt (s.contents a).data⟩] }

/-! ### What is still referenced -/

/-- A variable or the local queue leads to the block. -/
def References (s : Consumer) (pointers : List (Option Addr)) (a : Addr) : Prop :=
  some a ∈ pointers ∨ Reaches s.messNext s.queue.head a

/-- Every block has been given away as often as it has been obtained, or once less, and then it is referenced. -/
def Accounted (s : Consumer) (pointers : List (Option Addr)) : Prop :=
  ∀ a, s.given.count a = s.obtained.count a ∨
    s.obtained.count a = s.given.count a + 1 ∧ s.References pointers a

end Consumer

/-- A report arrives, a delayed message does, a request for a block is answered, or the consumer goes on by
    one statement. -/
inductive ConsumerEvent where
  | report (envelope : Addr) (data : Nat → UInt8)
  | wakeup
  | grant (block : Addr)
  | run

def ConsumerEvent.isReport : ConsumerEvent → Bool
  | .report _ _ => true
  | _ => false

/-- A step of a consumer with these requests and statements. What arrives concerns only the part that both
    consumers have. -/
def Consumer.stepOf {σ : Type} (consumer : σ → Consumer) (put : Consumer → σ → σ) (request : Addr → σ → Option σ)
    (run : σ → Option σ) (s : σ) : ConsumerEvent → Option σ
  | .report envelope data => ((consumer s).arrive envelope data).map fun w => put w s
  | .wakeup => (consumer s).expire.map fun w => put w s
  | .grant block => request block s
  | .run => run s

/-! ### `process_c1.c` -/

/-- The statement that comes next. -/
inductive C1Pc where
  | take          -- `p = receive_message (NULL)` or `p = dequeueMessageFIFO (msg_queue_c1)`
  | test          -- `if (p->type == COUNT_REPORT)` and `if (!(num % 20))`
  | request       -- `q = (mess *) request_memory_block ()`
  | printRequest  -- `q = (mess*) request_memory_block()` in `uart_print_string`
  | printSend     -- the rest of `uart_print_string`
  | setType       -- `p->type = WAKEUP10`
  | delay         -- `delayed_send (current_pcb->pid, p, 100)`
  | wait          -- `p = receive_message (NULL)`
  | sort          -- `if (p->type == WAKEUP10)` with the `break` and `enqueue_message (msg_queue_c1, p)`
  | release       -- `release_memory_block (p)`
  | yield         -- `release_processor ()`
  deriving DecidableEq, Repr

/-- The variable `q` of `uart_print_string` is `text`. -/
structure C1 extends Consumer where
  pc : C1Pc
  p : Option Addr
  q : Option Addr
  text : Option Addr

namespace C1

def start (messNext : Links Addr) (contents : Addr → Content) : C1 :=
  { Consumer.start messNext contents with pc := .take, p := none, q := none, text := none }

def pointers (s : C1) : List (Option Addr) := [s.p, s.q, s.text]

def request (block : Addr) (s : C1) : Option C1 :=
  match s.pc with
  | .request => (s.toConsumer.grant block).map fun w => { s with toConsumer := w, q := some block, pc := .printRequest }
  | .printRequest => (s.toConsumer.grant block).map fun w =>
    { s with toConsumer := w, text := some block, pc := .printSend }
  | _ => none

def run (s : C1) : Option C1 :=
  match s.pc with
  | .take => do
    let r ← s.toConsumer.take
    return { s with toConsumer := r.2, p := r.1, pc := .test }
  | .test => do
    let p ← s.p
    if (s.contents p).type = MessType.countReport then
      let num := wordAt (s.contents p).data
      return { s with toConsumer := s.examine p, pc := if num % 20 = 0 then .request else .release }
    else return { s with pc := .release }
  | .printSend => do
    let text ← s.text
    return { s with toConsumer := (s.fill text "Process C\r").give text, text := none, pc := .setType }
  | .setType => do
    let p ← s.p
    return { s with toConsumer := s.toConsumer.setType p MessType.wakeup10, pc := .delay }
  | .delay => do
    let p ← s.p
    return { s with toConsumer := s.delayedSend p, pc := .wait }
  | .wait => do
    let r ← s.receive
    return { s with toConsumer := r.2, p := some r.1, pc := .sort }
  | .sort => do
    let p ← s.p
    if (s.contents p).type = MessType.wakeup10 then return { s with pc := .release }
    else return { s with toConsumer := s.enqueue p, pc := .wait }
  | .release => do
    let p ← s.p
    return { s with toConsumer := s.give p, pc := .yield }
  | .yield => some { s with pc := .take }
  | .request | .printRequest => none

def step : C1 → ConsumerEvent → Option C1 := Consumer.stepOf toConsumer (fun w s => { s with toConsumer := w }) request run

end C1

/-! ### `process_c2.c` -/

/-- The statement that comes next. -/
inductive C2Pc where
  | request       -- `q = (mess *) request_memory_block ()`
  | take          -- `p = receive_message (NULL)` or `p = dequeueMessageFIFO (msg_queue_c2)`, and `free = TRUE`
  | test          -- `if (p->type == COUNT_REPORT)` and `if ((num % 20) == 0)`
  | printRequest  -- `q = (mess*) request_memory_block()` in `uart_print_string`
  | printSend     -- the rest of `uart_print_string`
  | setType       -- `free = FALSE` and `q->type = WAKEUP10`
  | delay         -- `delayed_send (current_pcb->pid, q, 10 * DELAY_1SEC)`
  | wait          -- `q = receive_message (NULL)`
  | sort          -- `if (q->type == WAKEUP10)` with the `break` and `enqueue_message (msg_queue_c2, q)`
  | release       -- `if (free)` and `release_memory_block (p)`
  deriving DecidableEq, Repr

/-- The variable `q` of `uart_print_string` is `text`. -/
structure C2 extends Consumer where
  pc : C2Pc
  p : Option Addr
  q : Option Addr
  text : Option Addr
  free : Bool

namespace C2

def start (messNext : Links Addr) (contents : Addr → Content) : C2 :=
  { Consumer.start messNext contents with pc := .request, p := none, q := none, text := none, free := false }

def pointers (s : C2) : List (Option Addr) := [s.p, s.q, s.text]

def request (block : Addr) (s : C2) : Option C2 :=
  match s.pc with
  | .request => (s.toConsumer.grant block).map fun w => { s with toConsumer := w, q := some block, pc := .take }
  | .printRequest => (s.toConsumer.grant block).map fun w =>
    { s with toConsumer := w, text := some block, pc := .printSend }
  | _ => none

def run (s : C2) : Option C2 :=
  match s.pc with
  | .take => do
    let r ← s.toConsumer.take
    return { s with toConsumer := r.2, p := r.1, free := true, pc := .test }
  | .test => do
    let p ← s.p
    if (s.contents p).type = MessType.countReport then
      let num := wordAt (s.contents p).data
      return { s with toConsumer := s.examine p, pc := if num % 20 = 0 then .printRequest else .release }
    else return { s with pc := .release }
  | .printSend => do
    let text ← s.text
    return { s with toConsumer := (s.fill text "Process C2").give text, text := none, pc := .setType }
  | .setType => do
    let q ← s.q
    return { s with toConsumer := s.toConsumer.setType q MessType.wakeup10, free := false, pc := .delay }
  | .delay => do
    let q ← s.q
    return { s with toConsumer := s.delayedSend q, pc := .wait }
  | .wait => do
    let r ← s.receive
    return { s with toConsumer := r.2, q := some r.1, pc := .sort }
  | .sort => do
    let q ← s.q
    if (s.contents q).type = MessType.wakeup10 then return { s with pc := .release }
    else return { s with toConsumer := s.enqueue q, pc := .wait }
  | .release =>
    if s.free then do
      let p ← s.p
      return { s with toConsumer := s.give p, pc := .take }
    else some { s with pc := .take }
  | .request | .printRequest => none

def step : C2 → ConsumerEvent → Option C2 := Consumer.stepOf toConsumer (fun w s => { s with toConsumer := w }) request run

end C2
end DoorRtos
