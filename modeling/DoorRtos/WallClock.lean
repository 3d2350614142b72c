import DoorRtos.Boot
import DoorRtos.Delta
import DoorRtos.Programs

/-! The wall clock process of `wall_clock_process.c`, and its delayed messages to itself. -/

namespace DoorRtos
open Interaction

/-! ### What it asks of the kernel -/

/-- The calls of the other processes, and `delayed_send`. -/
inductive ClockOp where
  | basic (op : Op)
  | delayedSend (processID : PcbRef) (envelope : Addr) (delay : Int)
  deriving DecidableEq, Repr

abbrev ClockAns : ClockOp → Type
  | .basic op => Ans op
  | .delayedSend _ _ _ => Unit

abbrev ClockProc (α : Type) := Prog ClockOp ClockAns α

instance : MonadLift Proc ClockProc where
  monadLift p := p.hoist ClockOp.basic fun _ x => x

def delayedSend (processID : PcbRef) (envelope : Addr) (delay : Int) : ClockProc Unit :=
  Prog.perform (ClockOp.delayedSend processID envelope delay)

/-! ### The process -/

/-- The local variables `hour`, `min`, `sec` and `wall_clock_on`. -/
structure Clock where
  hour : Int
  min : Int
  sec : Int
  wallClockOn : Bool
  deriving DecidableEq, Repr

/-- The two characters of a number below 100. -/
def digits (n : Int) : List Nat := [toByte ((n.tdiv 10).tmod 10 + 0x30), toByte (n.tmod 10 + 0x30)]

/-- The text that `output_clock` writes, up to its `'\0'`. -/
def clockText (outHour outMin outSec : Int) : List Nat :=
  ['\r'.toNat] ++ digits outHour ++ [':'.toNat] ++ digits outMin ++ [':'.toNat] ++ digits outSec ++ ['\r'.toNat, 0]

def outputClock (envToCrt : Addr) (outHour outMin outSec : Int) : Proc Unit := do
  storeText envToCrt 0 (clockText outHour outMin outSec)
  store envToCrt .size 11
  store envToCrt .type MessType.crtDisplayNoPrompt
  sendMessage crtPid envToCrt

namespace Envelope

/-- A message of the keyboard process with the letter `c` behind the `W`. -/
def Asks (env : Envelope) (c : Char) : Prop := env.senderPid = kcdPid.val ∧ (env.data 1).toNat = c.toNat

instance (env : Envelope) (c : Char) : Decidable (env.Asks c) := inferInstanceAs (Decidable (_ ∧ _))

/-- The three numbers of a set command. -/
def inHour (env : Envelope) : Int := (charAt env.data 2 - 0x30) * 10 + (charAt env.data 3 - 0x30)

def inMin (env : Envelope) : Int := (charAt env.data 5 - 0x30) * 10 + (charAt env.data 6 - 0x30)

def inSec (env : Envelope) : Int := (charAt env.data 8 - 0x30) * 10 + (charAt env.data 9 - 0x30)

/-- The test of the three numbers. Its last comparison is one with the minutes. -/
def IsTime (env : Envelope) : Prop :=
  (0 ≤ env.inHour ∧ env.inHour < 24) ∧ (0 ≤ env.inMin ∧ env.inMin < 60) ∧ (0 ≤ env.inSec ∧ env.inMin < 60)

instance (env : Envelope) : Decidable env.IsTime := inferInstanceAs (Decidable (_ ∧ _ ∧ _))

end Envelope

namespace Clock

def start : Clock := ⟨0, 0, 0, false⟩

def increment (s : Clock) : Clock :=
  let sec := s.sec + 1
  if sec ≥ 60 then
    let min := s.min + 1
    if min ≥ 60 then
      let hour := s.hour + 1
      if hour ≥ 24 then { s with hour := 0, min := 0, sec := 0 }
      else { s with hour := hour, min := 0, sec := 0 }
    else { s with min := min, sec := 0 }
  else { s with sec := sec }

end Clock

/-- A round of the inner loop: what is done with a message that has been received. -/
def clockHandle (s : Clock) (envIn : Envelope) : ClockProc Clock := do
  if envIn.Asks 'S' then
    if envIn.IsTime then
      let s := { s with hour := envIn.inHour, min := envIn.inMin, sec := envIn.inSec }
      let envOut ← requestMemoryBlock
      store envOut .type 0
      outputClock envOut s.hour s.min s.sec
      let envOut ← requestMemoryBlock
      store envOut .type 0
      let s := { s with wallClockOn := true }
      delayedSend wcPid envOut 100
      return s
    else return s
  else if envIn.Asks 'C' then
    let envOut ← requestMemoryBlock
    outputClock envOut s.hour s.min s.sec
    return s
  else if envIn.Asks 'T' then
    return { s with wallClockOn := false }
  else if envIn.senderPid = timerPid.val ∧ s.wallClockOn then
    let s := s.increment
    let envOut ← requestMemoryBlock
    outputClock envOut s.hour s.min s.sec
    let envOut ← requestMemoryBlock
    store envOut .type 0
    delayedSend wcPid envOut 100
    return s
  else return s

/-- The two loops, for `n` answers of `receive_message`. -/
def wallClockLoop : Nat → Clock → ClockProc Clock
  | 0, s => return s
  | n + 1, s => do
    let envIn ← receiveMessage
    match envIn with
    | some envIn =>
      let s ← clockHandle s envIn
      releaseMemoryBlock envIn.addr
      wallClockLoop n s
    | none =>
      releaseProcessor
      wallClockLoop n s

def wallClockProcess (n : Nat) : ClockProc Clock := do
  registerCommand wcPid.val 'W'.toNat
  let envOut ← requestMemoryBlock
  store envOut .type 0
  wallClockLoop n .start

/-! ### Histories -/

/-- The calls that other processes make as well. -/
def basics (h : History ClockOp ClockAns) : History Op Ans :=
  h.filterMap fun
    | ⟨.basic op, x⟩ => some ⟨op, x⟩
    | ⟨.delayedSend _ _ _, _⟩ => none

/-- The delays of the delayed messages. -/
def delays (h : History ClockOp ClockAns) : List Int :=
  h.filterMap fun
    | ⟨.delayedSend _ _ delay, _⟩ => some delay
    | _ => none

/-- What has been stored in the envelopes, and the texts of those that have gone to the CRT process. -/
structure Sheet where
  data : Addr → Nat → Nat
  size : Addr → Nat
  texts : List (List Nat)

def Sheet.note (m : Sheet) : Interaction.Event Op Ans → Sheet
  | ⟨.store b (.data i) value, _⟩ => { m with data := Function.update m.data b (Function.update (m.data b) i value) }
  | ⟨.store b .size value, _⟩ => { m with size := Function.update m.size b value }
  | ⟨.sendMessage p b, _⟩ =>
    if p = crtPid then { m with texts := m.texts ++ [(List.range (m.size b)).map (m.data b)] } else m
  | _ => m

def textsShown (h : History Op Ans) : List (List Nat) := (h.foldl Sheet.note ⟨fun _ _ => 0, fun _ => 0, []⟩).texts

/-! ### Its messages to itself -/

/-- Surroundings that answer every call. Which block a request is given does not matter here. -/
def clockReply : (op : ClockOp) → Unit → ClockAns op × Unit
  | .basic .receiveMessage, _ => (none, ())
  | .basic .requestMemoryBlock, _ => (firstBlock, ())
  | .basic (.sendMessage _ _), _ => ((), ())
  | .basic (.releaseMemoryBlock _), _ => ((), ())
  | .basic .releaseProcessor, _ => ((), ())
  | .basic (.setProcessPriority _ _), _ => ((), ())
  | .basic (.store _ _ _), _ => ((), ())
  | .basic (.write _ _), _ => ((), ())
  | .delayedSend _ _ _, _ => ((), ())

/-- The wall clock process with the timer process. `delta` is the delta list, with `true` for the messages of the wall
    clock process and `false` for those of other processes, and `mailbox` the messages of the wall clock process that have
    been passed on and not yet received. A message that has been passed on is represented by the number of the iteration of
    the timer process. `advances` tells, for every time that the clock has advanced, the iteration in which the message was
    passed on and the one in which the clock has handled it, and `ahead` how far `timer_count` had run on the way to 100
    when the clock advanced and sent its last message. -/
structure Ticker where
  clock : Clock
  delta : List (Bool × Nat)
  timerCount : Nat
  iterations : Nat
  mailbox : List Nat
  advances : List (Nat × Nat)
  ahead : Nat

/-- The process handles a command of the keyboard process or the oldest message of the timer process, another process
    sends itself a delayed message, or the timer process makes an iteration. -/
inductive TickerEvent where
  | command (env : Envelope)
  | timerMessage (env : Envelope)
  | other (delay : Nat)
  | iteration

namespace Ticker

def start : Ticker := ⟨.start, [], 0, 0, [], [], 0⟩

def outstanding (t : Ticker) : Nat := (t.delta.map Prod.fst).count true + t.mailbox.length

/-- How far `timer_count` has run on the way to 100 when a message makes the clock advance; a set command begins anew. -/
def lead (t : Ticker) (env : Envelope) : Nat :=
  if env.senderPid = timerPid.val ∧ t.timerCount < 100 then t.timerCount else 0

/-- A message is handled, and the delayed messages go into the delta list. -/
def handle (t : Ticker) (env : Envelope) : Ticker :=
  let r := (clockHandle t.clock env).answered clockReply ()
  { t with
    clock := r.2
    delta := (delays r.1).foldl (fun l delay => Delta.insert true delay.toNat l) t.delta
    ahead := if delays r.1 = [] then t.ahead else t.lead env }

def step (t : Ticker) : TickerEvent → Option Ticker
  | .command env => if env.senderPid = kcdPid.val then some (t.handle env) else none
  | .timerMessage env =>
    match t.mailbox with
    | [] => none
    | passed :: rest =>
      if env.senderPid = timerPid.val then
        some { ({ t with mailbox := rest }).handle env with
          advances := if t.clock.wallClockOn then t.advances ++ [(passed, t.iterations)] else t.advances }
      else none
  | .other delay => if 0 < delay then some { t with delta := Delta.insert false delay t.delta } else none
  | .iteration =>
    let (passed, timerCount, delta) := Delta.tick (2 ^ 32) t.timerCount t.delta
    some { t with
      delta := delta
      timerCount := timerCount
      iterations := t.iterations + 1
      mailbox := t.mailbox ++ (passed.filter id).map fun _ => t.iterations + 1 }

end Ticker
end DoorRtos
