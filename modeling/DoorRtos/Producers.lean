import DoorRtos.Consumers

/-! The producers and the relays of the stress test: `process_a1.c`, `process_a2.c` and `process_a3.c`, which count once
    they have been sent a command, and `process_b1.c` and `process_b2.c`, which pass everything on. A message that is
    `NULL` is read or sent on all the same, and is not followed. -/

namespace DoorRtos

/-! ### The processes of `u_processes.h` -/

def processA1Pid : PcbRef := ⟨7, by decide⟩
def processB1Pid : PcbRef := ⟨8, by decide⟩
def processC1Pid : PcbRef := ⟨9, by decide⟩
def processA2Pid : PcbRef := ⟨10, by decide⟩
def processB2Pid : PcbRef := ⟨11, by decide⟩
def processC2Pid : PcbRef := ⟨12, by decide⟩
def processA3Pid : PcbRef := ⟨13, by decide⟩

/-! ### The producers -/

/-- The first loop, for at most `n` messages: every message is released, and the command ends the loop. -/
def awaitCommand (command : Char) : Nat → Proc Bool
  | 0 => return false
  | n + 1 => do
    let p ← receiveMessage
    match p with
    | none => return false
    | some p =>
      if (p.data 0).toNat = command.toNat then
        releaseMemoryBlock p.addr
        return true
      else
        releaseMemoryBlock p.addr
        awaitCommand command n

/-- The four bytes of a word, the highest first. -/
def wordBytes (num : UInt32) : List Nat :=
  [num.toNat / 2 ^ 24 % 256, num.toNat / 2 ^ 16 % 256, num.toNat / 2 ^ 8 % 256, num.toNat % 256]

/-- The second loop, for `n` messages. -/
def countReports (processID : PcbRef) : Nat → UInt32 → Proc Unit
  | 0, _ => return ()
  | n + 1, num => do
    let p ← requestMemoryBlock
    store p .type MessType.countReport
    storeText p 0 (wordBytes num)
    sendMessage processID p
    releaseProcessor
    countReports processID n (num + 1)

/-- The process with the number `currentPid`, for at most `m` messages before the command and `n` behind it. The first
    block goes nowhere. -/
def producer (currentPid : Nat) (command : Char) (processID : PcbRef) (m n : Nat) : Proc Unit := do
  let _ ← requestMemoryBlock
  registerCommand currentPid command.toNat
  let commanded ← awaitCommand command m
  if commanded then countReports processID n 0

def processA1 : Nat → Nat → Proc Unit := producer processA1Pid.val 'X' processB1Pid

def processA2 : Nat → Nat → Proc Unit := producer processA2Pid.val 'Y' processB2Pid

def processA3 : Nat → Nat → Proc Unit := producer processA3Pid.val 'Z' processB2Pid

/-! ### The relays -/

def relay (processID : PcbRef) : Nat → Proc Unit
  | 0 => return ()
  | n + 1 => do
    let mymess ← receiveMessage
    match mymess with
    | none => return ()
    | some mymess =>
      sendMessage processID mymess.addr
      relay processID n

def processB1 : Nat → Proc Unit := relay processC1Pid

def processB2 : Nat → Proc Unit := relay processC2Pid

/-- The number of a report. -/
def Envelope.report (env : Envelope) : Option UInt32 :=
  if env.type = MessType.countReport then some (wordAt env.data) else none

end DoorRtos
