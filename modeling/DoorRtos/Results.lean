import DoorRtos.Traps

/-! A process that makes one system call after another and is never taken off the processor: what each wrapper returns
    beside what its primitive computes. -/

namespace DoorRtos

namespace Call

/-- The primitive that serves a call, with the value that it computes. -/
def computes (c : Call) (k : Kernel) : Outcome (Nat × Kernel) :=
  match c with
  | releaseProcessor => do
    let k ← processSwitch k
    return (0, k)
  | sendMessage processID envelope => do
    let envelope ← toPtr envelope
    kernelSendMessage processID envelope k
  | receiveMessage _ => do
    let (e, k) ← kernelReceiveMessage k
    return (toWord e, k)
  | requestMemoryBlock => do
    let (b, k) ← kernelRequestMemoryBlock k
    return (toWord b, k)
  | releaseMemoryBlock memoryBlock => do
    let memoryBlock ← toPtr memoryBlock
    kernelReleaseMemoryBlock memoryBlock k
  | delayedSend processID envelope delay => do
    let envelope ← toPtr envelope
    kernelDelayedSend processID envelope (toInt delay) k
  | setProcessPriority processID priority => kernelSetProcessPriority processID (priority % 2 ^ 8) k
  | getProcessPriority processID => .returned (kernelGetProcessPriority processID k)

end Call

/-- A call that has returned, with the kernel's data before and after it. -/
structure Result where
  call : Call
  before : Kernel
  after : Kernel
  value : Nat

/-- The wrapper returns what the primitive has computed for this call; a priority is reported as set when it has been
    set, and as an error when nothing has changed; and there is no priority of a process that does not exist. -/
structure Result.Faithful (r : Result) : Prop where
  computed : ∃ k, r.call.computes (r.call.enter r.before) = .returned (r.value, k)
  setPriority : ∀ processID priority, r.call = .setProcessPriority processID priority →
    r.value = rtxSuccess ∧ (∃ p, getPcb r.before processID = some p ∧ (r.after.pcbs p).priority = priority % 2 ^ 8) ∨
      r.value = rtxError ∧ r.after.pcbs = r.before.pcbs ∧ r.after.pcbNext = r.before.pcbNext ∧
        r.after.queue = r.before.queue
  getPriority : ∀ processID, r.call = .getProcessPriority processID → (∀ p, r.before.Created p → p.val ≠ processID) →
    r.value = rtxError

structure Service where
  kernel : Kernel
  results : List Result

namespace Service

def start (k : Kernel) : Service := ⟨k, []⟩

/-- A call whose trap returns. -/
def step (s : Service) (c : Call) : Option Service :=
  match swiTrapHandler (c.enter s.kernel) with
  | .returned k => (c.leave k).map fun value => ⟨k, s.results ++ [⟨c, s.kernel, k, value⟩]⟩
  | .switched _ => none
  | .stuck => none

end Service
end DoorRtos
