import DoorRtos.Interrupts

/-! The interleaving of `kernel_delayed_send` calls and iterations of the timer process, with a record of the
    messages accepted and of those passed to `kernel_send_message`. -/

namespace DoorRtos

/-- A message that the timer process has passed to `kernel_send_message`, with the number of the iteration. -/
structure Pass where
  iteration : Nat
  destPid : Nat
  envelope : Addr
  deriving DecidableEq, Repr

/-- A message that `kernel_delayed_send` has accepted after `since` iterations of the timer process. -/
structure Delayed where
  envelope : Addr
  destPid : Nat
  delay : Nat
  since : Nat
  deriving DecidableEq, Repr

namespace Delayed

/-- The number of the iteration in which the message should be passed on. -/
def due (m : Delayed) : Nat := m.since + m.delay

def pass (m : Delayed) : Pass := ⟨m.due, m.destPid, m.envelope⟩

end Delayed

structure Timing where
  kernel : Kernel
  timerCount : Nat
  iterations : Nat
  accepted : List Delayed
  passed : List Pass

inductive TimingEvent where
  | delayedSend (caller : PcbRef) (processID : Nat) (envelope : Addr) (delay : Int)
  | iteration

namespace Timing

def start (k : Kernel) : Timing := ⟨k, 0, 0, [], []⟩

def step (s : Timing) : TimingEvent → Option Timing
  | .delayedSend caller processID envelope delay =>
    match kernelDelayedSend processID envelope delay { s.kernel with currentPcb := caller, inIProcess := false } with
    | .returned (r, k) =>
      if r = rtxSuccess then
        some { s with kernel := k, accepted := s.accepted ++ [⟨envelope, processID, delay.toNat, s.iterations⟩] }
      else some { s with kernel := k }
    | _ => none
  | .iteration =>
    match timerRound s.timerCount { s.kernel with currentPcb := timerPid, inIProcess := true } with
    | .returned (timerCount, passed, k) =>
      some { s with
        kernel := k
        timerCount := timerCount
        iterations := s.iterations + 1
        passed := s.passed ++ passed.map fun x => ⟨s.iterations + 1, x.1, x.2⟩ }
    | _ => none

end Timing
end DoorRtos
