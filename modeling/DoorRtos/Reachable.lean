import DoorRtos.Interrupts

/-! Everything that may be done to the kernel's data once `start_scheduler` has resumed the first process. The timer
    process works on them without a trap. The parts of its round may come in any order here, and an interrupt at any
    time. -/

namespace DoorRtos
open Linked

inductive Deed where
  | call (c : Call)
  | receiveAgain
  | interrupt (i : Interrupt)
  | timerReceive
  | timerInsert (e : Addr)
  | timerTake
  | timerSend (processID : Nat) (e : Addr)

namespace Deed

/-- The kernel's data after a deed, unless the code gets stuck in it. -/
def after (k : Kernel) : Deed → Option Kernel
  | call c => (swiTrapHandler (c.enter k)).kernel?
  -- The loop of the wrapper `receive_message` traps once more.
  | receiveAgain => (swiTrapHandler { k with kernelCode := KernelCode.receiveMessage }).kernel?
  | interrupt i => (i.handler k).kernel?
  | timerReceive => (kernelReceiveMessage k).last.map fun k => { k with msgReturn := false }
  | timerInsert e => (DoorRtos.timerInsert e k).kernel?
  | timerTake => some { k with delayedSendQueue := (dequeueMessageLIFO k.messNext k.delayedSendQueue).2 }
  | timerSend processID e => (kernelSendMessage processID e k).last

end Deed
end DoorRtos
