import DoorRtos.Theorems.Delayed
import DoorRtos.Theorems.Endings

/-! What a system call does to the mailboxes, to the delayed messages and to the free blocks, apart from what it
    does to the processes. -/

namespace DoorRtos
open Linked

/-- What `kernel_send_message` does to the messages. -/
def Sends (k : Kernel) (pid : Nat) (e : Addr) (k₁ : Kernel) : Prop :=
  getPcb k pid = none ∧ k₁ = k.setMess e { k.mess e with senderPid := k.current.pid, destPid := pid } ∨
    ∃ d mq, getPcb k pid = some d ∧ (k.pcbs d).messQueue = some mq ∧ k₁ = k.delivered pid e mq

/-- What a call does to the messages and the blocks, but for those that take one. -/
def Stores (k : Kernel) (c : Call) (k₁ : Kernel) : Prop :=
  match c with
  | .sendMessage processID envelope => ∃ e, toPtr envelope = some e ∧ Sends k processID e k₁
  | .delayedSend processID envelope delay => ∃ e, toPtr envelope = some e ∧
      (toInt delay < 0 ∧ k₁ = k.marked processID e ∨ toInt delay = 0 ∧ Sends (k.marked processID e) processID e k₁ ∨
        0 < toInt delay ∧ ∃ r, kernelDelayedSend processID e (toInt delay) k = .returned (r, k₁))
  | .releaseMemoryBlock memoryBlock => ∃ b, toPtr memoryBlock = some b ∧ k₁ = k.freed b
  | .requestMemoryBlock | .receiveMessage _ => False
  | .releaseProcessor | .setProcessPriority _ _ | .getProcessPriority _ => k₁ = k

section
variable {k k' k₁ : Kernel} {α β : Type} {pid n : Nat} {e b : Addr} {c : Call}

theorem Rescheduled.retCode (k : Kernel) (r : Nat) : Rescheduled k { k with retCode := r } :=
  ⟨fun _ => rfl, fun _ => rfl, rfl, rfl, rfl, rfl, rfl, rfl, id⟩

theorem processSwitch_result {a : α} (hs : (processSwitch k >>= fun k => Outcome.returned (a, k)).last = some k') :
    Rescheduled k k' := by
  rw [Outcome.last_bind] at hs
  exact processSwitch_rescheduled hs

theorem kernelSendMessage_stores (hs : (kernelSendMessage pid e k).last = some k') :
    ∃ k₁, Sends k pid e k₁ ∧ Rescheduled k₁ k' := by
  rcases kernelSendMessage_cases pid e k with ⟨hd, ho⟩ |
      ⟨d, mq, hd, hmq, ⟨-, ho⟩ | ⟨hst, k₁, source, hput, hsrc, ho⟩⟩ | ho <;>
    rw [ho] at hs
  · cases hs
    exact ⟨_, Or.inl ⟨hd, rfl⟩, .refl _⟩
  · cases hs
    exact ⟨_, Or.inr ⟨d, mq, hd, hmq, rfl⟩, .refl _⟩
  · refine ⟨_, Or.inr ⟨d, mq, hd, hmq, rfl⟩, ?_⟩
    have hwake := (Rescheduled.setState (k.delivered pid e mq) d .ready).trans (enqueuePCBByPriority_rescheduled hput)
    split at hs
    · rcases htake : dequeuePCBFIFOByPriority .ready k₁ with _ | ⟨_ | p, k₂⟩ <;> rw [htake] at hs
      · cases hs
      · cases hs
      · cases hs
        exact (hwake.trans (dequeuePCBFIFOByPriority_rescheduled htake)).trans (.switchTo k₂ p)
    · cases hs
      exact hwake
  · cases hs

theorem kernelDelayedSend_stores {delay : Int} (hs : (kernelDelayedSend pid e delay k).last = some k') :
    ∃ k₁, (delay < 0 ∧ k₁ = k.marked pid e ∨ delay = 0 ∧ Sends (k.marked pid e) pid e k₁ ∨
      0 < delay ∧ ∃ r, kernelDelayedSend pid e delay k = .returned (r, k₁)) ∧ Rescheduled k₁ k' := by
  rcases kernelDelayedSend_cases pid e delay k with ⟨hlt, ho⟩ | ⟨hzero, ho⟩ | ⟨hpos, d, ptr, prevPtr, hseek, ho⟩ | ho
  · rw [ho] at hs
    cases hs
    exact ⟨_, Or.inl ⟨hlt, rfl⟩, .refl _⟩
  · rw [ho] at hs
    obtain ⟨k₁, hsends, hres⟩ := kernelSendMessage_stores hs
    exact ⟨k₁, Or.inr (Or.inl ⟨hzero, hsends⟩), hres⟩
  · rw [ho] at hs
    cases hs
    exact ⟨_, Or.inr (Or.inr ⟨hpos, _, ho⟩), .refl _⟩
  · rw [ho] at hs
    cases hs

theorem kernelReleaseMemoryBlock_stores (hs : (kernelReleaseMemoryBlock b k).last = some k') :
    Rescheduled (k.freed b) k' := by
  rcases kernelReleaseMemoryBlock_cases b k with ho | ⟨p, k₁, k₂, htake, hput, ho⟩ | ho <;> rw [ho] at hs
  · cases hs
    exact .refl _
  · have hwake := ((dequeuePCBFIFOByPriority_rescheduled htake).trans (.setState k₁ p .ready)).trans
      (enqueuePCBByPriority_rescheduled hput)
    split at hs
    · exact hwake.trans (processSwitch_result hs)
    · cases hs
      exact hwake
  · cases hs

theorem kernelSetProcessPriority_stores (hs : (kernelSetProcessPriority pid n k).last = some k') : Rescheduled k k' := by
  rcases kernelSetProcessPriority_cases pid n k with ho | ⟨p, ho⟩ | ⟨ho, -⟩ |
    ⟨w, p, k₁, k₂, -, -, hremove, hput, ho | ⟨-, -, -, -, -, ho⟩⟩ | ho <;> rw [ho] at hs
  · cases hs
    exact .refl _
  · cases hs
    exact .setPriority k p n
  · exact (Rescheduled.setPriority k _ n).trans (processSwitch_result hs)
  · cases hs
    exact ((removeElementByPriority_rescheduled hremove).trans (.setPriority k₁ p n)).trans
      (enqueuePCBByPriority_rescheduled hput)
  · exact (((removeElementByPriority_rescheduled hremove).trans (.setPriority k₁ p n)).trans
      (enqueuePCBByPriority_rescheduled hput)).trans (processSwitch_result hs)
  · cases hs

/-! ### The calls that take a message or a block -/

/-- A receive of an ordinary process that returns has taken the oldest message of the mailbox. -/
theorem receiveMessage_returned (hcode : k.kernelCode = KernelCode.receiveMessage) (hi : k.inIProcess = false)
    (hs : swiTrapHandler k = .returned k') :
    ∃ mq, k.current.messQueue = some mq ∧ isMsgqEmpty (k.mQueues mq) = false ∧
      ∃ e next q, dequeueMessageFIFO k.messNext (k.mQueues mq) = some (e, next, q) ∧
        k' = { k with
          msgReturn := true, messNext := next, mQueues := Function.update k.mQueues mq q, retCodeRecv := toWord e } := by
  rw [swiTrapHandler_receiveMessage hcode] at hs
  obtain ⟨⟨e, k₁⟩, ho, hs⟩ := Outcome.bind_eq_returned.mp hs
  cases hs
  obtain ⟨mq, hmq, ⟨hi', -, -⟩ | ⟨hempty, next, q, hdeq, he⟩⟩ := kernelReceiveMessage_returned ho
  · exact absurd (hi.symm.trans hi') Bool.false_ne_true
  · exact ⟨mq, hmq, hempty, e, next, q, hdeq, he⟩

/-- A receive that switches has only blocked the running process. -/
theorem receiveMessage_switched (hcode : k.kernelCode = KernelCode.receiveMessage)
    (hs : swiTrapHandler k = .switched k') : Rescheduled k k' := by
  rw [swiTrapHandler_receiveMessage hcode] at hs
  rcases Outcome.bind_eq_switched.mp hs with ho | ⟨r, -, hs⟩
  · obtain ⟨mq, -, -, hrun⟩ := kernelReceiveMessage_switched ho
    have hflag : Rescheduled k { k with msgReturn := false } :=
      ⟨fun _ => rfl, fun _ => rfl, rfl, rfl, rfl, rfl, rfl, rfl, id⟩
    exact (hflag.trans (.setState _ k.currentPcb .messageWait)).trans (runNext_rescheduled hrun)
  · cases hs

/-- A request of an ordinary process that returns has taken the oldest free block. -/
theorem requestMemoryBlock_returned (hcode : k.kernelCode = KernelCode.requestMemory) (hi : k.inIProcess = false)
    (hs : swiTrapHandler k = .returned k') :
    ∃ b next q, dequeueMemoryBlockFIFO k.blockNext k.freeMemQ = some (some b, next, q) ∧
      k' = { k with blockNext := next, freeMemQ := q, retCode := b.val } := by
  rw [swiTrapHandler_requestMemory hcode] at hs
  obtain ⟨⟨_ | b, k₁⟩, ho, hs⟩ := Outcome.bind_eq_returned.mp hs
  · obtain ⟨next, q, hdeq, he, hnone⟩ := kernelRequestMemoryBlock_returned ho
    exact absurd (hi.symm.trans (hnone rfl)) Bool.false_ne_true
  · cases hs
    obtain ⟨next, q, hdeq, he, -⟩ := kernelRequestMemoryBlock_returned ho
    exact ⟨b, next, q, hdeq, by rw [he]; rfl⟩

/-- A request that switches has found no free block and has only blocked the running process. -/
theorem requestMemoryBlock_switched (hcode : k.kernelCode = KernelCode.requestMemory)
    (hs : swiTrapHandler k = .switched k') :
    ∃ next q, dequeueMemoryBlockFIFO k.blockNext k.freeMemQ = some (none, next, q) ∧
      Rescheduled { k with blockNext := next, freeMemQ := q } k' := by
  rw [swiTrapHandler_requestMemory hcode] at hs
  rcases Outcome.bind_eq_switched.mp hs with ho | ⟨r, -, hs⟩
  · obtain ⟨next, q, k₁, hnone, hput, hrun⟩ := kernelRequestMemoryBlock_switched ho
    exact ⟨next, q, hnone, ((Rescheduled.setState _ k.currentPcb .memoryWait).trans
      (enqueuePCBByPriority_rescheduled hput)).trans (runNext_rescheduled hrun)⟩
  · cases hs

/-! ### The other calls -/

/-- The kernel after a call whose result is stored. -/
theorem last_of_store {o : Outcome (α × Kernel)} {f : α → Nat} (hs : (o >>= fun r => Outcome.returned
    ({ r.2 with retCode := f r.1 } : Kernel)).kernel? = some k') :
    ∃ k₁, o.last = some k₁ ∧ Rescheduled k₁ k' := by
  rcases Outcome.kernel?_eq_some.mp hs with hs | hs
  · obtain ⟨r, rfl, hs⟩ := Outcome.bind_eq_returned.mp hs
    cases hs
    exact ⟨r.2, rfl, .retCode r.2 _⟩
  · rcases Outcome.bind_eq_switched.mp hs with rfl | ⟨r, -, hs⟩
    · exact ⟨k', rfl, .refl k'⟩
    · cases hs

/-- A call that takes neither a message nor a block. -/
theorem call_stores (hc : ∀ senderID, c ≠ .receiveMessage senderID) (hr : c ≠ .requestMemoryBlock)
    (hs : (swiTrapHandler (c.enter k)).kernel? = some k') : ∃ k₁, Stores (c.enter k) c k₁ ∧ Rescheduled k₁ k' := by
  have hpointer : ∀ {w : Nat} {o : Addr → Outcome Kernel}, (liftM (toPtr w) >>= o).kernel? = some k' →
      ∃ b, toPtr w = some b ∧ (o b).kernel? = some k' := by
    intro w o ho
    cases hw : toPtr w with
    | none =>
      rw [hw] at ho
      cases ho
    | some b =>
      rw [hw] at ho
      exact ⟨b, rfl, ho⟩
  cases c with
  | releaseProcessor =>
    rw [swiTrapHandler_releaseProcessor rfl] at hs
    exact ⟨_, rfl, processSwitch_rescheduled hs⟩
  | sendMessage processID envelope =>
    rw [swiTrapHandler_sendMessage rfl] at hs
    obtain ⟨e, he, hs⟩ := hpointer hs
    obtain ⟨k₁, hlast, hres⟩ := last_of_store (f := fun r => r) hs
    obtain ⟨k₂, hsends, hres'⟩ := kernelSendMessage_stores hlast
    exact ⟨k₂, ⟨e, he, hsends⟩, hres'.trans hres⟩
  | receiveMessage senderID => exact absurd rfl (hc senderID)
  | requestMemoryBlock => exact absurd rfl hr
  | releaseMemoryBlock memoryBlock =>
    rw [swiTrapHandler_releaseMemory rfl] at hs
    obtain ⟨b, hb, hs⟩ := hpointer hs
    obtain ⟨k₁, hlast, hres⟩ := last_of_store (f := fun r => r) hs
    exact ⟨_, ⟨b, hb, rfl⟩, (kernelReleaseMemoryBlock_stores hlast).trans hres⟩
  | delayedSend processID envelope delay =>
    rw [swiTrapHandler_delayedSend rfl] at hs
    obtain ⟨e, he, hs⟩ := hpointer hs
    obtain ⟨k₁, hlast, hres⟩ := last_of_store (f := fun r => r) hs
    obtain ⟨k₂, hstores, hres'⟩ := kernelDelayedSend_stores hlast
    exact ⟨k₂, ⟨e, he, hstores⟩, hres'.trans hres⟩
  | setProcessPriority processID priority =>
    rw [swiTrapHandler_setPrio rfl] at hs
    obtain ⟨k₁, hlast, hres⟩ := last_of_store (f := fun r => r) hs
    exact ⟨_, rfl, (kernelSetProcessPriority_stores hlast).trans hres⟩
  | getProcessPriority processID =>
    rw [swiTrapHandler_getPrio rfl] at hs
    cases hs
    refine ⟨_, rfl, ?_⟩
    unfold kernelGetProcessPriority
    split
    · exact .refl _
    · exact ⟨fun _ => rfl, fun _ => rfl, rfl, rfl, rfl, rfl, rfl, rfl, id⟩

end
end DoorRtos
