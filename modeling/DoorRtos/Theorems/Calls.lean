import DoorRtos.Primitives

/-! The branches of the primitives, one equation each. -/

namespace DoorRtos
open Linked

section
variable {α : Type} {k k₁ : Kernel} {mq p : PcbRef} {e : Addr} {pid n : Nat}

/-! ### `kernel_receive_message` -/

theorem kernelReceiveMessage_idle (hq : k.current.messQueue = some mq) (hempty : isMsgqEmpty (k.mQueues mq) = true)
    (hi : k.inIProcess = true) : kernelReceiveMessage k = .returned (none, { k with msgReturn := true }) := by
  unfold kernelReceiveMessage
  simp only [hq, Outcome.liftM_some, Outcome.returned_bind]
  rw [if_pos ⟨hi, hempty⟩]
  rfl

theorem kernelReceiveMessage_block (hq : k.current.messQueue = some mq) (hempty : isMsgqEmpty (k.mQueues mq) = true)
    (hi : k.inIProcess = false) :
    kernelReceiveMessage k = runNext ({ k with msgReturn := false }.setState k.currentPcb .messageWait) := by
  have hni : ¬k.inIProcess = true := by simp [hi]
  unfold kernelReceiveMessage
  simp only [hq, Outcome.liftM_some, Outcome.returned_bind]
  rw [if_neg fun h => hni h.1, if_pos ⟨hempty, hni⟩]

theorem kernelReceiveMessage_take {e : Option Addr} {next : Links Addr} {q : MessagesQueue}
    (hq : k.current.messQueue = some mq) (hempty : isMsgqEmpty (k.mQueues mq) = false)
    (hs : dequeueMessageFIFO k.messNext (k.mQueues mq) = some (e, next, q)) :
    kernelReceiveMessage k = .returned (e, { k with
      msgReturn := true, messNext := next, mQueues := Function.update k.mQueues mq q, retCodeRecv := toWord e }) := by
  have hne : ¬isMsgqEmpty (k.mQueues mq) = true := by simp [hempty]
  unfold kernelReceiveMessage
  simp only [hq, Outcome.liftM_some, Outcome.returned_bind]
  rw [if_neg fun h => hne h.2, if_neg fun h => hne h.1, hs]
  rfl

/-! ### `kernel_request_memory_block` -/

theorem kernelRequestMemoryBlock_take {b : Addr} {next : Links Addr} {q : FreeMemoryQueue}
    (hs : dequeueMemoryBlockFIFO k.blockNext k.freeMemQ = some (some b, next, q)) :
    kernelRequestMemoryBlock k = .returned (some b, { k with blockNext := next, freeMemQ := q }) := by
  unfold kernelRequestMemoryBlock
  rw [hs]
  rfl

theorem kernelRequestMemoryBlock_idle {next : Links Addr} {q : FreeMemoryQueue}
    (hs : dequeueMemoryBlockFIFO k.blockNext k.freeMemQ = some (none, next, q)) (hi : k.inIProcess = true) :
    kernelRequestMemoryBlock k = .returned (none, { k with blockNext := next, freeMemQ := q }) := by
  unfold kernelRequestMemoryBlock
  rw [hs]
  exact if_pos hi

/-- Without a free block, a user process goes to the memory-wait queue. -/
theorem kernelRequestMemoryBlock_wait {next : Links Addr} {q : FreeMemoryQueue}
    (hs : dequeueMemoryBlockFIFO k.blockNext k.freeMemQ = some (none, next, q)) (hi : k.inIProcess = false) :
    kernelRequestMemoryBlock k = (liftM (enqueuePCBByPriority .memoryWait k.currentPcb
      ({ k with blockNext := next, freeMemQ := q }.setState k.currentPcb .memoryWait)) >>= runNext) := by
  have hni : ¬k.inIProcess = true := by simp [hi]
  unfold kernelRequestMemoryBlock
  rw [hs]
  simp only [Outcome.liftM_some, Outcome.returned_bind]
  exact if_neg hni

theorem kernelRequestMemoryBlock_block {next : Links Addr} {q : FreeMemoryQueue}
    (hs : dequeueMemoryBlockFIFO k.blockNext k.freeMemQ = some (none, next, q)) (hi : k.inIProcess = false)
    (hput : enqueuePCBByPriority .memoryWait k.currentPcb
      ({ k with blockNext := next, freeMemQ := q }.setState k.currentPcb .memoryWait) = some k₁) :
    kernelRequestMemoryBlock k = runNext k₁ :=
  (kernelRequestMemoryBlock_wait hs hi).trans (congrArg (liftM · >>= runNext) hput)

/-- A process whose priority has no subqueue is put past the end of the array. -/
theorem kernelRequestMemoryBlock_stuck {next : Links Addr} {q : FreeMemoryQueue}
    (hs : dequeueMemoryBlockFIFO k.blockNext k.freeMemQ = some (none, next, q)) (hi : k.inIProcess = false)
    (hput : enqueuePCBByPriority .memoryWait k.currentPcb
      ({ k with blockNext := next, freeMemQ := q }.setState k.currentPcb .memoryWait) = none) :
    kernelRequestMemoryBlock k = .stuck :=
  (kernelRequestMemoryBlock_wait hs hi).trans (congrArg (liftM · >>= runNext) hput)

/-! ### `kernel_send_message` -/

/-- The kernel's data once the envelope is in mailbox `mq`. -/
def Kernel.delivered (k : Kernel) (processID : Nat) (envelope : Addr) (mq : PcbRef) : Kernel :=
  let k := k.setMess envelope { k.mess envelope with senderPid := k.current.pid, destPid := processID }
  let r := enqueueMessage k.messNext (k.mQueues mq) envelope
  { k with messNext := r.1, mQueues := Function.update k.mQueues mq r.2 }

@[simp] theorem delivered_pcbs : (k.delivered n e mq).pcbs = k.pcbs := rfl

@[simp] theorem delivered_pcbNext : (k.delivered n e mq).pcbNext = k.pcbNext := rfl

@[simp] theorem delivered_queue : (k.delivered n e mq).queue = k.queue := rfl

@[simp] theorem delivered_currentPcb : (k.delivered n e mq).currentPcb = k.currentPcb := rfl

@[simp] theorem delivered_inIProcess : (k.delivered n e mq).inIProcess = k.inIProcess := rfl

theorem getPcb_congr (h : ∀ p, (k₁.pcbs p).pid = (k.pcbs p).pid) (pid : Nat) : getPcb k₁ pid = getPcb k pid := by
  unfold getPcb
  simp only [h]

theorem getPcb_eq_some (h : getPcb k pid = some p) : (k.pcbs p).pid = pid := by
  have := List.find?_some h
  simpa using this

theorem getPcb_isSome (k : Kernel) (p : PcbRef) : (getPcb k (k.pcbs p).pid).isSome := by
  unfold getPcb
  rw [List.find?_isSome]
  exact ⟨p, List.mem_finRange p, by simp⟩

/-- A process is found under its own pid. -/
theorem getPcb_of_created (ht : k.TableOk) (hc : k.Created p) : getPcb k (k.pcbs p).pid = some p := by
  obtain ⟨q, hq⟩ := Option.isSome_iff_exists.mp (getPcb_isSome k p)
  have hpid : (k.pcbs q).pid = p.val := (getPcb_eq_some hq).trans hc
  rcases ht q with hcq | hdummy
  · rw [hq, Fin.ext (hcq.symm.trans hpid)]
  · have hlt := p.isLt
    rw [← hpid, hdummy] at hlt
    exact absurd hlt (by decide)

theorem kernelSendMessage_unknown (h : getPcb k pid = none) :
    kernelSendMessage pid e k = .returned (rtxError,
      k.setMess e { k.mess e with senderPid := k.current.pid, destPid := pid }) := by
  have h' : getPcb (k.setMess e { k.mess e with senderPid := k.current.pid, destPid := pid }) pid = none := h
  unfold kernelSendMessage
  simp only [h']
  rfl

theorem kernelSendMessage_stuck (h : getPcb k pid = some p) (hq : (k.pcbs p).messQueue = none) :
    kernelSendMessage pid e k = .stuck := by
  have h' : getPcb (k.setMess e { k.mess e with senderPid := k.current.pid, destPid := pid }) pid = some p := h
  unfold kernelSendMessage
  simp only [h']
  exact congrArg (fun o => (liftM o : Outcome PcbRef) >>= _) hq

theorem kernelSendMessage_deliver (h : getPcb k pid = some p) (hq : (k.pcbs p).messQueue = some mq)
    (hst : (k.pcbs p).state ≠ .messageWait) :
    kernelSendMessage pid e k = .returned (rtxSuccess, k.delivered pid e mq) := by
  have h' : getPcb (k.setMess e { k.mess e with senderPid := k.current.pid, destPid := pid }) pid = some p := h
  have hq' : ((k.setMess e { k.mess e with senderPid := k.current.pid, destPid := pid }).pcbs p).messQueue = some mq := hq
  unfold kernelSendMessage
  simp only [h', hq', Outcome.liftM_some, Outcome.returned_bind]
  exact if_neg hst

/-- What is left to do once the envelope is delivered to a process that waits for it. -/
theorem kernelSendMessage_wake (h : getPcb k pid = some p) (hq : (k.pcbs p).messQueue = some mq)
    (hst : (k.pcbs p).state = .messageWait) :
    kernelSendMessage pid e k = (do
      let k₁ ← enqueuePCBByPriority .ready p ((k.delivered pid e mq).setState p .ready)
      let source ← getPcb k₁ k.current.pid
      if (k₁.pcbs p).priority > (k₁.pcbs source).priority ∧ ¬k₁.inIProcess then
        let (nextPcb, k₂) ← dequeuePCBFIFOByPriority .ready k₁
        contextSwitch nextPcb k₂
      else return (rtxSuccess, k₁)) := by
  have h' : getPcb (k.setMess e { k.mess e with senderPid := k.current.pid, destPid := pid }) pid = some p := h
  have hq' : ((k.setMess e { k.mess e with senderPid := k.current.pid, destPid := pid }).pcbs p).messQueue = some mq := hq
  unfold kernelSendMessage
  simp only [h', hq', Outcome.liftM_some, Outcome.returned_bind]
  exact if_pos hst

/-- The comparison of priorities that ends a call which has woken its receiver. -/
theorem kernelSendMessage_woken {source : PcbRef} (h : getPcb k pid = some p) (hq : (k.pcbs p).messQueue = some mq)
    (hst : (k.pcbs p).state = .messageWait)
    (hput : enqueuePCBByPriority .ready p ((k.delivered pid e mq).setState p .ready) = some k₁)
    (hsrc : getPcb k₁ k.current.pid = some source) :
    kernelSendMessage pid e k =
      if (k₁.pcbs p).priority > (k₁.pcbs source).priority ∧ ¬k₁.inIProcess then
        liftM (dequeuePCBFIFOByPriority .ready k₁) >>= fun r => contextSwitch r.1 r.2
      else .returned (rtxSuccess, k₁) := by
  rw [kernelSendMessage_wake h hq hst, hput]
  simp only [Outcome.liftM_some, Outcome.returned_bind, hsrc]
  rfl

/-! ### `kernel_release_memory_block` -/

/-- The kernel's data once the block is in the free queue. -/
def Kernel.freed (k : Kernel) (b : Addr) : Kernel :=
  let r := enqueueFreeMemoryQueue k.blockNext k.freeMemQ b
  { k with blockNext := r.1, freeMemQ := r.2 }

theorem kernelReleaseMemoryBlock_idle (h : isMETAPCBQueueEmpty .memoryWait (k.freed e) = true) :
    kernelReleaseMemoryBlock e k = .returned (rtxSuccess, k.freed e) := if_pos h

theorem kernelReleaseMemoryBlock_wake {k₂ : Kernel} (h : isMETAPCBQueueEmpty .memoryWait (k.freed e) = false)
    (htake : dequeuePCBFIFOByPriority .memoryWait (k.freed e) = some (some p, k₁))
    (hput : enqueuePCBByPriority .ready p (k₁.setState p .ready) = some k₂) :
    kernelReleaseMemoryBlock e k =
      if (k₂.pcbs p).priority < k₂.current.priority then processSwitch k₂ >>= fun k => .returned (rtxSuccess, k)
      else .returned (rtxSuccess, k₂) := by
  have hne : ¬isMETAPCBQueueEmpty .memoryWait (k.freed e) = true := by simp [h]
  refine (if_neg hne).trans ?_
  show (liftM (dequeuePCBFIFOByPriority .memoryWait (k.freed e)) >>= _) = _
  rw [htake]
  simp only [Outcome.liftM_some, Outcome.returned_bind, hput]
  rfl

/-! ### `kernel_delayed_send` -/

/-- The kernel's data once `kernel_delayed_send` has marked the envelope. -/
def Kernel.marked (k : Kernel) (processID : Nat) (envelope : Addr) : Kernel :=
  k.setMess envelope { k.mess envelope with destPid := processID, senderPid := k.current.pid }

theorem kernelDelayedSend_negative {delay : Int} (h : delay < 0) :
    kernelDelayedSend pid e delay k = .returned (rtxError, k.marked pid e) := if_pos h

theorem kernelDelayedSend_zero : kernelDelayedSend pid e 0 k = kernelSendMessage pid e (k.marked pid e) := by
  unfold kernelDelayedSend
  simp only [Int.lt_irrefl, if_false, if_true]
  rfl

theorem kernelDelayedSend_later {delay : Int} {d : Nat} {ptr prevPtr : Option Addr} (h : 0 < delay)
    (hseek : seekDelay (k.marked pid e) addressSpace delay.toNat k.delayedSendQueue.head none = some (d, ptr, prevPtr)) :
    kernelDelayedSend pid e delay k = .returned (rtxSuccess, linkDelayed e d ptr prevPtr (k.marked pid e)) := by
  unfold kernelDelayedSend
  simp only [Int.not_lt.mpr (Int.le_of_lt h), Int.ne_of_gt h, if_false]
  show (liftM (seekDelay (k.marked pid e) addressSpace delay.toNat k.delayedSendQueue.head none) >>= _) = _
  rw [hseek]
  rfl

/-- Linking a delayed message moves no PCB. -/
theorem linkDelayed_frame (e : Addr) (d : Nat) (ptr prevPtr : Option Addr) (k : Kernel) :
    (linkDelayed e d ptr prevPtr k).pcbs = k.pcbs ∧ (linkDelayed e d ptr prevPtr k).pcbNext = k.pcbNext ∧
      (linkDelayed e d ptr prevPtr k).queue = k.queue ∧ (linkDelayed e d ptr prevPtr k).currentPcb = k.currentPcb ∧
      (linkDelayed e d ptr prevPtr k).inIProcess = k.inIProcess := by
  unfold linkDelayed
  cases ptr <;> cases prevPtr <;> simp [Kernel.setMess, Kernel.setMessNext, Kernel.queue, funext_iff]

theorem linkDelayed_store (e : Addr) (d : Nat) (ptr prevPtr : Option Addr) (k : Kernel) :
    (linkDelayed e d ptr prevPtr k).mQueues = k.mQueues ∧ (linkDelayed e d ptr prevPtr k).freeMemQ = k.freeMemQ ∧
      (linkDelayed e d ptr prevPtr k).blockNext = k.blockNext := by
  unfold linkDelayed
  cases ptr <;> cases prevPtr <;> simp [Kernel.setMess, Kernel.setMessNext]

/-! ### `kernel_set_process_priority` -/

/-- A PCB is moved to the subqueue of priority `n`, and `f` goes on when it has been in its queue. -/
def movePCB (p : PcbRef) (w : QueueId) (n : Nat) (f : Kernel → Outcome (Nat × Kernel)) (k : Kernel) :
    Outcome (Nat × Kernel) := do
  let (returnValue, k) ← removeElementByPriority p w k
  if returnValue = rtxError then return (rtxError, k)
  else
    let k ← enqueuePCBByPriority w p (k.setPriority p n)
    f k

theorem movePCB_missing {w : QueueId} {f : Kernel → Outcome (Nat × Kernel)} {k₁ : Kernel}
    (hremove : removeElementByPriority p w k = some (rtxError, k₁)) : movePCB p w n f k = .returned (rtxError, k₁) := by
  unfold movePCB
  rw [hremove]
  rfl

theorem movePCB_moved {w : QueueId} {f : Kernel → Outcome (Nat × Kernel)} {k₁ k₂ : Kernel}
    (hremove : removeElementByPriority p w k = some (rtxSuccess, k₁))
    (hput : enqueuePCBByPriority w p (k₁.setPriority p n) = some k₂) : movePCB p w n f k = f k₂ := by
  unfold movePCB
  rw [hremove]
  simp only [Outcome.liftM_some, Outcome.returned_bind, hput]
  exact if_neg (by decide)

theorem movePCB_cases (p : PcbRef) (w : QueueId) (n : Nat) (f : Kernel → Outcome (Nat × Kernel)) (k : Kernel) :
    movePCB p w n f k = .stuck ∨
      (∃ k₁, removeElementByPriority p w k = some (rtxError, k₁) ∧ movePCB p w n f k = .returned (rtxError, k₁)) ∨
      ∃ r k₁ k₂, removeElementByPriority p w k = some (r, k₁) ∧ r ≠ rtxError ∧
        enqueuePCBByPriority w p (k₁.setPriority p n) = some k₂ ∧ movePCB p w n f k = f k₂ := by
  unfold movePCB
  rcases hremove : removeElementByPriority p w k with _ | ⟨r, k₁⟩
  · exact Or.inl rfl
  · simp only [Outcome.liftM_some, Outcome.returned_bind]
    split
    next herr =>
      subst herr
      exact Or.inr (Or.inl ⟨k₁, rfl, rfl⟩)
    next hne =>
      cases hput : enqueuePCBByPriority w p (k₁.setPriority p n) with
      | none => exact Or.inl rfl
      | some k₂ => exact Or.inr (Or.inr ⟨r, k₁, k₂, rfl, hne, hput, rfl⟩)

theorem kernelSetProcessPriority_refused (h : pid = 0 ∨ n = 4) :
    kernelSetProcessPriority pid n k = .returned (rtxError, k) := if_pos h

theorem kernelSetProcessPriority_unknown (h₀ : ¬(pid = 0 ∨ n = 4)) (h : getPcb k pid = none) :
    kernelSetProcessPriority pid n k = .returned (rtxError, k) := by
  unfold kernelSetProcessPriority
  rw [if_neg h₀, h]
  rfl

theorem kernelSetProcessPriority_self (h₀ : ¬(pid = 0 ∨ n = 4)) (h : getPcb k pid = some k.currentPcb) :
    kernelSetProcessPriority pid n k =
      if n ≤ k.current.priority then .returned (rtxSuccess, k.setPriority k.currentPcb n)
      else processSwitch (k.setPriority k.currentPcb n) >>= fun k => .returned (rtxSuccess, k) := by
  unfold kernelSetProcessPriority
  rw [if_neg h₀, h]
  simp only [if_true]
  rfl

theorem kernelSetProcessPriority_memoryWait (h₀ : ¬(pid = 0 ∨ n = 4)) (h : getPcb k pid = some p) (hp : p ≠ k.currentPcb)
    (hst : (k.pcbs p).state = .memoryWait) :
    kernelSetProcessPriority pid n k = movePCB p .memoryWait n (fun k => .returned (rtxSuccess, k)) k := by
  unfold kernelSetProcessPriority
  rw [if_neg h₀, h]
  simp only [if_neg hp, hst, if_true]
  rfl

theorem kernelSetProcessPriority_messageWait (h₀ : ¬(pid = 0 ∨ n = 4)) (h : getPcb k pid = some p)
    (hp : p ≠ k.currentPcb) (hst : (k.pcbs p).state = .messageWait) :
    kernelSetProcessPriority pid n k = .returned (rtxSuccess, k.setPriority p n) := by
  unfold kernelSetProcessPriority
  rw [if_neg h₀, h]
  simp only [if_neg hp, hst, if_true]
  rfl

theorem kernelSetProcessPriority_ready (h₀ : ¬(pid = 0 ∨ n = 4)) (h : getPcb k pid = some p) (hp : p ≠ k.currentPcb)
    (hmem : (k.pcbs p).state ≠ .memoryWait) (hmess : (k.pcbs p).state ≠ .messageWait) :
    kernelSetProcessPriority pid n k = movePCB p .ready n (fun k =>
      if n < k.current.priority then processSwitch k >>= fun k => .returned (rtxSuccess, k)
      else .returned (rtxSuccess, k)) k := by
  unfold kernelSetProcessPriority
  rw [if_neg h₀, h]
  simp only [if_neg hp, if_neg hmem, if_neg hmess]
  rfl

/-! ### `kernel_get_process_priority` -/

theorem kernelGetProcessPriority_unknown (h : getPcb k pid = none) : kernelGetProcessPriority pid k = (rtxError, k) := by
  unfold kernelGetProcessPriority
  rw [h]

theorem kernelGetProcessPriority_found (h : getPcb k pid = some p) :
    kernelGetProcessPriority pid k = ((k.pcbs p).priority, { k with retCodeGetPrio := (k.pcbs p).priority }) := by
  unfold kernelGetProcessPriority
  rw [h]

/-! ### The trap handler -/

theorem swiTrapHandler_sendMessage (h : k.kernelCode = KernelCode.sendMessage) :
    swiTrapHandler k = (do
      let envelope ← toPtr k.param2
      let r ← kernelSendMessage k.param1 envelope k
      return { r.2 with retCode := r.1 }) := by
  unfold swiTrapHandler
  rw [if_pos h]

theorem swiTrapHandler_receiveMessage (h : k.kernelCode = KernelCode.receiveMessage) :
    swiTrapHandler k = kernelReceiveMessage k >>= fun r => .returned r.2 := by
  unfold swiTrapHandler
  simp [h, KernelCode.sendMessage, KernelCode.receiveMessage]

theorem swiTrapHandler_requestMemory (h : k.kernelCode = KernelCode.requestMemory) :
    swiTrapHandler k = kernelRequestMemoryBlock k >>= fun r => .returned { r.2 with retCode := toWord r.1 } := by
  unfold swiTrapHandler
  simp [h, KernelCode.sendMessage, KernelCode.receiveMessage, KernelCode.requestMemory]

theorem swiTrapHandler_releaseMemory (h : k.kernelCode = KernelCode.releaseMemory) :
    swiTrapHandler k = (do
      let memoryBlock ← toPtr k.param1
      let r ← kernelReleaseMemoryBlock memoryBlock k
      return { r.2 with retCode := r.1 }) := by
  unfold swiTrapHandler
  simp [h, KernelCode.sendMessage, KernelCode.receiveMessage, KernelCode.requestMemory, KernelCode.releaseMemory]

theorem swiTrapHandler_releaseProcessor (h : k.kernelCode = KernelCode.releaseProcessor) :
    swiTrapHandler k = processSwitch k := by
  unfold swiTrapHandler
  simp [h, KernelCode.sendMessage, KernelCode.receiveMessage, KernelCode.requestMemory, KernelCode.releaseMemory,
    KernelCode.releaseProcessor]

theorem swiTrapHandler_delayedSend (h : k.kernelCode = KernelCode.delayedSend) :
    swiTrapHandler k = (do
      let envelope ← toPtr k.param2
      let r ← kernelDelayedSend k.param1 envelope (toInt k.param3) k
      return { r.2 with retCode := r.1 }) := by
  unfold swiTrapHandler
  simp [h, KernelCode.sendMessage, KernelCode.receiveMessage, KernelCode.requestMemory, KernelCode.releaseMemory,
    KernelCode.releaseProcessor, KernelCode.delayedSend]

theorem swiTrapHandler_setPrio (h : k.kernelCode = KernelCode.setPrio) :
    swiTrapHandler k = kernelSetProcessPriority k.param1 (k.param2 % 2 ^ 8) k >>= fun r =>
      .returned { r.2 with retCode := r.1 } := by
  unfold swiTrapHandler
  simp [h, KernelCode.sendMessage, KernelCode.receiveMessage, KernelCode.requestMemory, KernelCode.releaseMemory,
    KernelCode.releaseProcessor, KernelCode.delayedSend, KernelCode.setPrio]

theorem swiTrapHandler_getPrio (h : k.kernelCode = KernelCode.getPrio) :
    swiTrapHandler k = .returned (kernelGetProcessPriority k.param1 k).2 := by
  unfold swiTrapHandler
  simp [h, KernelCode.sendMessage, KernelCode.receiveMessage, KernelCode.requestMemory, KernelCode.releaseMemory,
    KernelCode.releaseProcessor, KernelCode.delayedSend, KernelCode.setPrio, KernelCode.getPrio]

end
end DoorRtos
