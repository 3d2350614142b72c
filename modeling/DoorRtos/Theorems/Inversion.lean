import DoorRtos.Theorems.Rescheduling
import DoorRtos.Traps

/-! What a primitive has done when it returns, and when it has switched to another process. -/

namespace DoorRtos
open Linked

section
variable {k k' : Kernel} {e : Option Addr} {b : Addr} {pid n r : Nat}

/-! ### `kernel_receive_message` and `kernel_request_memory_block` -/

/-- The ways in which `kernel_receive_message` ends. -/
theorem kernelReceiveMessage_cases (k : Kernel) :
    (∃ mq, k.current.messQueue = some mq ∧ isMsgqEmpty (k.mQueues mq) = true ∧ k.inIProcess = true ∧
      kernelReceiveMessage k = .returned (none, { k with msgReturn := true })) ∨
    (∃ mq o next q, k.current.messQueue = some mq ∧ isMsgqEmpty (k.mQueues mq) = false ∧
      dequeueMessageFIFO k.messNext (k.mQueues mq) = some (o, next, q) ∧
      kernelReceiveMessage k = .returned (o, { k with
        msgReturn := true, messNext := next, mQueues := Function.update k.mQueues mq q, retCodeRecv := toWord o })) ∨
    (∃ mq, k.current.messQueue = some mq ∧ isMsgqEmpty (k.mQueues mq) = true ∧
      kernelReceiveMessage k = runNext ({ k with msgReturn := false }.setState k.currentPcb .messageWait)) ∨
    kernelReceiveMessage k = .stuck := by
  cases hmq : k.current.messQueue with
  | none =>
    refine Or.inr (Or.inr (Or.inr ?_))
    unfold kernelReceiveMessage
    rw [hmq]
    rfl
  | some mq =>
    cases hempty : isMsgqEmpty (k.mQueues mq) with
    | true =>
      rcases Bool.eq_false_or_eq_true k.inIProcess with hi | hi
      · exact Or.inl ⟨mq, rfl, hempty, hi, kernelReceiveMessage_idle hmq hempty hi⟩
      · exact Or.inr (Or.inr (Or.inl ⟨mq, rfl, hempty, kernelReceiveMessage_block hmq hempty hi⟩))
    | false =>
      cases hdeq : dequeueMessageFIFO k.messNext (k.mQueues mq) with
      | none =>
        refine Or.inr (Or.inr (Or.inr ?_))
        unfold kernelReceiveMessage
        simp [hmq, hempty, hdeq]
      | some x =>
        obtain ⟨o, next, q⟩ := x
        exact Or.inr (Or.inl ⟨mq, o, next, q, rfl, hempty, hdeq, kernelReceiveMessage_take hmq hempty hdeq⟩)

/-- A receive that returns has taken a message, or was made by an interrupt process with an empty mailbox. -/
theorem kernelReceiveMessage_returned (hs : kernelReceiveMessage k = .returned (e, k')) :
    ∃ mq, k.current.messQueue = some mq ∧
      (k.inIProcess = true ∧ e = none ∧ k' = { k with msgReturn := true } ∨
        isMsgqEmpty (k.mQueues mq) = false ∧ ∃ next q, dequeueMessageFIFO k.messNext (k.mQueues mq) = some (e, next, q) ∧
          k' = { k with
            msgReturn := true, messNext := next, mQueues := Function.update k.mQueues mq q, retCodeRecv := toWord e }) := by
  rcases kernelReceiveMessage_cases k with ⟨mq, hmq, -, hi, ho⟩ | ⟨mq, o, next, q, hmq, hempty, hdeq, ho⟩ |
      ⟨mq, -, -, ho⟩ | ho <;>
    rw [ho] at hs
  · cases hs
    exact ⟨mq, hmq, Or.inl ⟨hi, rfl, rfl⟩⟩
  · cases hs
    exact ⟨mq, hmq, Or.inr ⟨hempty, next, q, hdeq, rfl⟩⟩
  · exact absurd hs runNext_not_returned
  · cases hs

/-- A receive that switches has found the mailbox empty. -/
theorem kernelReceiveMessage_switched (hs : kernelReceiveMessage k = .switched k') :
    ∃ mq, k.current.messQueue = some mq ∧ isMsgqEmpty (k.mQueues mq) = true ∧
      (runNext ({ k with msgReturn := false }.setState k.currentPcb .messageWait) : Outcome (Option Addr × Kernel)) =
        .switched k' := by
  rcases kernelReceiveMessage_cases k with ⟨mq, -, -, -, ho⟩ | ⟨mq, o, next, q, -, -, -, ho⟩ |
      ⟨mq, hmq, hempty, ho⟩ | ho <;>
    rw [ho] at hs
  · cases hs
  · cases hs
  · exact ⟨mq, hmq, hempty, hs⟩
  · cases hs

/-- The ways in which `kernel_request_memory_block` ends. -/
theorem kernelRequestMemoryBlock_cases (k : Kernel) :
    (∃ o next q, dequeueMemoryBlockFIFO k.blockNext k.freeMemQ = some (o, next, q) ∧ (o = none → k.inIProcess = true) ∧
      kernelRequestMemoryBlock k = .returned (o, { k with blockNext := next, freeMemQ := q })) ∨
    (∃ next q k₁, dequeueMemoryBlockFIFO k.blockNext k.freeMemQ = some (none, next, q) ∧
      enqueuePCBByPriority .memoryWait k.currentPcb
        ({ k with blockNext := next, freeMemQ := q }.setState k.currentPcb .memoryWait) = some k₁ ∧
      kernelRequestMemoryBlock k = runNext k₁) ∨
    kernelRequestMemoryBlock k = .stuck := by
  rcases hdeq : dequeueMemoryBlockFIFO k.blockNext k.freeMemQ with _ | ⟨_ | b, next, q⟩
  · refine Or.inr (Or.inr ?_)
    unfold kernelRequestMemoryBlock
    rw [hdeq]
    rfl
  · rcases Bool.eq_false_or_eq_true k.inIProcess with hi | hi
    · exact Or.inl ⟨none, next, q, rfl, fun _ => hi, kernelRequestMemoryBlock_idle hdeq hi⟩
    · cases hput : enqueuePCBByPriority .memoryWait k.currentPcb
          ({ k with blockNext := next, freeMemQ := q }.setState k.currentPcb .memoryWait) with
      | none => exact Or.inr (Or.inr (kernelRequestMemoryBlock_stuck hdeq hi hput))
      | some k₁ => exact Or.inr (Or.inl ⟨next, q, k₁, rfl, hput, kernelRequestMemoryBlock_block hdeq hi hput⟩)
  · exact Or.inl ⟨some b, next, q, rfl, (fun he => nomatch he), kernelRequestMemoryBlock_take hdeq⟩

/-- A request that returns has taken a block, or was made by an interrupt process. -/
theorem kernelRequestMemoryBlock_returned (hs : kernelRequestMemoryBlock k = .returned (e, k')) :
    ∃ next q, dequeueMemoryBlockFIFO k.blockNext k.freeMemQ = some (e, next, q) ∧
      k' = { k with blockNext := next, freeMemQ := q } ∧ (e = none → k.inIProcess = true) := by
  rcases kernelRequestMemoryBlock_cases k with ⟨o, next, q, hdeq, hi, ho⟩ | ⟨-, -, k₁, -, -, ho⟩ | ho <;> rw [ho] at hs
  · cases hs
    exact ⟨next, q, hdeq, rfl, hi⟩
  · exact absurd hs runNext_not_returned
  · cases hs

/-- A request that switches has found no free block. -/
theorem kernelRequestMemoryBlock_switched (hs : kernelRequestMemoryBlock k = .switched k') :
    ∃ next q k₁, dequeueMemoryBlockFIFO k.blockNext k.freeMemQ = some (none, next, q) ∧
      enqueuePCBByPriority .memoryWait k.currentPcb
        ({ k with blockNext := next, freeMemQ := q }.setState k.currentPcb .memoryWait) = some k₁ ∧
      (runNext k₁ : Outcome (Option Addr × Kernel)) = .switched k' := by
  rcases kernelRequestMemoryBlock_cases k with ⟨o, next, q, -, -, ho⟩ | ⟨next, q, k₁, hdeq, hput, ho⟩ | ho <;> rw [ho] at hs
  · cases hs
  · exact ⟨next, q, k₁, hdeq, hput, hs⟩
  · cases hs

/-! ### The primitives that wake or move a process -/

/-- The ways in which `kernel_send_message` ends. -/
theorem kernelSendMessage_cases (pid : Nat) (b : Addr) (k : Kernel) :
    getPcb k pid = none ∧ kernelSendMessage pid b k = .returned (rtxError,
        k.setMess b { k.mess b with senderPid := k.current.pid, destPid := pid }) ∨
      (∃ d mq, getPcb k pid = some d ∧ (k.pcbs d).messQueue = some mq ∧
        ((k.pcbs d).state ≠ .messageWait ∧ kernelSendMessage pid b k = .returned (rtxSuccess, k.delivered pid b mq) ∨
          (k.pcbs d).state = .messageWait ∧ ∃ k₁ source,
            enqueuePCBByPriority .ready d ((k.delivered pid b mq).setState d .ready) = some k₁ ∧
            getPcb k₁ k.current.pid = some source ∧
            kernelSendMessage pid b k =
              if (k₁.pcbs d).priority > (k₁.pcbs source).priority ∧ ¬k₁.inIProcess then
                liftM (dequeuePCBFIFOByPriority .ready k₁) >>= fun r => contextSwitch r.1 r.2
              else .returned (rtxSuccess, k₁))) ∨
      kernelSendMessage pid b k = .stuck := by
  cases hd : getPcb k pid with
  | none => exact Or.inl ⟨rfl, kernelSendMessage_unknown hd⟩
  | some d =>
    right
    cases hmq : (k.pcbs d).messQueue with
    | none => exact Or.inr (kernelSendMessage_stuck hd hmq)
    | some mq =>
      by_cases hst : (k.pcbs d).state = .messageWait
      · cases hput : enqueuePCBByPriority .ready d ((k.delivered pid b mq).setState d .ready) with
        | none =>
          right
          rw [kernelSendMessage_wake hd hmq hst, hput]
          rfl
        | some k₁ =>
          cases hsrc : getPcb k₁ k.current.pid with
          | none =>
            right
            rw [kernelSendMessage_wake hd hmq hst, hput]
            simp only [Outcome.liftM_some, Outcome.returned_bind, hsrc]
            rfl
          | some source =>
            exact Or.inl ⟨d, mq, rfl, hmq, Or.inr ⟨hst, k₁, source, hput, hsrc,
              kernelSendMessage_woken hd hmq hst hput hsrc⟩⟩
      · exact Or.inl ⟨d, mq, rfl, hmq, Or.inl ⟨hst, kernelSendMessage_deliver hd hmq hst⟩⟩

/-- The ways in which `kernel_release_memory_block` ends. -/
theorem kernelReleaseMemoryBlock_cases (b : Addr) (k : Kernel) :
    kernelReleaseMemoryBlock b k = .returned (rtxSuccess, k.freed b) ∨
      (∃ p k₁ k₂, dequeuePCBFIFOByPriority .memoryWait (k.freed b) = some (some p, k₁) ∧
        enqueuePCBByPriority .ready p (k₁.setState p .ready) = some k₂ ∧
        kernelReleaseMemoryBlock b k =
          if (k₂.pcbs p).priority < k₂.current.priority then processSwitch k₂ >>= fun k => .returned (rtxSuccess, k)
          else .returned (rtxSuccess, k₂)) ∨
      kernelReleaseMemoryBlock b k = .stuck := by
  cases hidle : isMETAPCBQueueEmpty .memoryWait (k.freed b) with
  | true => exact Or.inl (kernelReleaseMemoryBlock_idle hidle)
  | false =>
    right
    have hne : ¬isMETAPCBQueueEmpty .memoryWait (k.freed b) = true := by simp [hidle]
    have hstuck : (∀ p k₁, dequeuePCBFIFOByPriority .memoryWait (k.freed b) = some (some p, k₁) →
        enqueuePCBByPriority .ready p (k₁.setState p .ready) = none) → kernelReleaseMemoryBlock b k = .stuck := by
      intro hnone
      refine (if_neg hne).trans ?_
      show (liftM (dequeuePCBFIFOByPriority .memoryWait (k.freed b)) >>= _) = _
      rcases htake : dequeuePCBFIFOByPriority .memoryWait (k.freed b) with _ | ⟨_ | p, k₁⟩
      · rfl
      · rfl
      · simp only [Outcome.liftM_some, Outcome.returned_bind, hnone p k₁ htake]
        rfl
    by_cases hex : ∃ p k₁ k₂, dequeuePCBFIFOByPriority .memoryWait (k.freed b) = some (some p, k₁) ∧
        enqueuePCBByPriority .ready p (k₁.setState p .ready) = some k₂
    · obtain ⟨p, k₁, k₂, htake, hput⟩ := hex
      exact Or.inl ⟨p, k₁, k₂, htake, hput, kernelReleaseMemoryBlock_wake hidle htake hput⟩
    · refine Or.inr (hstuck fun p k₁ htake => ?_)
      cases hput : enqueuePCBByPriority .ready p (k₁.setState p .ready) with
      | none => rfl
      | some k₂ => exact absurd ⟨p, k₁, k₂, htake, hput⟩ hex

/-- The ways in which `kernel_delayed_send` ends. -/
theorem kernelDelayedSend_cases (pid : Nat) (b : Addr) (delay : Int) (k : Kernel) :
    delay < 0 ∧ kernelDelayedSend pid b delay k = .returned (rtxError, k.marked pid b) ∨
      delay = 0 ∧ kernelDelayedSend pid b delay k = kernelSendMessage pid b (k.marked pid b) ∨
      (0 < delay ∧ ∃ d ptr prevPtr,
        seekDelay (k.marked pid b) addressSpace delay.toNat k.delayedSendQueue.head none = some (d, ptr, prevPtr) ∧
        kernelDelayedSend pid b delay k = .returned (rtxSuccess, linkDelayed b d ptr prevPtr (k.marked pid b))) ∨
      kernelDelayedSend pid b delay k = .stuck := by
  rcases Int.lt_trichotomy delay 0 with hlt | rfl | hgt
  · exact Or.inl ⟨hlt, kernelDelayedSend_negative hlt⟩
  · exact Or.inr (Or.inl ⟨rfl, kernelDelayedSend_zero⟩)
  · right; right
    cases hseek : seekDelay (k.marked pid b) addressSpace delay.toNat k.delayedSendQueue.head none with
    | none =>
      right
      unfold kernelDelayedSend
      simp only [Int.not_lt.mpr (Int.le_of_lt hgt), Int.ne_of_gt hgt, if_false]
      show (liftM (seekDelay (k.marked pid b) addressSpace delay.toNat k.delayedSendQueue.head none) >>= _) = _
      rw [hseek]
      rfl
    | some r => exact Or.inl ⟨hgt, r.1, r.2.1, r.2.2, rfl, kernelDelayedSend_later hgt hseek⟩

/-- The ways in which `kernel_set_process_priority` ends. -/
theorem kernelSetProcessPriority_cases (pid n : Nat) (k : Kernel) :
    kernelSetProcessPriority pid n k = .returned (rtxError, k) ∨
      (∃ p, kernelSetProcessPriority pid n k = .returned (rtxSuccess, k.setPriority p n)) ∨
      kernelSetProcessPriority pid n k =
        (processSwitch (k.setPriority k.currentPcb n) >>= fun k => .returned (rtxSuccess, k)) ∧
          ¬(pid = 0 ∨ n = 4) ∧ getPcb k pid = some k.currentPcb ∧ k.current.priority < n ∨
      (∃ w p k₁ k₂, getPcb k pid = some p ∧ p ≠ k.currentPcb ∧ removeElementByPriority p w k = some (rtxSuccess, k₁) ∧
        enqueuePCBByPriority w p (k₁.setPriority p n) = some k₂ ∧
        (kernelSetProcessPriority pid n k = .returned (rtxSuccess, k₂) ∨
          w = .ready ∧ ¬(pid = 0 ∨ n = 4) ∧ (k.pcbs p).state ≠ .memoryWait ∧ (k.pcbs p).state ≠ .messageWait ∧
            n < k₂.current.priority ∧
            kernelSetProcessPriority pid n k = (processSwitch k₂ >>= fun k => .returned (rtxSuccess, k)))) ∨
      kernelSetProcessPriority pid n k = .stuck := by
  by_cases h₀ : pid = 0 ∨ n = 4
  · exact Or.inl (kernelSetProcessPriority_refused h₀)
  cases hget : getPcb k pid with
  | none => exact Or.inl (kernelSetProcessPriority_unknown h₀ hget)
  | some p =>
    by_cases hp : p = k.currentPcb
    · subst hp
      rw [kernelSetProcessPriority_self h₀ hget]
      split
      next => exact Or.inr (Or.inl ⟨_, rfl⟩)
      next hlt => exact Or.inr (Or.inr (Or.inl ⟨rfl, h₀, rfl, Nat.lt_of_not_le hlt⟩))
    · by_cases hmem : (k.pcbs p).state = .memoryWait
      · rw [kernelSetProcessPriority_memoryWait h₀ hget hp hmem]
        rcases movePCB_cases p .memoryWait n _ k with ho | ⟨k₁, hr, ho⟩ | ⟨r, k₁, k₂, hr, hne, hput, ho⟩
        · exact Or.inr (Or.inr (Or.inr (Or.inr ho)))
        · exact Or.inl (removeElementByPriority_error hr ▸ ho)
        · obtain rfl := removeElementByPriority_success hr hne
          exact Or.inr (Or.inr (Or.inr (Or.inl ⟨.memoryWait, p, k₁, k₂, rfl, hp, hr, hput, Or.inl ho⟩)))
      by_cases hmess : (k.pcbs p).state = .messageWait
      · exact Or.inr (Or.inl ⟨p, kernelSetProcessPriority_messageWait h₀ hget hp hmess⟩)
      · rw [kernelSetProcessPriority_ready h₀ hget hp hmem hmess]
        rcases movePCB_cases p .ready n _ k with ho | ⟨k₁, hr, ho⟩ | ⟨r, k₁, k₂, hr, hne, hput, ho⟩
        · exact Or.inr (Or.inr (Or.inr (Or.inr ho)))
        · exact Or.inl (removeElementByPriority_error hr ▸ ho)
        · obtain rfl := removeElementByPriority_success hr hne
          refine Or.inr (Or.inr (Or.inr (Or.inl ⟨.ready, p, k₁, k₂, rfl, hp, hr, hput, ?_⟩)))
          rw [ho]
          split
          next hlt => exact Or.inr ⟨rfl, h₀, hmem, hmess, hlt, rfl⟩
          next => exact Or.inl rfl

end
end DoorRtos
