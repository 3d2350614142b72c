import DoorRtos.Theorems.Blocks
import DoorRtos.Theorems.Endings
import DoorRtos.Theorems.Preemption
import DoorRtos.Theorems.Results
import DoorRtos.Theorems.Wakeups

/-! The calls of an interrupt process. `kernel_send_message`, `kernel_receive_message` and
    `kernel_request_memory_block` look at `in_i_process` before they leave the running process;
    `kernel_release_memory_block` does not. -/

namespace DoorRtos
open Linked

/-- An interrupt process runs over well-formed queues. -/
structure Inside (k : Kernel) (L : Slot → List PcbRef) : Prop where
  inIProcess : k.inIProcess = true
  iProcess : IProcess k.currentPcb
  rep : Rep k L
  own : Own k L
  mailbox : ∃ mq l, k.current.messQueue = some mq ∧ Queue.Holds k.messNext (k.mQueues mq) l
  free : ∃ F, Queue.Holds k.blockNext k.freeMemQ F

/-- The calls of the four primitives that block a process or wake one. -/
def Call.BlocksOrWakes : Call → Prop
  | sendMessage _ _ | receiveMessage _ | requestMemoryBlock | releaseMemoryBlock _ => True
  | _ => False

/-- The call returns, the same process runs and `in_i_process` is still set. -/
def Stays (k : Kernel) (c : Call) : Prop :=
  ∃ k' value, swiTrapHandler (c.enter k) = .returned k' ∧ c.leave k' = some value ∧
    k'.currentPcb = k.currentPcb ∧ k'.inIProcess = true

/-- What a call is given can be followed, and nobody more urgent than the interrupt process waits for the block that
    it releases. -/
def Undisturbed (k : Kernel) (L : Slot → List PcbRef) : Call → Prop
  | .sendMessage pid envelope => (toPtr envelope).isSome ∧ ∀ d, getPcb k pid = some d →
      (k.pcbs d).messQueue.isSome ∧ ((k.pcbs d).state = .messageWait → (k.pcbs d).priority ≤ numPrio)
  | .releaseMemoryBlock memoryBlock => (toPtr memoryBlock).isSome ∧
      ∀ p, InQueue L .memoryWait p → k.current.priority ≤ (k.pcbs p).priority
  | _ => True

section
variable {k k' k₁ : Kernel} {L : Slot → List PcbRef} {d mq p : PcbRef} {e : Addr} {pid : Nat} {c : Call}

theorem Inside.enter (h : Inside k L) (c : Call) : Inside (c.enter k) L := by
  obtain ⟨hi, hip, hrep, hown, hbox, hfree⟩ := h
  cases c <;> exact ⟨hi, hip, hrep.congr rfl rfl, hown, hbox, hfree⟩

theorem undisturbed_enter : Undisturbed (c.enter k) L c ↔ Undisturbed k L c := by cases c <;> exact Iff.rfl

theorem stays_iff (hi : k.inIProcess = true) :
    Stays k c ↔ ∃ v k₁, c.computes (c.enter k) = .returned (v, k₁) ∧ (c.leave (c.store v k₁)).isSome := by
  have hends := call_ends c k
  unfold Stays
  rw [swiTrapHandler_enter] at hends ⊢
  constructor
  · rintro ⟨k', value, ho, hl, -, -⟩
    obtain ⟨⟨v, k₁⟩, hcomputes, ho⟩ := Outcome.bind_eq_returned.mp ho
    cases ho
    exact ⟨v, k₁, hcomputes, by rw [hl]; rfl⟩
  · rintro ⟨v, k₁, hcomputes, hl⟩
    obtain ⟨value, hvalue⟩ := Option.isSome_iff_exists.mp hl
    rw [hcomputes] at hends ⊢
    exact ⟨_, value, rfl, hvalue, hends.1.trans (enter_currentPcb c k), (hends.2.trans (enter_inIProcess c k)).trans hi⟩

/-! ### The primitives that look at the flag -/

/-- Sending returns unless it follows a pointer of an unused slot or indexes past the subqueues. -/
theorem kernelSendMessage_returns_iff (hi : k.inIProcess = true) :
    (∃ r, kernelSendMessage pid e k = .returned r) ↔ ∀ d, getPcb k pid = some d →
      (k.pcbs d).messQueue.isSome ∧ ((k.pcbs d).state = .messageWait → (k.pcbs d).priority ≤ numPrio) := by
  cases hd : getPcb k pid with
  | none => exact ⟨fun _ d hd => (nomatch hd), fun _ => ⟨_, kernelSendMessage_unknown hd⟩⟩
  | some d =>
    simp only [Option.some.injEq, forall_eq']
    cases hmq : (k.pcbs d).messQueue with
    | none =>
      rw [kernelSendMessage_stuck hd hmq]
      refine ⟨?_, fun h => Bool.noConfusion h.1⟩
      rintro ⟨r, ho⟩
      cases ho
    | some mq =>
      by_cases hst : (k.pcbs d).state = .messageWait
      · simp only [hst, Option.isSome_some, true_and, forall_const]
        refine ⟨fun ⟨r, ho⟩ => Nat.le_of_not_lt fun hlt => ?_, fun hprio => ?_⟩
        · have hlast := sendMessage_past_levels (e := e) hd hmq hst hlt
          rw [ho] at hlast
          cases hlast
        · obtain ⟨i, k₁, -, hput, hcur, -⟩ := exists_woken k d mq e pid hprio
          have hpcbs : ∀ x, (k₁.pcbs x).pid = (k.pcbs x).pid := fun x => by
            obtain ⟨-, next, c, rfl⟩ := enqueuePCBByPriority_inv hput
            simp
          obtain ⟨source, hsrc⟩ := Option.isSome_iff_exists.mp (getPcb_isSome k k.currentPcb)
          have hflag : k₁.inIProcess = true := ((enqueuePCBByPriority_current hput).2).trans hi
          rw [kernelSendMessage_woken hd hmq hst hput ((getPcb_congr hpcbs _).trans hsrc), if_neg fun h => h.2 hflag]
          exact ⟨_, rfl⟩
      · rw [kernelSendMessage_deliver hd hmq hst]
        exact ⟨fun _ => ⟨rfl, fun h => absurd h hst⟩, fun _ => ⟨_, rfl⟩⟩

theorem Inside.receive (h : Inside k L) : ∃ r, kernelReceiveMessage k = .returned r ∧ r.2.msgReturn = true := by
  obtain ⟨mq, l, hmq, hholds⟩ := h.mailbox
  cases hempty : isMsgqEmpty (k.mQueues mq) with
  | true => exact ⟨_, kernelReceiveMessage_idle hmq hempty h.inIProcess, rfl⟩
  | false =>
    obtain ⟨l, e, rfl⟩ := (List.eq_nil_or_concat l).resolve_left fun hl => by
      have := hholds.isEmpty_iff.mpr hl
      exact absurd (hempty.symm.trans this) (by decide)
    rw [List.concat_eq_append] at hholds
    obtain ⟨next, q, hs, -⟩ := hholds.shift (Addr.length_le hholds.nodup)
    exact ⟨_, kernelReceiveMessage_take hmq hempty hs, rfl⟩

theorem Inside.request (h : Inside k L) : ∃ r, kernelRequestMemoryBlock k = .returned r := by
  obtain ⟨F, hholds⟩ := h.free
  rcases List.eq_nil_or_concat F with rfl | ⟨F, b, rfl⟩
  · exact ⟨_, kernelRequestMemoryBlock_idle hholds.shift_nil h.inIProcess⟩
  · rw [List.concat_eq_append] at hholds
    obtain ⟨next, q, hs, -⟩ := hholds.shift (Addr.length_le hholds.nodup)
    exact ⟨_, kernelRequestMemoryBlock_take hs⟩

/-! ### The primitive that does not -/

/-- `process_switch` never comes back when the process just woken is more urgent than the caller. -/
theorem processSwitch_woken {i : Level} (hrep : Rep k (insertAt L .ready i p)) (hlt : i.val < k.current.priority) :
    ¬∃ k', processSwitch k = .returned k' := by
  rintro ⟨k', ho⟩
  have hle := (hrep.highest .ready).le_of_mem (p := p) (i := i) (by simp [insertAt])
  exact absurd (processSwitch_returned ho).1 (Nat.not_lt_of_le (Nat.le_trans hle (Nat.le_of_lt hlt)))

theorem Inside.release_iff (h : Inside k L) :
    (∃ r, kernelReleaseMemoryBlock e k = .returned r) ↔
      ∀ p, InQueue L .memoryWait p → k.current.priority ≤ (k.pcbs p).priority := by
  have hrep : Rep (k.freed e) L := h.rep.congr rfl rfl
  by_cases hnone : ∀ i, L (.memoryWait, i) = []
  · rw [kernelReleaseMemoryBlock_idle ((isMETAPCBQueueEmpty_iff hrep).mpr hnone)]
    refine ⟨fun _ p hp => ?_, fun _ => ⟨_, rfl⟩⟩
    obtain ⟨i, hp⟩ := hp
    rw [hnone i] at hp
    cases hp
  have hbusy : isMETAPCBQueueEmpty .memoryWait (k.freed e) = false :=
    Bool.eq_false_iff.mpr fun he => hnone ((isMETAPCBQueueEmpty_iff hrep).mp he)
  obtain ⟨x, hx⟩ : ∃ x, InQueue L .memoryWait x := by
    obtain ⟨i, hi⟩ := not_forall.mp hnone
    obtain ⟨x, hx⟩ := List.exists_mem_of_ne_nil _ hi
    exact ⟨x, i, hx⟩
  obtain ⟨p, hp⟩ := exists_next hx
  obtain ⟨next, c, L₁, htake, hrep₁, htaken⟩ := hp.take hrep
  have hprio := h.own.priority_le htaken.mem
  have hlevel : ((((k.freed e).setQueue .memoryWait next c).setState p .ready).pcbs p).priority =
      (⟨(k.pcbs p).priority, Nat.lt_succ_of_le hprio⟩ : Level).val := by
    rw [Kernel.setState_priority, Kernel.setQueue_pcbs]
    rfl
  have hrep₂ : Rep (((k.freed e).setQueue .memoryWait next c).setState p .ready) L₁ := hrep₁.congr rfl rfl
  obtain ⟨next', c', hput, hrep₃⟩ := enqueuePCBByPriority_spec (w := .ready) hrep₂ htaken.unlinked hlevel
  have hcurrent :
      ((((k.freed e).setQueue .memoryWait next c).setState p .ready).setQueue .ready next' c').current.priority =
        k.current.priority := by
    simp only [Kernel.current, Kernel.setQueue_pcbs, Kernel.setState_priority, Kernel.setQueue_currentPcb,
      Kernel.setState_currentPcb]
    rfl
  rw [kernelReleaseMemoryBlock_wake hbusy htake hput, hcurrent, Kernel.setQueue_pcbs, hlevel]
  -- The process that is woken is the most urgent of those that wait.
  by_cases hlt : (k.pcbs p).priority < k.current.priority
  · rw [if_pos hlt]
    refine ⟨fun hret => ?_, fun hall => absurd (hall p htaken.mem) (Nat.not_le_of_lt hlt)⟩
    obtain ⟨r, ho⟩ := hret
    obtain ⟨k₃, hs, -⟩ := Outcome.bind_eq_returned.mp ho
    exact absurd ⟨k₃, hs⟩ (processSwitch_woken hrep₃ (hcurrent ▸ hlt))
  · rw [if_neg hlt]
    refine ⟨fun _ q hq => Nat.le_trans (Nat.le_of_not_lt hlt) ?_, fun _ => ⟨_, rfl⟩⟩
    exact hp.highestPrio h.rep h.own ▸ h.rep.highestPrio_le h.own hq

/-! ### All four -/

/-- Exactly when a call of an interrupt process returns to it. -/
theorem iProcess_stays_iff (h : Inside k L) (hc : c.BlocksOrWakes) : Stays k c ↔ Undisturbed k L c := by
  rw [stays_iff h.inIProcess, ← undisturbed_enter]
  have henter := h.enter c
  cases c with
  | sendMessage pid envelope =>
    cases hptr : toPtr envelope with
    | none => simp [Call.computes, Undisturbed, hptr]
    | some b =>
      have hiff : (∃ r, kernelSendMessage pid b ((Call.sendMessage pid envelope).enter k) = .returned r) ↔ _ :=
        kernelSendMessage_returns_iff henter.inIProcess
      simpa [Call.computes, Call.leave, Undisturbed, hptr] using hiff
  | receiveMessage senderID =>
    obtain ⟨⟨o, k₁⟩, ho, hret⟩ := henter.receive
    refine iff_of_true ⟨toWord o, k₁, ?_, ?_⟩ trivial
    · unfold Call.computes
      rw [ho]
      rfl
    · exact Option.isSome_iff_exists.mpr ⟨_, if_pos hret⟩
  | requestMemoryBlock =>
    obtain ⟨⟨o, k₁⟩, ho⟩ := henter.request
    refine iff_of_true ⟨toWord o, k₁, ?_, rfl⟩ trivial
    unfold Call.computes
    rw [ho]
    rfl
  | releaseMemoryBlock memoryBlock =>
    cases hptr : toPtr memoryBlock with
    | none => simp [Call.computes, Undisturbed, hptr]
    | some b =>
      have hiff := henter.release_iff (e := b)
      simpa [Call.computes, Call.leave, Undisturbed, hptr] using hiff
  | releaseProcessor => cases hc
  | delayedSend pid envelope delay => cases hc
  | setProcessPriority pid priority => cases hc
  | getProcessPriority pid => cases hc

end

/-! ### Runs -/

/-- What an interrupt leaves to its process. -/
theorem Inside.of_interrupt {k : Kernel} {L : Slot → List PcbRef} {lvl : Level} {q mq : PcbRef} {l F : List Addr}
    (hrep : Rep k L) (hown : Own k L) (hun : Unlinked L k.currentPcb) (hprio : k.current.priority = lvl.val)
    (hq : IProcess q) (hmq : (k.pcbs q).messQueue = some mq) (hbox : Queue.Holds k.messNext (k.mQueues mq) l)
    (hfree : Queue.Holds k.blockNext k.freeMemQ F) :
    ∃ k₁, interruptHandler q k = .switched k₁ ∧ Inside k₁ (insertAt L .ready lvl k.currentPcb) := by
  obtain ⟨k₁, hs, hi⟩ := interruptHandler_spec hrep hun hprio q
  obtain ⟨k₂, hput, rfl⟩ := interruptHandler_inv (Outcome.kernel?_eq_some.mpr (Or.inr hs))
  obtain ⟨-, next, c, rfl⟩ := enqueuePCBByPriority_inv hput
  have hown₁ : Own k (insertAt L .ready lvl k.currentPcb) := hown.insertAt hprio
  exact ⟨_, hs, hi.inIProcess, hq, hi.rep, hown₁.congr fun _ => by rw [hi.pcbs], ⟨mq, l, hmq, hbox⟩, F, hfree⟩

/-- The UART interrupts the first process, and its process requests a block. -/
theorem iProcess_stays_at_boot :
    ∃ k k₁, boot rtosMap = .switched k ∧ uartHandler k = .switched k₁ ∧ Stays k₁ .requestMemoryBlock := by
  obtain ⟨k, hboot, h⟩ := boot_spec rtosMap
  have hcur : k.current.priority = (0 : Level).val := by
    unfold Kernel.current
    rw [h.started.current, h.started.pcb (wcPid, Priority.high) (by decide)]
    rfl
  have hbox : Queue.Holds k.messNext (k.mQueues uartPid) [] := by
    rw [h.started.mailbox uartPid (Or.inl (by decide))]
    exact Queue.holds_empty _
  obtain ⟨k₁, hs, hi⟩ := Inside.of_interrupt h.started.rep h.started.wellScheduled.own
    (by rw [h.started.current]; decide) hcur (q := uartPid) (by decide)
    (h.mailbox uartPid (h.started.created_iff.mpr (Or.inl (by decide)))) hbox h.free
  exact ⟨k, k₁, hboot, hs, (iProcess_stays_iff hi (c := .requestMemoryBlock) trivial).mpr trivial⟩

/-- The wall clock process has all blocks, sends the first of them to the UART process and waits for another one. -/
def starved : List Act := [.call (.sendMessage uartPid.val firstBlock.val), .resume, .call .requestMemoryBlock]

/-- The UART interrupts, and its process receives what it has been sent. -/
def uartReceives (k : Kernel) : Option Kernel :=
  (uartHandler k).kernel?.bind fun k => (swiTrapHandler ((Call.receiveMessage 0).enter k)).kernel?

/-- Then it releases the block: the wall clock process is woken, and the UART process has lost the processor. -/
theorem iProcess_preempted :
    ∃ s k, ((boot rtosMap).kernel?.bind fun k => Runs.exec Sys.step (.start k) (requests 256 ++ starved)) = some s ∧
      uartReceives s.kernel = some k ∧ (Call.receiveMessage 0).leave k = some firstBlock.val ∧
      k.inIProcess = true ∧ IProcess k.currentPcb ∧ ¬Stays k (.releaseMemoryBlock firstBlock.val) := by
  have hrun : ((boot rtosMap).kernel?.any fun k =>
      (Runs.exec Sys.step ((Sys.start k).drained rtosMap.pool.dropLast (rtosMap.block (Fin.last 255))) starved).any fun s =>
        (uartReceives s.kernel).any fun k =>
          decide ((Call.receiveMessage 0).leave k = some firstBlock.val ∧ k.inIProcess = true ∧ IProcess k.currentPcb) &&
            (swiTrapHandler ((Call.releaseMemoryBlock firstBlock.val).enter k)).kernel?.any fun k' =>
              decide (k'.currentPcb ≠ k.currentPcb)) = true := by decide +kernel
  obtain ⟨k, hboot, h⟩ := boot_spec rtosMap
  rw [hboot] at hrun
  obtain ⟨s, hs, hrun⟩ := Option.any_eq_true _ _ |>.mp (show Option.any _ (Runs.exec _ _ _) = true from hrun)
  obtain ⟨k₁, hk₁, hrun⟩ := Option.any_eq_true _ _ |>.mp hrun
  obtain ⟨hstate, hrelease⟩ := Bool.and_eq_true_iff.mp hrun
  obtain ⟨hleave, hi, hip⟩ := of_decide_eq_true hstate
  obtain ⟨k₂, hk₂, hne⟩ := Option.any_eq_true _ _ |>.mp hrelease
  refine ⟨s, k₁, ?_, hk₁, hleave, hi, hip, ?_⟩
  · rw [hboot]
    show Runs.exec Sys.step (.start k) (requests 256 ++ starved) = some s
    rw [Runs.exec_append, h.drained]
    exact hs
  · rintro ⟨k', value, ho, -, hcur, -⟩
    rw [ho] at hk₂
    cases hk₂
    exact of_decide_eq_true hne hcur

end DoorRtos
