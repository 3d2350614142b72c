import DoorRtos.Theorems.Calls
import DoorRtos.Theorems.Scheduling

/-! What the primitives that reschedule do and leave alone, whatever the queues look like. -/

namespace DoorRtos
open Linked

/-- The kernels differ in the states of the processes, in what the two queues hold and in which process runs:
    the messages, the delayed messages, the free blocks and the identity of the processes are the same. -/
structure Rescheduled (k k' : Kernel) : Prop where
  pid : ∀ p, (k'.pcbs p).pid = (k.pcbs p).pid
  messQueue : ∀ p, (k'.pcbs p).messQueue = (k.pcbs p).messQueue
  mess : k'.mess = k.mess
  messNext : k'.messNext = k.messNext
  mQueues : k'.mQueues = k.mQueues
  delayedSendQueue : k'.delayedSendQueue = k.delayedSendQueue
  blockNext : k'.blockNext = k.blockNext
  freeMemQ : k'.freeMemQ = k.freeMemQ
  inIProcess : k.inIProcess = false → k'.inIProcess = false

section
variable {k k' k₁ k₂ : Kernel} {w : QueueId} {p x : PcbRef} {st : ProcState} {n : Nat} {α : Type}

theorem Rescheduled.refl (k : Kernel) : Rescheduled k k :=
  ⟨fun _ => rfl, fun _ => rfl, rfl, rfl, rfl, rfl, rfl, rfl, id⟩

theorem Rescheduled.trans (h : Rescheduled k k₁) (h' : Rescheduled k₁ k₂) : Rescheduled k k₂ where
  pid p := (h'.pid p).trans (h.pid p)
  messQueue p := (h'.messQueue p).trans (h.messQueue p)
  mess := h'.mess.trans h.mess
  messNext := h'.messNext.trans h.messNext
  mQueues := h'.mQueues.trans h.mQueues
  delayedSendQueue := h'.delayedSendQueue.trans h.delayedSendQueue
  blockNext := h'.blockNext.trans h.blockNext
  freeMemQ := h'.freeMemQ.trans h.freeMemQ
  inIProcess hi := h'.inIProcess (h.inIProcess hi)

theorem Rescheduled.setQueue (k : Kernel) (w : QueueId) (next : Links PcbRef) (q : METAPCBQueue) :
    Rescheduled k (k.setQueue w next q) := by
  cases w <;> exact ⟨fun _ => rfl, fun _ => rfl, rfl, rfl, rfl, rfl, rfl, rfl, id⟩

theorem Rescheduled.setState (k : Kernel) (p : PcbRef) (st : ProcState) : Rescheduled k (k.setState p st) :=
  ⟨fun _ => Kernel.setState_pid .., fun _ => Kernel.setState_messQueue .., rfl, rfl, rfl, rfl, rfl, rfl, id⟩

theorem Rescheduled.setPriority (k : Kernel) (p : PcbRef) (n : Nat) : Rescheduled k (k.setPriority p n) :=
  ⟨fun _ => Kernel.setPriority_pid .., fun _ => Kernel.setPriority_messQueue .., rfl, rfl, rfl, rfl, rfl, rfl, id⟩

theorem Rescheduled.switchTo (k : Kernel) (p : PcbRef) : Rescheduled k { k with currentPcb := p } :=
  ⟨fun _ => rfl, fun _ => rfl, rfl, rfl, rfl, rfl, rfl, rfl, id⟩

theorem enqueuePCBByPriority_rescheduled (hs : enqueuePCBByPriority w p k = some k') : Rescheduled k k' := by
  obtain ⟨-, next, c, rfl⟩ := enqueuePCBByPriority_inv hs
  exact .setQueue ..

theorem dequeuePCBFIFOByPriority_rescheduled {o : Option PcbRef} (hs : dequeuePCBFIFOByPriority w k = some (o, k')) :
    Rescheduled k k' := by
  unfold dequeuePCBFIFOByPriority at hs
  simp only at hs
  split at hs
  · obtain ⟨⟨o', next, c⟩, -, hs⟩ := Option.bind_eq_some_iff.mp hs
    cases hs
    exact .setQueue ..
  · cases hs
    exact .refl k

theorem unlinkElement_inv {i : Level} {previous : Option PcbRef} (hs : unlinkElement w i previous p k = some k') :
    ∃ next q, k' = k.setQueue w next q := by
  unfold unlinkElement at hs
  simp only at hs
  split at hs
  · cases hs
    exact ⟨_, _, rfl⟩
  split at hs
  · cases hs
    exact ⟨_, _, rfl⟩
  split at hs
  · cases hs
    exact ⟨_, _, rfl⟩
  · obtain ⟨y, -, hs⟩ := Option.map_eq_some_iff.mp hs
    exact ⟨_, _, hs.symm⟩

/-- `remove_element` changes nothing when it does not find the PCB, else the links and its queue only. -/
theorem removeElementByPriority_inv (hs : removeElementByPriority p w k = some (n, k')) :
    n = rtxError ∧ k' = k ∨ n = rtxSuccess ∧ ∃ next q, k' = k.setQueue w next q := by
  unfold removeElementByPriority at hs
  split at hs
  · unfold removeElement at hs
    split at hs
    · cases hs
    · cases hs
      exact Or.inl ⟨rfl, rfl⟩
    · obtain ⟨k₁, hs, he⟩ := Option.map_eq_some_iff.mp hs
      cases he
      exact Or.inr ⟨rfl, unlinkElement_inv hs⟩
  · cases hs

theorem removeElementByPriority_error (hs : removeElementByPriority p w k = some (rtxError, k')) : k' = k := by
  rcases removeElementByPriority_inv hs with ⟨-, he⟩ | ⟨hr, -⟩
  · exact he
  · exact absurd hr (by decide)

theorem removeElementByPriority_success (hs : removeElementByPriority p w k = some (n, k')) (hn : n ≠ rtxError) :
    n = rtxSuccess := by
  rcases removeElementByPriority_inv hs with ⟨he, -⟩ | ⟨hr, -⟩
  · exact absurd he hn
  · exact hr

theorem removeElementByPriority_rescheduled (hs : removeElementByPriority p w k = some (n, k')) : Rescheduled k k' := by
  rcases removeElementByPriority_inv hs with ⟨-, rfl⟩ | ⟨-, next, q, rfl⟩
  · exact .refl _
  · exact .setQueue ..

/-! ### What a primitive takes out of a queue -/

/-- The PCB that a subqueue gives out next. -/
def oldest (q : PCBQueue) : Option PcbRef := if isEmpty q then none else q.tail

/-- The PCB that a queue gives out next: the oldest of the subqueue that its `highest_prio` tells. -/
def Kernel.top (k : Kernel) (w : QueueId) : Option PcbRef :=
  if h : (k.queue w).highestPrio < numPrio + 1 then oldest ((k.queue w).subqueues ⟨_, h⟩) else none

theorem top_eq {i : Level} (hh : (k.queue w).highestPrio = i.val) : k.top w = oldest ((k.queue w).subqueues i) := by
  have hlt : (k.queue w).highestPrio < numPrio + 1 := hh ▸ i.isLt
  have hidx : (⟨(k.queue w).highestPrio, hlt⟩ : Level) = i := Fin.ext hh
  unfold Kernel.top
  rw [dif_pos hlt, hidx]

theorem top_of_dequeue (hs : dequeuePCBFIFOByPriority w k = some (some p, k')) : k.top w = some p := by
  obtain ⟨i, next, c, h, hh, hshift, -⟩ := dequeuePCBFIFOByPriority_inv hs
  obtain ⟨hne, htail⟩ := Queue.shift_some hshift
  rw [top_eq hh]
  exact (if_neg fun he => Bool.false_ne_true (hne.symm.trans he)).trans htail

/-- A primitive that takes the next ready process either finds none or never returns. -/
theorem runNext_inv (hs : (runNext k : Outcome α) = .switched k') :
    ∃ p k₁, dequeuePCBFIFOByPriority .ready k = some (some p, k₁) ∧
      k' = { k₁.setState p .running with currentPcb := p } := by
  unfold runNext at hs
  rcases htake : dequeuePCBFIFOByPriority .ready k with _ | ⟨_ | p, k₁⟩ <;> rw [htake] at hs
  · cases hs
  · cases hs
  · cases hs
    exact ⟨p, k₁, rfl, rfl⟩

theorem runNext_not_returned {a : α} : (runNext k : Outcome α) ≠ .returned a := by
  unfold runNext
  rcases dequeuePCBFIFOByPriority .ready k with _ | ⟨_ | p, k₁⟩
  · exact fun h => nomatch h
  · exact fun h => nomatch h
  · exact fun h => nomatch h

/-- `process_switch` returns when no ready process is as urgent as the running one. -/
theorem processSwitch_returned (hs : processSwitch k = .returned k') :
    k.current.priority < k.readyQueue.highestPrio ∧ k' = k := by
  unfold processSwitch at hs
  split at hs
  · exfalso
    rcases htake : dequeuePCBFIFOByPriority .ready k with _ | ⟨_ | p, k₁⟩ <;> rw [htake] at hs
    · cases hs
    · cases hs
    · simp only [Outcome.liftM_some, Outcome.returned_bind] at hs
      cases hput : enqueuePCBByPriority .ready ((k₁.setState p .running).setState
          (k₁.setState p .running).currentPcb .ready).currentPcb ((k₁.setState p .running).setState
          (k₁.setState p .running).currentPcb .ready) <;> rw [hput] at hs <;> cases hs
  next hle =>
    cases hs
    exact ⟨Nat.lt_of_not_le hle, rfl⟩

/-- What `process_switch` does when it does not return: the running process goes back into the ready queue. -/
theorem processSwitch_inv (hs : processSwitch k = .switched k') :
    k.readyQueue.highestPrio ≤ k.current.priority ∧ ∃ p k₁ k₂, dequeuePCBFIFOByPriority .ready k = some (some p, k₁) ∧
      enqueuePCBByPriority .ready k.currentPcb ((k₁.setState p .running).setState k.currentPcb .ready) = some k₂ ∧
      k' = { k₂ with inIProcess := false, currentPcb := p } := by
  unfold processSwitch at hs
  split at hs
  next hle =>
    refine ⟨hle, ?_⟩
    rcases htake : dequeuePCBFIFOByPriority .ready k with _ | ⟨_ | p, k₁⟩ <;> rw [htake] at hs
    · cases hs
    · cases hs
    · have hcur : k₁.currentPcb = k.currentPcb := by
        obtain ⟨i, next, c, h, -, -, rfl⟩ := dequeuePCBFIFOByPriority_inv htake
        exact Kernel.setQueue_currentPcb ..
      simp only [Outcome.liftM_some, Outcome.returned_bind, Kernel.setState_currentPcb, hcur] at hs
      cases hput : enqueuePCBByPriority .ready k.currentPcb ((k₁.setState p .running).setState k.currentPcb .ready) with
      | none =>
        rw [hput] at hs
        cases hs
      | some k₂ =>
        rw [hput] at hs
        cases hs
        exact ⟨p, k₁, k₂, rfl, hput, rfl⟩
  · cases hs

theorem runNext_rescheduled (hs : (runNext k : Outcome α) = .switched k') : Rescheduled k k' := by
  obtain ⟨p, k₁, htake, rfl⟩ := runNext_inv hs
  exact ((dequeuePCBFIFOByPriority_rescheduled htake).trans (.setState k₁ p .running)).trans (.switchTo _ p)

theorem processSwitch_rescheduled (hs : (processSwitch k).kernel? = some k') : Rescheduled k k' := by
  rcases Outcome.kernel?_eq_some.mp hs with ho | ho
  · rw [(processSwitch_returned ho).2]
    exact .refl k
  · obtain ⟨-, p, k₁, k₂, htake, hput, rfl⟩ := processSwitch_inv ho
    have h := ((dequeuePCBFIFOByPriority_rescheduled htake).trans ((Rescheduled.setState k₁ p .running).trans
      (.setState _ k.currentPcb .ready))).trans (enqueuePCBByPriority_rescheduled hput)
    exact ⟨h.pid, h.messQueue, h.mess, h.messNext, h.mQueues, h.delayedSendQueue, h.blockNext, h.freeMemQ, fun _ => rfl⟩

end
end DoorRtos
