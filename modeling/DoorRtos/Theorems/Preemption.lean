import DoorRtos.Interrupts
import DoorRtos.Runs
import DoorRtos.Theorems.Rescheduling
import DoorRtos.Theorems.WellScheduled

/-! The interrupt handlers, and how an interrupt process gives the processor back. It leaves through
    `process_switch`, which compares the ready processes with the interrupt process itself: when the most urgent
    of them is less urgent than that, the interrupt process keeps the processor. -/

namespace DoorRtos
open Linked

section
variable {k k' k₁ : Kernel} {L L' : Slot → List PcbRef} {lvl : Level} {p q x : PcbRef}

/-! ### The handlers -/

theorem interruptHandler_inv (hs : (interruptHandler q k).kernel? = some k') :
    ∃ k₁, enqueuePCBByPriority .ready k.currentPcb { k with inIProcess := true } = some k₁ ∧
      k' = { k₁ with currentPcb := q } := by
  have hs : (liftM (enqueuePCBByPriority .ready k.currentPcb { k with inIProcess := true }) >>=
      contextSwitch (some q)).kernel? = some k' := hs
  cases hput : enqueuePCBByPriority .ready k.currentPcb { k with inIProcess := true } with
  | none =>
    rw [hput] at hs
    cases hs
  | some k₁ =>
    rw [hput] at hs
    cases hs
    exact ⟨k₁, rfl, rfl⟩

/-- The kernel `k₁` is `k` with the running process in the ready queue and `q` running in its place. -/
structure Interrupted (k : Kernel) (L : Slot → List PcbRef) (lvl : Level) (q : PcbRef) (k₁ : Kernel) : Prop where
  rep : Rep k₁ (insertAt L .ready lvl k.currentPcb)
  pcbs : k₁.pcbs = k.pcbs
  current : k₁.currentPcb = q
  inIProcess : k₁.inIProcess = true

theorem interruptHandler_spec (hrep : Rep k L) (hun : Unlinked L k.currentPcb) (hprio : k.current.priority = lvl.val)
    (q : PcbRef) : ∃ k₁, interruptHandler q k = .switched k₁ ∧ Interrupted k L lvl q k₁ := by
  have hrep₀ : Rep { k with inIProcess := true } L := hrep.congr rfl rfl
  obtain ⟨next, c, hput, hrep₁⟩ := enqueuePCBByPriority_spec (w := .ready) hrep₀ hun hprio
  refine ⟨{ { k with inIProcess := true }.setQueue .ready next c with currentPcb := q }, ?_, hrep₁.congr rfl rfl, rfl, rfl,
    rfl⟩
  show (liftM (enqueuePCBByPriority .ready k.currentPcb { k with inIProcess := true }) >>= _) = _
  rw [hput]
  rfl

theorem handler_eq (i : Interrupt) (k : Kernel) : i.handler k = interruptHandler i.pid k := by cases i <;> rfl

theorem iProcess_pid (i : Interrupt) : IProcess i.pid := by cases i <;> decide

/-! ### The steps of the machine -/

section
variable {m m' : Machine}

theorem Machine.step_interrupt {i : Interrupt} (hs : m.step (.interrupt i) = some m') :
    ¬IProcess m.kernel.currentPcb ∧ (interruptHandler i.pid m.kernel).kernel? = some m'.kernel ∧
      m'.interrupts = Function.update m.interrupts i.pid (m.interrupts i.pid + 1) ∧ m'.rounds = m.rounds := by
  simp only [Machine.step] at hs
  split at hs
  · cases hs
  next hip =>
    obtain ⟨k', hk, rfl⟩ := Option.map_eq_some_iff.mp hs
    exact ⟨hip, handler_eq i m.kernel ▸ hk, rfl, rfl⟩

theorem Machine.step_iRelease (hs : m.step .iRelease = some m') :
    IProcess m.kernel.currentPcb ∧ (processSwitch (Call.releaseProcessor.enter m.kernel)).kernel? = some m'.kernel ∧
      m'.interrupts = m.interrupts ∧
      m'.rounds = Function.update m.rounds m.kernel.currentPcb (m.rounds m.kernel.currentPcb + 1) := by
  simp only [Machine.step] at hs
  split at hs
  next hip =>
    obtain ⟨k', hk, rfl⟩ := Option.map_eq_some_iff.mp hs
    rw [swiTrapHandler_releaseProcessor rfl] at hk
    exact ⟨hip, hk, rfl, rfl⟩
  · cases hs

theorem Machine.step_call {c : Call} (hs : m.step (.call c) = some m') :
    ¬IProcess m.kernel.currentPcb ∧ (swiTrapHandler (c.enter m.kernel)).kernel? = some m'.kernel ∧
      m'.interrupts = m.interrupts ∧ m'.rounds = m.rounds := by
  simp only [Machine.step] at hs
  split at hs
  · cases hs
  next hip =>
    obtain ⟨k', hk, rfl⟩ := Option.map_eq_some_iff.mp hs
    exact ⟨hip, hk, rfl, rfl⟩

end

/-! ### The way back -/

/-- What an interrupt process should leave behind: the flag is cleared, and an ordinary process of the smallest
    priority number among the interrupted process and the ready ones runs. -/
structure GivesBack (k : Kernel) (L : Slot → List PcbRef) (k' : Kernel) : Prop where
  inIProcess : k'.inIProcess = false
  ordinary : ¬IProcess k'.currentPcb
  candidate : k'.currentPcb = k.currentPcb ∨ InQueue L .ready k'.currentPcb
  least : ∀ x, x = k.currentPcb ∨ InQueue L .ready x → (k.pcbs k'.currentPcb).priority ≤ (k.pcbs x).priority

/-- `process_switch` runs the next ready process. -/
theorem processSwitch_runs (hrep : Rep k L) (hp : Next L .ready p) (hle : k.readyQueue.highestPrio ≤ k.current.priority)
    (hprio : k.current.priority ≤ numPrio) :
    ∃ k', processSwitch k = .switched k' ∧ k'.currentPcb = p ∧ k'.inIProcess = false := by
  obtain ⟨next, c, L', htake, -, -⟩ := hp.take hrep
  have hi : ((((k.setQueue .ready next c).setState p .running).setState k.currentPcb .ready).pcbs
      k.currentPcb).priority = (⟨k.current.priority, Nat.lt_succ_of_le hprio⟩ : Level).val := by
    rw [Kernel.setState_priority, Kernel.setState_priority, Kernel.setQueue_pcbs]
    rfl
  exact ⟨_, processSwitch_eq hle htake (Kernel.setQueue_currentPcb ..) (enqueuePCBByPriority_eq hi), rfl, rfl⟩

/-- A running process whose priority has no subqueue cannot go back into the ready queue. -/
theorem processSwitch_past_levels (hrep : Rep k L) (hp : Next L .ready p)
    (hle : k.readyQueue.highestPrio ≤ k.current.priority) (hprio : numPrio < k.current.priority) :
    processSwitch k = .stuck := by
  obtain ⟨next, c, L', htake, -, -⟩ := hp.take hrep
  refine processSwitch_stuck hle htake (Kernel.setQueue_currentPcb ..) (enqueuePCBByPriority_eq_none ?_)
  rw [Kernel.setState_priority, Kernel.setState_priority, Kernel.setQueue_pcbs]
  exact hprio

section
variable (hi : Interrupted k L lvl q k₁) (hown : Own k L) (hprio : k.current.priority = lvl.val)
  (hp : Next (insertAt L .ready lvl k.currentPcb) .ready p)
include hi hown hprio hp

theorem Interrupted.highestPrio : k₁.readyQueue.highestPrio = (k.pcbs p).priority :=
  have hown₁ : Own k₁ (insertAt L .ready lvl k.currentPcb) := (hown.insertAt hprio).congr fun _ => by rw [hi.pcbs]
  (hp.highestPrio hi.rep hown₁).trans (by rw [hi.pcbs])

/-- An interrupt process that is more urgent than the next ready process keeps the processor. -/
theorem Interrupted.keeps (hlt : (k.pcbs q).priority < (k.pcbs p).priority) :
    swiTrapHandler (Call.releaseProcessor.enter k₁) = .returned (Call.releaseProcessor.enter k₁) := by
  have hcur : k₁.current.priority = (k.pcbs q).priority := by rw [Kernel.current, hi.pcbs, hi.current]
  rw [swiTrapHandler_releaseProcessor rfl]
  exact processSwitch_stay (k := Call.releaseProcessor.enter k₁) (hi.highestPrio hown hprio hp ▸ hcur ▸ hlt)

/-- Otherwise it leaves, for the next ready process, when its own priority has a subqueue. -/
theorem Interrupted.leaves (hle : (k.pcbs p).priority ≤ (k.pcbs q).priority) :
    if (k.pcbs q).priority ≤ numPrio then
      ∃ k', swiTrapHandler (Call.releaseProcessor.enter k₁) = .switched k' ∧ k'.currentPcb = p ∧ k'.inIProcess = false
    else swiTrapHandler (Call.releaseProcessor.enter k₁) = .stuck := by
  have hcur : k₁.current.priority = (k.pcbs q).priority := by rw [Kernel.current, hi.pcbs, hi.current]
  have hrep : Rep (Call.releaseProcessor.enter k₁) (insertAt L .ready lvl k.currentPcb) := hi.rep.congr rfl rfl
  have hhigh := hi.highestPrio hown hprio hp
  rw [swiTrapHandler_releaseProcessor rfl]
  split
  next hpast => exact processSwitch_runs hrep hp (hhigh ▸ hcur ▸ hle) (hcur ▸ hpast)
  next hpast => exact processSwitch_past_levels hrep hp (hhigh ▸ hcur ▸ hle) (hcur ▸ Nat.lt_of_not_le hpast)

end

/-- Exactly when an interrupt gives the processor back. The interrupted process counts as the newest of its
    priority in the ready queue, and the process that is then next must be an ordinary one, at least as urgent as
    the interrupt process, whose own priority must have a subqueue. -/
theorem interrupt_givesBack (i : Interrupt) (hrep : Rep k L) (hown : Own k L) (hun : Unlinked L k.currentPcb)
    (hprio : k.current.priority = lvl.val) :
    (∃ k₁ k', i.handler k = .switched k₁ ∧ k₁.currentPcb = i.pid ∧
        (swiTrapHandler (Call.releaseProcessor.enter k₁)).kernel? = some k' ∧ GivesBack k L k') ↔
      ∃ p, Next (insertAt L .ready lvl k.currentPcb) .ready p ∧ ¬IProcess p ∧
        (k.pcbs p).priority ≤ (k.pcbs i.pid).priority ∧ (k.pcbs i.pid).priority ≤ numPrio := by
  obtain ⟨k₁, hs, hi⟩ := interruptHandler_spec hrep hun hprio i.pid
  rw [handler_eq, hs]
  have hin : ∀ x, x = k.currentPcb ∨ InQueue L .ready x ↔ InQueue (insertAt L .ready lvl k.currentPcb) .ready x := by
    intro x
    rw [inQueue_insertAt]
    tauto
  obtain ⟨p, hp⟩ := exists_next ((hin k.currentPcb).mp (Or.inl rfl))
  constructor
  · rintro ⟨_, k', he, -, hs', hback⟩
    cases he
    have hle : (k.pcbs p).priority ≤ (k.pcbs i.pid).priority := by
      by_contra hlt
      rw [hi.keeps hown hprio hp (Nat.lt_of_not_le hlt)] at hs'
      cases hs'
      refine hback.ordinary ?_
      rw [show (Call.releaseProcessor.enter k₁).currentPcb = i.pid from hi.current]
      exact iProcess_pid i
    have hleaves := hi.leaves hown hprio hp hle
    split at hleaves
    next hpast =>
      obtain ⟨k₂, hrun, hcur₂, -⟩ := hleaves
      rw [hrun] at hs'
      cases hs'
      exact ⟨p, hp, hcur₂ ▸ hback.ordinary, hle, hpast⟩
    next =>
      rw [hleaves] at hs'
      cases hs'
  · rintro ⟨p', hp', hord, hle, hpast⟩
    cases hp.unique hp'
    have hleaves := hi.leaves hown hprio hp hle
    rw [if_pos hpast] at hleaves
    obtain ⟨k₂, hrun, hcur₂, hi₂⟩ := hleaves
    refine ⟨k₁, k₂, rfl, hi.current, by rw [hrun]; rfl, hi₂, hcur₂ ▸ hord, ?_, fun x hx => ?_⟩
    · rw [hcur₂]
      exact (hin p).mpr hp.inQueue
    · rw [hcur₂]
      exact hp.first (hown.insertAt hprio) ((hin x).mp hx)

/-- A timer interrupt of the first process after the start. -/
theorem interrupt_givesBack_at_boot :
    ∃ k k₁ k', boot rtosMap = .switched k ∧ timerHandler k = .switched k₁ ∧
      (swiTrapHandler (Call.releaseProcessor.enter k₁)).kernel? = some k' ∧ GivesBack k bootContents k' := by
  obtain ⟨k, hboot, h⟩ := boot_spec rtosMap
  have hwc : k.current = ⟨wcPid.val, .ready, Priority.high, some wcPid⟩ := by
    unfold Kernel.current
    rw [h.started.current]
    exact h.started.pcb (wcPid, Priority.high) (by decide)
  have hcrt : k.pcbs crtPid = ⟨crtPid.val, .ready, Priority.high, some crtPid⟩ :=
    h.started.pcb (crtPid, Priority.high) (by decide)
  have htimer : k.pcbs timerPid = ⟨timerPid.val, .ready, Priority.low, some timerPid⟩ :=
    h.started.iProcess timerPid (by decide)
  obtain ⟨k₁, k', hs, -, hs', hback⟩ := (interrupt_givesBack .timer h.started.rep
    h.started.wellScheduled.own (by rw [h.started.current]; decide)
    (show k.current.priority = (0 : Level).val by rw [hwc]; rfl)).mpr
      ⟨crtPid, by rw [h.started.current]; exact ⟨0, [wcPid, setPrioPid], by decide, by decide⟩, by decide,
        by rw [hcrt, show Interrupt.timer.pid = timerPid from rfl, htimer]; decide,
        by rw [show Interrupt.timer.pid = timerPid from rfl, htimer]; decide⟩
  exact ⟨k, k₁, k', hboot, hs, hs', hback⟩

/-- Every other process waits for a message, and a timer interrupt meets the null process. -/
theorem interrupt_of_null_process :
    ∃ m, ((boot rtosMap).kernel?.bind fun k =>
        Runs.exec Machine.step (Machine.start k) (List.replicate 14 (.call (.receiveMessage 0)))) = some m ∧
      Rep m.kernel (fun _ => []) ∧ Own m.kernel (fun _ => []) ∧ m.kernel.currentPcb = nullPid ∧
      m.kernel.current.priority = Priority.null ∧
      ¬∃ k₁ k', timerHandler m.kernel = .switched k₁ ∧ k₁.currentPcb = timerPid ∧
        (swiTrapHandler (Call.releaseProcessor.enter k₁)).kernel? = some k' ∧ GivesBack m.kernel (fun _ => []) k' := by
  have hrun : (((boot rtosMap).kernel?.bind fun k =>
      Runs.exec Machine.step (Machine.start k) (List.replicate 14 (.call (.receiveMessage 0)))).any fun m =>
      decide (Rep m.kernel (fun _ => []) ∧ m.kernel.currentPcb = nullPid ∧
        m.kernel.current.priority = Priority.null ∧ (m.kernel.pcbs timerPid).priority = Priority.low)) = true := by
    decide +kernel
  obtain ⟨m, hm, hall⟩ := Option.any_eq_true _ _ |>.mp hrun
  obtain ⟨hrep, hcur, hprio, htimer⟩ := of_decide_eq_true hall
  have hown : Own m.kernel fun _ => [] := fun _ _ _ hp => absurd hp List.not_mem_nil
  refine ⟨m, hm, hrep, hown, hcur, hprio, ?_⟩
  rintro ⟨k₁, k', hs, -, hs', hback⟩
  obtain ⟨k₂, hs₂, hi⟩ := interruptHandler_spec hrep (fun _ => List.not_mem_nil)
    (show m.kernel.current.priority = (4 : Level).val from hprio) timerPid
  cases hs₂.symm.trans hs
  -- The interrupted process is the only one in the ready queue, and less urgent than the timer process.
  have hnext : Next (insertAt (fun _ => []) .ready 4 m.kernel.currentPcb) .ready m.kernel.currentPcb :=
    ⟨4, [], by simp [insertAt], fun j hj => Function.update_of_ne (fun e => by cases e; omega) _ _⟩
  rw [hi.keeps hown hprio hnext (by rw [htimer]; exact hprio ▸ by decide)] at hs'
  cases hs'
  refine hback.ordinary ?_
  rw [show (Call.releaseProcessor.enter k₁).currentPcb = timerPid from hi.current]
  decide

end
end DoorRtos
