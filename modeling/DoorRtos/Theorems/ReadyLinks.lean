import DoorRtos.Theorems.Inversion
import DoorRtos.Theorems.Preemption

/-! The links of the ready queue under interrupts. `process_switch` puts an interrupt process that leaves into the
    ready queue like any other process, so that its next interrupt runs a PCB that is still linked. -/

namespace DoorRtos
open Linked

/-- Every subqueue of the ready queue is a list from its head to its tail that ends in `NULL`, no PCB is linked
    twice in them, and the running PCB is not linked. -/
def ReadyWhole (k : Kernel) : Prop :=
  ∃ L : Level → List PcbRef, HoldsAll k.pcbNext k.readyQueue.subqueues L ∧ ∀ i, k.currentPcb ∉ L i

/-- PCB `p` is linked in the ready queue. -/
def InReady (k : Kernel) (p : PcbRef) : Prop :=
  ∃ (L : Level → List PcbRef) (i : Level), HoldsAll k.pcbNext k.readyQueue.subqueues L ∧ p ∈ L i

/-- Interrupts, and calls that wake nobody: a process gives the processor up, or waits at its empty mailbox. -/
inductive LinkEvent where
  | interrupt (i : Interrupt)
  | iRelease
  | release
  | receive (senderID : Nat)

namespace LinkEvent

def event : LinkEvent → Event
  | interrupt i => .interrupt i
  | iRelease => .iRelease
  | release => .call .releaseProcessor
  | receive senderID => .call (.receiveMessage senderID)

/-- An interrupt finds the PCB of its process linked nowhere in the ready queue. -/
def Fresh (m : Machine) : LinkEvent → Prop
  | interrupt i => ¬InReady m.kernel i.pid
  | _ => True

def step (m : Machine) (e : LinkEvent) : Option Machine := m.step e.event

end LinkEvent

/-- Both queues are whole, the running PCB is linked in neither, and nobody waits for a block. -/
structure Whole (k : Kernel) (L : Slot → List PcbRef) : Prop where
  rep : Rep k L
  current : Unlinked L k.currentPcb
  memoryWait : ∀ i, L (.memoryWait, i) = []

section
variable {k k' k₁ : Kernel} {L L' : Slot → List PcbRef} {p q : PcbRef} {α : Type}

theorem Whole.congr (h : Whole k L) (hnext : k'.pcbNext = k.pcbNext) (hq : k'.queue = k.queue)
    (hcur : k'.currentPcb = k.currentPcb) : Whole k' L :=
  ⟨h.rep.congr hnext hq, hcur ▸ h.current, h.memoryWait⟩

theorem Rep.ready (h : Rep k L) : HoldsAll k.pcbNext k.readyQueue.subqueues fun i => L (.ready, i) :=
  ⟨fun i => h.holds.holds (.ready, i), fun i j x hi hj => congrArg Prod.snd (h.holds.apart (.ready, i) (.ready, j) x hi hj)⟩

theorem Whole.readyWhole (h : Whole k L) : ReadyWhole k := ⟨_, h.rep.ready, fun i => h.current (.ready, i)⟩

theorem Rep.inReady_iff (h : Rep k L) : InReady k p ↔ InQueue L .ready p := by
  constructor
  · rintro ⟨L', i, hL', hi⟩
    rw [hL'.det h.ready] at hi
    exact ⟨i, hi⟩
  · rintro ⟨i, hi⟩
    exact ⟨_, i, h.ready, hi⟩

/-- A state in which the running PCB is linked in the ready queue. -/
theorem Rep.not_readyWhole (h : Rep k L) (hp : InQueue L .ready k.currentPcb) : ¬ReadyWhole k := fun hwhole => by
  obtain ⟨L', hL', hcur⟩ := hwhole
  obtain ⟨i, hi⟩ := hp
  refine hcur i ?_
  rw [hL'.det h.ready]
  exact hi

/-! ### The steps -/

/-- A PCB linked nowhere is added to the ready queue. -/
theorem Rep.enqueued (h : Rep k L) (hp : Unlinked L p) (hs : enqueuePCBByPriority .ready p k = some k') :
    ∃ i, Rep k' (insertAt L .ready i p) := by
  obtain ⟨hle, -⟩ := enqueuePCBByPriority_inv hs
  obtain ⟨next, c, hs', hrep⟩ := enqueuePCBByPriority_spec (w := .ready) h hp
    (i := ⟨(k.pcbs p).priority, Nat.lt_succ_of_le hle⟩) rfl
  cases hs'.symm.trans hs
  exact ⟨_, hrep⟩

theorem interruptHandler_rep (h : Whole k L) (hs : (interruptHandler q k).kernel? = some k') :
    ∃ i, Rep k' (insertAt L .ready i k.currentPcb) ∧ k'.currentPcb = q := by
  obtain ⟨k₁, hput, rfl⟩ := interruptHandler_inv hs
  have h₀ : Rep { k with inIProcess := true } L := h.rep.congr rfl rfl
  obtain ⟨i, hrep⟩ := h₀.enqueued h.current hput
  exact ⟨i, hrep.congr rfl rfl, rfl⟩

/-- An interrupt whose process is linked nowhere. -/
theorem Whole.interrupt (h : Whole k L) (hq : Unlinked L q) (hne : q ≠ k.currentPcb)
    (hs : (interruptHandler q k).kernel? = some k') : ∃ L', Whole k' L' := by
  obtain ⟨i, hrep, hcur⟩ := interruptHandler_rep h hs
  refine ⟨_, hrep, hcur ▸ unlinked_insertAt.mpr ⟨hq, hne⟩, fun j => ?_⟩
  unfold insertAt
  rw [Function.update_of_ne (fun e => by cases e)]
  exact h.memoryWait j

/-- What is taken out of the ready queue. -/
theorem Whole.taken (h : Whole k L) (hs : dequeuePCBFIFOByPriority .ready k = some (some p, k')) :
    ∃ L', Rep k' L' ∧ Unlinked L' p ∧ p ≠ k.currentPcb ∧ Unlinked L' k.currentPcb ∧ ∀ i, L' (.memoryWait, i) = [] := by
  obtain ⟨-, L', hrep, htaken⟩ := h.rep.taken_of_dequeue hs
  refine ⟨L', hrep, htaken.unlinked, fun e => unlinked_iff.mp h.current _ (e ▸ htaken.mem),
    fun s hs => h.current s (htaken.sub s _ hs), fun i => ?_⟩
  refine List.eq_nil_iff_forall_not_mem.mpr fun x hx => ?_
  have := htaken.sub _ x hx
  rw [h.memoryWait i] at this
  exact List.not_mem_nil this

theorem Whole.processSwitch (h : Whole k L) (hs : (processSwitch k).kernel? = some k') : ∃ L', Whole k' L' := by
  rcases Outcome.kernel?_eq_some.mp hs with ho | ho
  · rw [(processSwitch_returned ho).2]
    exact ⟨L, h⟩
  · obtain ⟨-, p, k₁, k₂, htake, hput, rfl⟩ := processSwitch_inv ho
    obtain ⟨L₁, hrep, hp, hne, hcur, hmem⟩ := h.taken htake
    have hrep' : Rep ((k₁.setState p .running).setState k.currentPcb .ready) L₁ := hrep.congr rfl rfl
    obtain ⟨i, hrep₂⟩ := hrep'.enqueued hcur hput
    refine ⟨_, hrep₂.congr rfl rfl, unlinked_insertAt.mpr ⟨hp, hne⟩, fun j => ?_⟩
    unfold insertAt
    rw [Function.update_of_ne (fun e => by cases e)]
    exact hmem j

theorem Whole.runNext (h : Whole k L) (hs : (runNext k : Outcome α) = .switched k') : ∃ L', Whole k' L' := by
  obtain ⟨p, k₁, htake, rfl⟩ := runNext_inv hs
  obtain ⟨L₁, hrep, hp, -, -, hmem⟩ := h.taken htake
  exact ⟨L₁, hrep.congr rfl rfl, hp, hmem⟩

theorem Whole.receive (h : Whole k L) (hs : (kernelReceiveMessage k).last = some k') : ∃ L', Whole k' L' := by
  rcases Outcome.last_eq_some.mp hs with ⟨e, ho⟩ | ho
  · obtain ⟨mq, -, ⟨-, -, he⟩ | ⟨-, next, q, -, he⟩⟩ := kernelReceiveMessage_returned ho
    · exact ⟨L, by rw [he]; exact h.congr rfl rfl rfl⟩
    · exact ⟨L, by rw [he]; exact h.congr rfl rfl rfl⟩
  · obtain ⟨mq, -, -, hrun⟩ := kernelReceiveMessage_switched ho
    exact Whole.runNext (k := { k with msgReturn := false }.setState k.currentPcb .messageWait) (h.congr rfl rfl rfl) hrun

/-- Every event keeps the queues whole, when an interrupt finds its PCB unlinked. -/
theorem Whole.step {m m' : Machine} {e : LinkEvent} (h : Whole m.kernel L) (hfresh : e.Fresh m)
    (hs : LinkEvent.step m e = some m') : ∃ L', Whole m'.kernel L' := by
  cases e with
  | interrupt i =>
    obtain ⟨hip, hk, -, -⟩ := Machine.step_interrupt hs
    refine h.interrupt (fun s hmem => ?_) (fun e => hip (e ▸ iProcess_pid i)) hk
    obtain ⟨w, j⟩ := s
    cases w with
    | ready => exact hfresh (h.rep.inReady_iff.mpr ⟨j, hmem⟩)
    | memoryWait =>
      rw [h.memoryWait j] at hmem
      exact List.not_mem_nil hmem
  | iRelease =>
    obtain ⟨-, hk, -, -⟩ := Machine.step_iRelease hs
    exact Whole.processSwitch (k := Call.releaseProcessor.enter m.kernel) (h.congr rfl rfl rfl) hk
  | release =>
    obtain ⟨-, hk, -, -⟩ := Machine.step_call hs
    rw [swiTrapHandler_releaseProcessor rfl] at hk
    exact Whole.processSwitch (k := Call.releaseProcessor.enter m.kernel) (h.congr rfl rfl rfl) hk
  | receive senderID =>
    obtain ⟨-, hk, -, -⟩ := Machine.step_call hs
    rw [swiTrapHandler_receiveMessage rfl, Outcome.kernel?_bind_snd] at hk
    exact Whole.receive (k := (Call.receiveMessage senderID).enter m.kernel) (h.congr rfl rfl rfl) hk

/-- An interrupt that finds its PCB linked makes a linked PCB the running one. -/
theorem Whole.not_fresh {m m' : Machine} {e : LinkEvent} (h : Whole m.kernel L) (hfresh : ¬e.Fresh m)
    (hs : LinkEvent.step m e = some m') : ¬ReadyWhole m'.kernel := by
  cases e with
  | interrupt i =>
    obtain ⟨-, hk, -, -⟩ := Machine.step_interrupt hs
    obtain ⟨j, hrep, hcur⟩ := interruptHandler_rep h hk
    refine hrep.not_readyWhole ?_
    rw [hcur]
    exact inQueue_insertAt.mpr (Or.inl (h.rep.inReady_iff.mp (not_not.mp hfresh)))
  | iRelease => exact absurd trivial hfresh
  | release => exact absurd trivial hfresh
  | receive senderID => exact absurd trivial hfresh

theorem Booted.whole {img : Layout} (h : Booted img k) : Whole k bootContents where
  rep := h.started.rep
  current := by rw [h.started.current]; decide
  memoryWait := by decide

/-- From the booted state the ready queue stays whole in exactly the runs in which every interrupt finds the PCB of
    its process linked nowhere in it. -/
theorem readyWhole_iff (img : Layout) :
    ∃ k, boot img = .switched k ∧ ∀ es : List LinkEvent,
      Runs.Throughout LinkEvent.step (fun m => ReadyWhole m.kernel) (Machine.start k) es ↔
        Runs.Along LinkEvent.step (fun m e => e.Fresh m) (Machine.start k) es := by
  obtain ⟨k, hboot, h⟩ := boot_spec img
  refine ⟨k, hboot, fun es => ?_⟩
  refine Runs.throughout_iff_along (I := fun m => ∃ L, Whole m.kernel L) ?_ ?_ ?_ ⟨_, h.whole⟩
  · rintro m ⟨L, hm⟩
    exact hm.readyWhole
  · rintro m e m' ⟨L, hm⟩ hfresh hs
    exact hm.step hfresh hs
  · rintro m e m' ⟨L, hm⟩ hfresh hs
    exact hm.not_fresh hfresh hs

/-- The timer process has run once, and its next interrupt comes: its PCB is still linked. -/
theorem readyWhole_second_interrupt :
    ∃ m, ((boot rtosMap).kernel?.bind fun k =>
        Runs.exec LinkEvent.step (Machine.start k) [.interrupt .timer, .iRelease, .interrupt .timer]) = some m ∧
      ¬ReadyWhole m.kernel := by
  have hrun : (((boot rtosMap).kernel?.bind fun k =>
      Runs.exec LinkEvent.step (Machine.start k) [.interrupt .timer, .iRelease, .interrupt .timer]).any fun m =>
      decide (Rep m.kernel (Function.update (Function.update bootContents (.ready, 0) [crtPid, wcPid, setPrioPid])
        (.ready, 2) [timerPid]) ∧ m.kernel.currentPcb = timerPid)) = true := by decide +kernel
  obtain ⟨m, hm, hall⟩ := Option.any_eq_true _ _ |>.mp hrun
  obtain ⟨hrep, hcur⟩ := of_decide_eq_true hall
  exact ⟨m, hm, hrep.not_readyWhole (by rw [hcur]; exact ⟨2, by decide⟩)⟩

end
end DoorRtos
