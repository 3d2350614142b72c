import DoorRtos.Boot
import DoorRtos.Theorems.MetaQueue

/-! What `start_scheduler` builds, whatever the memory held before. -/

namespace DoorRtos
open Linked

/-- The processes that start in the ready queue, in the order of their creation. -/
def readyProcesses : List (PcbRef × Nat) := tasks ++ stressProcesses ++ sProcesses

/-- The queues hold the processes of `made`, the newest first, and nothing else. -/
def contentsOf (made : List (PcbRef × Nat)) (s : Slot) : List PcbRef :=
  match s.1 with
  | .ready => ((made.filter fun x => x.2 = s.2.val).map Prod.fst).reverse
  | .memoryWait => []

/-- The contents of the queues when the first process runs. -/
def bootContents : Slot → List PcbRef := Function.update (contentsOf readyProcesses) (.ready, 0) [setPrioPid, crtPid]

/-- The kernel `k` is `k₀` after the creation of the processes of `made`. -/
structure Made (k₀ k : Kernel) (made : List (PcbRef × Nat)) : Prop where
  rep : Rep k (contentsOf made)
  pcb : ∀ x ∈ made, k.pcbs x.1 = ⟨x.1.val, .ready, x.2, some x.1⟩
  mailbox : ∀ x ∈ made, k.mQueues x.1 = initMsgQueue
  others : ∀ p, p ∉ made.map Prod.fst → k.pcbs p = k₀.pcbs p ∧ k.mQueues p = k₀.mQueues p
  blockNext : k.blockNext = k₀.blockNext
  freeMemQ : k.freeMemQ = k₀.freeMemQ

section
variable {k k₀ : Kernel} {made : List (PcbRef × Nat)} {x : PcbRef × Nat}

theorem contentsOf_nil : contentsOf [] = fun _ => [] := by
  funext ⟨w, i⟩
  cases w <;> rfl

theorem contentsOf_concat (hx : x.2 ≤ numPrio) :
    contentsOf (made ++ [x]) = insertAt (contentsOf made) .ready ⟨x.2, Nat.lt_succ_of_le hx⟩ x.1 := by
  funext ⟨w, i⟩
  unfold insertAt
  by_cases hs : (w, i) = ((.ready, ⟨x.2, Nat.lt_succ_of_le hx⟩) : Slot)
  · rw [hs, Function.update_self]
    simp [contentsOf, List.filter_append]
  · rw [Function.update_of_ne hs]
    cases w with
    | ready =>
      have hi : x.2 ≠ i.val := fun e => hs (by rw [Prod.mk.injEq]; exact ⟨rfl, Fin.ext e.symm⟩)
      simp [contentsOf, List.filter_append, hi]
    | memoryWait => rfl

theorem unlinked_contentsOf {p : PcbRef} (hp : p ∉ made.map Prod.fst) : Unlinked (contentsOf made) p := by
  rintro ⟨w, i⟩ hmem
  cases w with
  | ready =>
    obtain ⟨y, hy, rfl⟩ := List.mem_map.mp (List.mem_reverse.mp hmem)
    exact hp (List.mem_map_of_mem (List.mem_filter.mp hy).1)
  | memoryWait => exact absurd hmem List.not_mem_nil

/-- One process more. -/
theorem Made.initReady (h : Made k₀ k made) (hnew : x.1 ∉ made.map Prod.fst) (hx : x.2 ≤ numPrio) :
    ∃ k', initReady k x = some k' ∧ Made k₀ k' (made ++ [x]) := by
  have hne : ∀ y ∈ made, y.1 ≠ x.1 := fun y hy e => hnew (e ▸ List.mem_map_of_mem hy)
  have hrep : Rep (initPCB x.1 x.2 k) (contentsOf made) := h.rep.congr rfl rfl
  obtain ⟨next, c, hput, hrep'⟩ := enqueuePCBByPriority_spec (w := .ready) (i := ⟨x.2, Nat.lt_succ_of_le hx⟩) hrep
    (unlinked_contentsOf hnew) (by simp [initPCB])
  refine ⟨_, hput, contentsOf_concat hx ▸ hrep', fun y hy => ?_, fun y hy => ?_, fun p hp => ?_, ?_, ?_⟩
  · rw [Kernel.setQueue_pcbs]
    rcases List.mem_append.mp hy with hy | hy
    · exact (Function.update_of_ne (hne y hy) _ _).trans (h.pcb y hy)
    · rw [List.mem_singleton.mp hy]
      exact Function.update_self ..
  · rw [Kernel.setQueue_mQueues]
    rcases List.mem_append.mp hy with hy | hy
    · exact (Function.update_of_ne (hne y hy) _ _).trans (h.mailbox y hy)
    · rw [List.mem_singleton.mp hy]
      exact Function.update_self ..
  · rw [Kernel.setQueue_pcbs, Kernel.setQueue_mQueues]
    have hpx : p ≠ x.1 := fun e => hp (by simp [e])
    obtain ⟨hpcb, hbox⟩ := h.others p fun hmem => hp (by simp at hmem ⊢; tauto)
    exact ⟨(Function.update_of_ne hpx _ _).trans hpcb, (Function.update_of_ne hpx _ _).trans hbox⟩
  · rw [Kernel.setQueue_blockNext]
    exact h.blockNext
  · rw [Kernel.setQueue_freeMemQ]
    exact h.freeMemQ

theorem Made.initAll (processes : List (PcbRef × Nat)) (h : Made k₀ k made)
    (hnew : ((made ++ processes).map Prod.fst).Nodup) (hle : ∀ x ∈ processes, x.2 ≤ numPrio) :
    ∃ k', initAll processes k = some k' ∧ Made k₀ k' (made ++ processes) := by
  induction processes generalizing k made with
  | nil => exact ⟨k, rfl, by rwa [List.append_nil]⟩
  | cons x processes ih =>
    have hx : x.1 ∉ made.map Prod.fst := fun hmem => by
      rw [List.map_append, List.map_cons] at hnew
      exact (List.nodup_append.mp hnew).2.2 x.1 hmem x.1 List.mem_cons_self rfl
    obtain ⟨k₁, hs, h₁⟩ := h.initReady hx (hle x List.mem_cons_self)
    rw [List.append_cons] at hnew ⊢
    obtain ⟨k₂, hs₂, h₂⟩ := ih h₁ hnew fun y hy => hle y (List.mem_cons_of_mem x hy)
    refine ⟨k₂, ?_, h₂⟩
    unfold DoorRtos.initAll at hs₂ ⊢
    rw [List.foldlM_cons, hs]
    exact hs₂

theorem not_iProcess_of_ready {p : PcbRef} (hp : p ∈ readyProcesses.map Prod.fst) : ¬IProcess p := by
  revert p
  decide

theorem initIProcesses_pcbs_of_not {p : PcbRef} (hp : ¬IProcess p) : (initIProcesses k).pcbs p = k.pcbs p := by
  have hp' : p ≠ timerPid ∧ p ≠ uartPid := not_or.mp hp
  exact (Function.update_of_ne hp'.2 _ _).trans (Function.update_of_ne hp'.1 _ _)

theorem initIProcesses_mQueues_of_not {p : PcbRef} (hp : ¬IProcess p) : (initIProcesses k).mQueues p = k.mQueues p := by
  have hp' : p ≠ timerPid ∧ p ≠ uartPid := not_or.mp hp
  exact (Function.update_of_ne hp'.2 _ _).trans (Function.update_of_ne hp'.1 _ _)

theorem initIProcesses_pcbs {p : PcbRef} (hp : IProcess p) :
    (initIProcesses k).pcbs p = ⟨p.val, .ready, Priority.low, some p⟩ := by
  rcases hp with rfl | rfl
  · simp [initIProcesses, initPCB, show timerPid ≠ uartPid by decide]
  · simp [initIProcesses, initPCB]

theorem initIProcesses_mQueues {p : PcbRef} (hp : IProcess p) : (initIProcesses k).mQueues p = initMsgQueue := by
  rcases hp with rfl | rfl
  · simp [initIProcesses, initPCB, show timerPid ≠ uartPid by decide]
  · simp [initIProcesses, initPCB]

/-- What `start_scheduler` leaves behind when it resumes the first process. -/
structure Started (k₀ k : Kernel) : Prop where
  rep : Rep k bootContents
  current : k.currentPcb = wcPid
  inIProcess : k.inIProcess = false
  pcb : ∀ x ∈ readyProcesses, k.pcbs x.1 = ⟨x.1.val, .ready, x.2, some x.1⟩
  iProcess : ∀ p, IProcess p → k.pcbs p = ⟨p.val, .ready, Priority.low, some p⟩
  unused : ∀ p, ¬IProcess p → p ∉ readyProcesses.map Prod.fst →
    k.pcbs p = { k₀.pcbs p with pid := dummyPid } ∧ k.mQueues p = k₀.mQueues p
  mailbox : ∀ p, IProcess p ∨ p ∈ readyProcesses.map Prod.fst → k.mQueues p = initMsgQueue
  delayed : k.delayedSendQueue = initMsgQueue
  blockNext : k.blockNext = k₀.blockNext
  freeMemQ : k.freeMemQ = k₀.freeMemQ

/-- The processes are created one after the other, and the first to run is taken out of the ready queue again. -/
theorem startScheduler_made (k₀ : Kernel) : ∃ k next c, Made (clearTable k₀) k readyProcesses ∧
    dequeuePCBFIFOByPriority .ready (initIProcesses k) = some (some wcPid, (initIProcesses k).setQueue .ready next c) ∧
    Rep ((initIProcesses k).setQueue .ready next c) bootContents ∧
    startScheduler k₀ = .switched { (initIProcesses k).setQueue .ready next c with currentPcb := wcPid } := by
  have h₀ : Made (clearTable k₀)
      { clearTable k₀ with readyQueue := initMETAPCBQueue, memoryWaitQueue := initMETAPCBQueue } [] :=
    ⟨contentsOf_nil ▸ rep_init rfl rfl, by simp, by simp, fun _ _ => ⟨rfl, rfl⟩, rfl, rfl⟩
  obtain ⟨k₁, hs₁, h₁⟩ := h₀.initAll tasks (by decide) (by decide)
  obtain ⟨k₂, hs₂, h₂⟩ := h₁.initAll stressProcesses (by decide) (by decide)
  obtain ⟨k₃, hs₃, h₃⟩ := h₂.initAll sProcesses (by decide) (by decide)
  have h₃ : Made (clearTable k₀) k₃ readyProcesses := h₃
  have hrep : Rep (initIProcesses k₃) (contentsOf readyProcesses) := h₃.rep.congr rfl rfl
  obtain ⟨next, c, htake, hrep'⟩ := dequeuePCBFIFOByPriority_spec (w := .ready) (i := 0) (p := wcPid)
    (l := [setPrioPid, crtPid]) hrep (by decide) (by decide)
  refine ⟨k₃, next, c, h₃, htake, hrep', ?_⟩
  unfold startScheduler
  simp only [hs₁, hs₂, hs₃, htake, Outcome.liftM_some, Outcome.returned_bind]
  rfl

theorem startScheduler_spec (k₀ : Kernel) : ∃ k, startScheduler k₀ = .switched k ∧ Started k₀ k := by
  obtain ⟨k₃, next, c, h₃, -, hrep', hstart⟩ := startScheduler_made k₀
  refine ⟨_, hstart, ?_⟩
  · refine ⟨hrep'.congr rfl rfl, rfl, by simp [initIProcesses, initPCB], fun x hx => ?_, fun p hp => ?_,
      fun p hp hnew => ?_, fun p hp => ?_, by simp [initIProcesses, initPCB], ?_, ?_⟩
    · simp only [Kernel.setQueue_pcbs]
      rw [initIProcesses_pcbs_of_not (not_iProcess_of_ready (List.mem_map_of_mem hx))]
      exact h₃.pcb x hx
    · simp only [Kernel.setQueue_pcbs]
      exact initIProcesses_pcbs hp
    · simp only [Kernel.setQueue_pcbs, Kernel.setQueue_mQueues]
      rw [initIProcesses_pcbs_of_not hp, initIProcesses_mQueues_of_not hp]
      exact h₃.others p hnew
    · simp only [Kernel.setQueue_mQueues]
      by_cases hip : IProcess p
      · exact initIProcesses_mQueues hip
      · obtain ⟨x, hx, rfl⟩ := List.mem_map.mp (hp.resolve_left hip)
        rw [initIProcesses_mQueues_of_not hip]
        exact h₃.mailbox x hx
    · simp only [Kernel.setQueue_blockNext]
      exact h₃.blockNext
    · simp only [Kernel.setQueue_freeMemQ]
      exact h₃.freeMemQ

/-! ### The memory pool -/

theorem Layout.block_injective (img : Layout) : Function.Injective img.block := by
  intro i j h
  have hval : img.endAddr + i.val * sizeofMemoryBlock = img.endAddr + j.val * sizeofMemoryBlock := congrArg Addr.val h
  have hmul := Nat.add_left_cancel hval
  exact Fin.ext (Nat.eq_of_mul_eq_mul_right (by decide) hmul)

theorem Layout.pool_nodup (img : Layout) : img.pool.Nodup := (List.nodup_finRange _).map img.block_injective

/-- Blocks that are not in the free queue are added to it, one before the other. -/
theorem enqueueBlocks_holds {k : Kernel} {blocks l : List Addr} (h : Queue.Holds k.blockNext k.freeMemQ l)
    (hnd : (blocks.reverse ++ l).Nodup) :
    Queue.Holds (enqueueBlocks k blocks).blockNext (enqueueBlocks k blocks).freeMemQ (blocks.reverse ++ l) := by
  induction blocks generalizing k l with
  | nil => exact h
  | cons b blocks ih =>
    rw [List.reverse_cons, List.append_assoc] at hnd ⊢
    have hb : b ∉ l := (List.nodup_cons.mp (List.nodup_append.mp hnd).2.1).1
    exact ih (k := { k with
      blockNext := (enqueueFreeMemoryQueue k.blockNext k.freeMemQ b).1
      freeMemQ := (enqueueFreeMemoryQueue k.blockNext k.freeMemQ b).2 }) (h.push hb) hnd

/-- `init_free_memory` links all blocks of the pool. -/
theorem initFreeMemory_holds (img : Layout) (k : Kernel) :
    Queue.Holds (initFreeMemory img k).blockNext (initFreeMemory img k).freeMemQ img.pool.reverse := by
  have hnd : (img.pool.reverse ++ []).Nodup := by
    rw [List.append_nil, List.nodup_reverse]
    exact img.pool_nodup
  have h := enqueueBlocks_holds (k := { k with freeMemQ := initFreeMemoryQueue }) (Queue.holds_empty _) hnd
  rwa [List.append_nil] at h

theorem enqueueBlocks_frame (k : Kernel) (blocks : List Addr) :
    (enqueueBlocks k blocks).pcbs = k.pcbs ∧ (enqueueBlocks k blocks).mQueues = k.mQueues := by
  induction blocks generalizing k with
  | nil => exact ⟨rfl, rfl⟩
  | cons b blocks ih => exact ih _

theorem initFreeMemory_frame (img : Layout) (k : Kernel) :
    (initFreeMemory img k).pcbs = k.pcbs ∧ (initFreeMemory img k).mQueues = k.mQueues :=
  enqueueBlocks_frame { k with freeMemQ := initFreeMemoryQueue } img.pool

/-- Only the links of the blocks that are added change. -/
theorem enqueueBlocks_blockNext {blocks : List Addr} {x : Addr} (hx : x ∉ blocks) (k : Kernel) :
    (enqueueBlocks k blocks).blockNext x = k.blockNext x := by
  induction blocks generalizing k with
  | nil => rfl
  | cons b blocks ih =>
    refine (ih (fun hmem => hx (List.mem_cons_of_mem b hmem)) _).trans ?_
    exact Queue.push_of_ne fun he => hx (he ▸ List.mem_cons_self)

theorem initFreeMemory_blockNext {img : Layout} {x : Addr} (hx : x ∉ img.pool) (k : Kernel) :
    (initFreeMemory img k).blockNext x = k.blockNext x := by
  unfold initFreeMemory
  rw [enqueueBlocks_blockNext hx]

/-! ### Booting -/

/-- The running kernel after `main`. -/
structure Booted (img : Layout) (k : Kernel) : Prop where
  started : Started (initFreeMemory img zeroed) k
  free : Queue.Holds k.blockNext k.freeMemQ img.pool.reverse
  unused : ∀ p, ¬k.Created p → (k.pcbs p).messQueue = none ∧ (k.pcbs p).pid = dummyPid ∧ k.mQueues p = ⟨none, none⟩
  mailbox : ∀ p, k.Created p → (k.pcbs p).messQueue = some p

theorem Started.created_iff {p : PcbRef} (h : Started k₀ k) :
    k.Created p ↔ IProcess p ∨ p ∈ readyProcesses.map Prod.fst := by
  constructor
  · intro hc
    by_contra hno
    obtain ⟨hi, hnew⟩ := not_or.mp hno
    have hpid : dummyPid = p.val := (congrArg PCB.pid (h.unused p hi hnew).1).symm.trans hc
    have hlt : dummyPid < maxProcesses := hpid ▸ p.isLt
    exact absurd hlt (by decide)
  · rintro (hi | hp)
    · unfold Kernel.Created
      rw [h.iProcess p hi]
    · obtain ⟨x, hx, rfl⟩ := List.mem_map.mp hp
      unfold Kernel.Created
      rw [h.pcb x hx]

theorem Started.created_current (h : Started k₀ k) : k.Created k.currentPcb := by
  rw [h.current]
  exact h.created_iff.mpr (Or.inr (by decide))

theorem Started.messQueue {p : PcbRef} (h : Started k₀ k) (hc : k.Created p) : (k.pcbs p).messQueue = some p := by
  rcases h.created_iff.mp hc with hi | hp
  · rw [h.iProcess p hi]
  · obtain ⟨x, hx, rfl⟩ := List.mem_map.mp hp
    rw [h.pcb x hx]

theorem boot_spec (img : Layout) : ∃ k, boot img = .switched k ∧ Booted img k := by
  obtain ⟨k, hs, h⟩ := startScheduler_spec (initFreeMemory img zeroed)
  refine ⟨k, hs, h, ?_, fun p hc => ?_, fun p hc => h.messQueue hc⟩
  · rw [h.blockNext, h.freeMemQ]
    exact initFreeMemory_holds img zeroed
  · obtain ⟨hi, hnew⟩ := not_or.mp (mt h.created_iff.mpr hc)
    obtain ⟨hpcbs, hboxes⟩ := initFreeMemory_frame img zeroed
    rw [(h.unused p hi hnew).1, (h.unused p hi hnew).2, hpcbs, hboxes]
    exact ⟨rfl, rfl, rfl⟩

theorem Started.tableOk (h : Started k₀ k) : k.TableOk := fun p => by
  by_cases hc : k.Created p
  · exact Or.inl hc
  · obtain ⟨hi, hnew⟩ := not_or.mp (mt h.created_iff.mpr hc)
    rw [(h.unused p hi hnew).1]
    exact Or.inr rfl

theorem Booted.tableOk {img : Layout} (h : Booted img k) : k.TableOk := h.started.tableOk

end
end DoorRtos
