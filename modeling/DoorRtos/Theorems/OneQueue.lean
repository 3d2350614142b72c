import DoorRtos.Theorems.Boot

/-! One of the two queues on its own: what it holds and what the operations of `queue.c` do to it, whatever the
    other queue looks like. -/

namespace DoorRtos
open Linked

/-- The subqueues of queue `w` hold the PCBs of `M`, the newest first: each is a list from its head to its tail that
    ends in `NULL`, no PCB is linked twice, and `highest_prio` is exact. -/
structure QueueRep (k : Kernel) (w : QueueId) (M : Level → List PcbRef) : Prop where
  holds : HoldsAll k.pcbNext (k.queue w).subqueues M
  highest : Highest (fun s => M s.2) w (k.queue w).highestPrio

/-- From the head of some subqueue of queue `w` the links lead to PCB `p`. -/
def Kernel.LinkedIn (k : Kernel) (w : QueueId) (p : PcbRef) : Prop :=
  ∃ i, Reaches k.pcbNext ((k.queue w).subqueues i).head p

/-- The kernel with the other queue just initialised. -/
def Kernel.alone (k : Kernel) : QueueId → Kernel
  | .ready => { k with memoryWaitQueue := initMETAPCBQueue }
  | .memoryWait => { k with readyQueue := initMETAPCBQueue }

/-- Queue `w` holds `M`, the other one nothing. -/
def only (w : QueueId) (M : Level → List PcbRef) (s : Slot) : List PcbRef := if s.1 = w then M s.2 else []

section
variable {k : Kernel} {L : Slot → List PcbRef} {M M' : Level → List PcbRef} {w w' : QueueId} {i : Level} {p : PcbRef}
  {l : List PcbRef} {next : Links PcbRef} {q : METAPCBQueue}

theorem Rep.queueRep (h : Rep k L) (w : QueueId) : QueueRep k w fun i => L (w, i) where
  holds :=
    ⟨fun i => h.holds.holds (w, i), fun i j x hi hj => congrArg Prod.snd (h.holds.apart (w, i) (w, j) x hi hj)⟩
  highest := ⟨(h.highest w).below, (h.highest w).here, (h.highest w).bound⟩

/-! ### The other queue put aside -/

theorem only_self : only w M (w, i) = M i := if_pos rfl

theorem only_of_ne (h : w' ≠ w) : only w M (w', i) = [] := if_neg h

theorem only_update : Function.update (only w M) (w, i) l = only w (Function.update M i l) := by
  funext ⟨w', j⟩
  by_cases hs : (w', j) = (w, i)
  · cases hs
    rw [Function.update_self, only_self, Function.update_self]
  · rw [Function.update_of_ne hs]
    by_cases hw : w' = w
    · subst hw
      rw [only_self, only_self, Function.update_of_ne fun e => hs (by rw [e])]
    · rw [only_of_ne hw, only_of_ne hw]

@[simp] theorem Kernel.alone_pcbs : (k.alone w).pcbs = k.pcbs := by cases w <;> rfl

@[simp] theorem Kernel.alone_pcbNext : (k.alone w).pcbNext = k.pcbNext := by cases w <;> rfl

@[simp] theorem Kernel.alone_pastSubqueues : (k.alone w).pastSubqueues = k.pastSubqueues := by cases w <;> rfl

@[simp] theorem Kernel.alone_queue : (k.alone w).queue w = k.queue w := by cases w <;> rfl

theorem Kernel.alone_queue_of_ne (h : w' ≠ w) : (k.alone w).queue w' = initMETAPCBQueue := by
  cases w <;> cases w' <;> first | rfl | exact absurd rfl h

theorem Kernel.alone_setQueue : (k.alone w).setQueue w next q = (k.setQueue w next q).alone w := by cases w <;> rfl

theorem Kernel.setQueue_eq_self : k.setQueue w k.pcbNext (k.queue w) = k := by cases w <;> rfl

/-- Put aside the other queue, and the two queues hold what queue `w` holds. -/
theorem queueRep_iff : QueueRep k w M ↔ Rep (k.alone w) (only w M) := by
  constructor
  · intro h
    refine ⟨⟨fun s => ?_, fun s t x hs ht => ?_⟩, fun w' => ?_⟩
    · obtain ⟨w', i⟩ := s
      unfold Kernel.sub
      by_cases hw : w' = w
      · subst hw
        rw [Kernel.alone_pcbNext, Kernel.alone_queue, only_self]
        exact h.holds.holds i
      · rw [Kernel.alone_queue_of_ne hw, only_of_ne hw]
        exact Queue.holds_empty _
    · unfold only at hs ht
      split at hs
      next hsw =>
        split at ht
        next htw => exact Prod.ext (hsw.trans htw.symm) (h.holds.apart s.2 t.2 x hs ht)
        next => cases ht
      next => cases hs
    · by_cases hw : w' = w
      · subst hw
        rw [Kernel.alone_queue]
        exact ⟨fun i hi => only_self.trans (h.highest.below i hi), fun i hi => only_self ▸ h.highest.here i hi,
          h.highest.bound⟩
      · rw [Kernel.alone_queue_of_ne hw]
        exact ⟨fun i _ => only_of_ne hw, fun i hi => absurd (hi ▸ i.isLt) (Nat.lt_irrefl _), Nat.le_refl _⟩
  · intro h
    have hall := h.queueRep w
    simp only [only_self] at hall
    exact ⟨by simpa using hall.holds, by simpa using hall.highest⟩

theorem QueueRep.of_alone (h : Rep ((k.alone w).setQueue w next q) (Function.update (only w M) (w, i) l)) :
    QueueRep (k.setQueue w next q) w (Function.update M i l) := by
  rw [Kernel.alone_setQueue, only_update] at h
  exact queueRep_iff.mpr h

theorem QueueRep.congr {k' : Kernel} (h : QueueRep k w M) (hnext : k'.pcbNext = k.pcbNext) (hq : k'.queue = k.queue) :
    QueueRep k' w M := by
  refine ⟨?_, ?_⟩
  · rw [hnext, hq]
    exact h.holds
  · rw [hq]
    exact h.highest

/-! ### The other queue plays no part -/

theorem enqueuePCBByPriority_alone :
    enqueuePCBByPriority w p (k.alone w) = (enqueuePCBByPriority w p k).map fun k => k.alone w := by
  unfold enqueuePCBByPriority
  rw [Kernel.alone_pcbs, Kernel.alone_queue, Kernel.alone_pcbNext]
  dsimp only
  split
  · exact congrArg some Kernel.alone_setQueue
  · rfl

theorem dequeuePCBFIFOByPriority_alone :
    dequeuePCBFIFOByPriority w (k.alone w) = (dequeuePCBFIFOByPriority w k).map fun r => (r.1, r.2.alone w) := by
  unfold dequeuePCBFIFOByPriority
  rw [Kernel.alone_queue, Kernel.alone_pcbNext, Kernel.alone_pastSubqueues]
  dsimp only
  split
  · cases dequeuePCBFIFO k.pcbNext _ with
    | none => rfl
    | some r => exact congrArg (fun k => some (r.1, k)) Kernel.alone_setQueue
  · rfl

theorem removeElement_alone : removeElement w i p k =
    (removeElement w i p (k.alone w)).map fun r => (r.1, k.setQueue w r.2.pcbNext (r.2.queue w)) := by
  unfold removeElement
  rw [Kernel.alone_pcbNext, Kernel.alone_queue]
  split
  · rfl
  · rw [Option.map_some, Kernel.alone_pcbNext, Kernel.alone_queue, Kernel.setQueue_eq_self]
  · unfold unlinkElement
    simp only [Kernel.alone_pcbNext, Kernel.alone_queue, Kernel.alone_pastSubqueues]
    split
    · simp
    · split
      · simp
      · split
        · simp
        · rename_i previous _ _ _ _ _
          cases previous <;> simp

/-! ### `remove_element` -/

/-- A PCB that its subqueue does not hold is not found. -/
theorem QueueRep.removeElement_of_not_mem (h : QueueRep k w M) (hp : p ∉ M i) :
    removeElement w i p k = some (rtxError, k) := by
  rw [removeElement_alone, DoorRtos.removeElement_of_not_mem (queueRep_iff.mp h) (only_self.symm ▸ hp)]
  simp [Kernel.setQueue_eq_self]

/-- A linked PCB that is first in its subqueue, or not last, is taken out. -/
theorem QueueRep.removeElement_spec {a b : List PcbRef} (h : QueueRep k w M) (hl : M i = a ++ p :: b)
    (hab : a = [] ∨ b ≠ []) :
    ∃ next q, removeElement w i p k = some (rtxSuccess, k.setQueue w next q) ∧
      QueueRep (k.setQueue w next q) w (Function.update M i (a ++ b)) := by
  obtain ⟨next, q, hs, hrep⟩ := DoorRtos.removeElement_spec (queueRep_iff.mp h) (only_self.trans hl) hab
  refine ⟨next, q, ?_, .of_alone hrep⟩
  rw [removeElement_alone, hs]
  simp

/-- The last PCB of a longer subqueue is not taken out: the links and the heads of the subqueues stay as they are. -/
theorem QueueRep.removeElement_last {a : List PcbRef} {y : PcbRef} (h : QueueRep k w M) (hl : M i = a ++ [y, p]) :
    removeElement w i p k = some (rtxSuccess, k.setQueue w k.pcbNext
      ⟨(k.queue w).highestPrio, Function.update (k.queue w).subqueues i ⟨((k.queue w).subqueues i).head, some y⟩⟩) := by
  rw [removeElement_alone, DoorRtos.removeElement_last (queueRep_iff.mp h) (only_self.trans hl)]
  simp

/-- What `remove_element_by_priority` is for: a PCB linked in the subqueue of its priority is taken out of it, and
    the others stay in their order; one that is not linked there is not found, and nothing changes. -/
structure Removes (k : Kernel) (w : QueueId) (M : Level → List PcbRef) (i : Level) (p : PcbRef) : Prop where
  linked : p ∈ M i → ∃ next q, removeElementByPriority p w k = some (rtxSuccess, k.setQueue w next q) ∧
    QueueRep (k.setQueue w next q) w (Function.update M i ((M i).erase p))
  absent : p ∉ M i → removeElementByPriority p w k = some (rtxError, k)

/-- It does so exactly when the PCB is not the last of several in its subqueue. -/
theorem removeElementByPriority_removes_iff (h : QueueRep k w M) (hi : (k.pcbs p).priority = i.val) :
    Removes k w M i p ↔ ¬∃ a, a ≠ [] ∧ M i = a ++ [p] := by
  have hlt : (k.pcbs p).priority < numPrio + 1 := hi ▸ i.isLt
  have heq : removeElementByPriority p w k = removeElement w i p k := by
    unfold removeElementByPriority
    rw [dif_pos hlt]
    congr 1
    exact Fin.ext hi
  have hnd := (h.holds.holds i).nodup
  constructor
  · rintro hrem ⟨a, ha, hl⟩
    obtain ⟨next, q, hs, hrep⟩ := hrem.linked (hl ▸ List.mem_append_right a List.mem_cons_self)
    obtain ⟨a, y, rfl⟩ := (List.eq_nil_or_concat a).resolve_left ha
    rw [List.concat_eq_append, List.append_assoc] at hl
    rw [heq, h.removeElement_last hl] at hs
    -- From the head of the subqueue the links still run through all of it.
    have hlist : IsList k.pcbNext ((k.queue w).subqueues i).head ((M i).erase p) := by
      have hholds := (hrep.holds.holds i).list
      rw [← (Prod.mk.inj (Option.some.inj hs)).2] at hholds
      simpa using hholds
    have hlen := congrArg List.length ((h.holds.holds i).list.det hlist)
    rw [List.length_erase_of_mem (hl ▸ by simp), hl] at hlen
    simp at hlen
  · intro hlast
    refine ⟨fun hp => ?_, fun hp => heq.trans (h.removeElement_of_not_mem hp)⟩
    obtain ⟨a, b, hl⟩ := List.append_of_mem hp
    have hab : a = [] ∨ b ≠ [] := by
      by_contra hno
      obtain ⟨ha, hb⟩ := not_or.mp hno
      rw [not_not.mp hb] at hl
      exact hlast ⟨a, ha, hl⟩
    obtain ⟨next, q, hs, hrep⟩ := h.removeElement_spec hl hab
    refine ⟨next, q, heq.trans hs, ?_⟩
    have hpa : p ∉ a := fun hpa => by
      rw [hl] at hnd
      exact (List.nodup_append.mp hnd).2.2 p hpa p List.mem_cons_self rfl
    rw [hl, List.erase_append_right _ hpa, List.erase_cons_head]
    exact hrep

end

/-- After the start the first of the two PCBs at the highest level is taken out as it should be. -/
theorem removeElementByPriority_removes_first :
    ∃ k, boot rtosMap = .switched k ∧ Removes k .ready (fun i => bootContents (.ready, i)) 0 setPrioPid := by
  obtain ⟨k, hboot, h⟩ := boot_spec rtosMap
  have hprio : (k.pcbs setPrioPid).priority = 0 := by
    rw [h.started.pcb (setPrioPid, Priority.high) (by decide)]
    rfl
  refine ⟨k, hboot, (removeElementByPriority_removes_iff (h.started.rep.queueRep .ready) hprio).mpr ?_⟩
  rintro ⟨a, -, hl⟩
  have hlast := congrArg List.getLast? hl
  rw [List.getLast?_concat] at hlast
  exact absurd hlast (by decide)

/-- After the start the CRT process is the second of two at the highest level: the PCB before it keeps its link. -/
theorem removeElementByPriority_of_last :
    ∃ k M, boot rtosMap = .switched k ∧ QueueRep k .ready M ∧ (k.pcbs crtPid).priority = 0 ∧ crtPid ∈ M 0 ∧
      ¬∃ next q, removeElementByPriority crtPid .ready k = some (rtxSuccess, k.setQueue .ready next q) ∧
        QueueRep (k.setQueue .ready next q) .ready (Function.update M 0 ((M 0).erase crtPid)) := by
  obtain ⟨k, hboot, h⟩ := boot_spec rtosMap
  have hprio : (k.pcbs crtPid).priority = 0 := by
    rw [h.started.pcb (crtPid, Priority.high) (by decide)]
    rfl
  have hrep := h.started.rep.queueRep .ready
  have hcrt : crtPid ∈ bootContents (.ready, 0) := by decide
  refine ⟨k, _, hboot, hrep, hprio, hcrt, fun hs => ?_⟩
  have hrem : Removes k .ready (fun i => bootContents (.ready, i)) 0 crtPid := ⟨fun _ => hs, fun hno => absurd hcrt hno⟩
  exact (removeElementByPriority_removes_iff hrep hprio).mp hrem ⟨[setPrioPid], by decide, by decide⟩

end DoorRtos
