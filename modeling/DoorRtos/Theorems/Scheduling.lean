import DoorRtos.Theorems.MetaQueue
import Mathlib.Data.Set.Insert

/-! Where every process is while the primitives move PCBs about, and what `process_switch` makes of it. -/

namespace DoorRtos
open Linked

/-- Every linked PCB is in the subqueue of its own priority. -/
def Own (k : Kernel) (L : Slot → List PcbRef) : Prop := ∀ w i, ∀ p ∈ L (w, i), (k.pcbs p).priority = i.val

/-- The state of the processes that wait in a queue. -/
def QueueId.state : QueueId → ProcState
  | ready => .ready
  | memoryWait => .memoryWait

/-- The place of a process that is not running, by its state. -/
def Waits (k : Kernel) (L : Slot → List PcbRef) (p : PcbRef) : Prop :=
  match (k.pcbs p).state with
  | .ready => InQueue L .ready p
  | .memoryWait => InQueue L .memoryWait p
  | .messageWait => Unlinked L p
  | .running => False

/-- Every process waits in its place, but for those in `out`, which a primitive has in hand. -/
structure Settled (k : Kernel) (L : Slot → List PcbRef) (out : Set PcbRef) : Prop where
  rep : Rep k L
  own : Own k L
  waits : ∀ p, k.Created p → ¬IProcess p → p ∉ out → Waits k L p
  null : nullPid ∈ out ∨ InQueue L .ready nullPid

/-- No ready process has a smaller priority number than the running one. -/
def Preemptive (k : Kernel) (L : Slot → List PcbRef) : Prop :=
  ∀ p, InQueue L .ready p → k.current.priority ≤ (k.pcbs p).priority

/-- PCB `p` is the oldest of the first non-empty subqueue of queue `w`. -/
def Next (L : Slot → List PcbRef) (w : QueueId) (p : PcbRef) : Prop :=
  ∃ i l, L (w, i) = l ++ [p] ∧ ∀ j : Level, j.val < i.val → L (w, j) = []

section
variable {k k' : Kernel} {L L' : Slot → List PcbRef} {w : QueueId} {i : Level} {p q x : PcbRef} {st : ProcState}
  {n : Nat} {out out' : Set PcbRef}

theorem Own.priority_le (h : Own k L) (hp : InQueue L w p) : (k.pcbs p).priority ≤ numPrio := by
  obtain ⟨i, hi⟩ := hp
  rw [h w i p hi]
  exact Nat.le_of_lt_succ i.isLt

theorem Rep.highestPrio_le (h : Rep k L) (hown : Own k L) (hp : InQueue L w p) :
    (k.queue w).highestPrio ≤ (k.pcbs p).priority := by
  obtain ⟨i, hi⟩ := hp
  rw [hown w i p hi]
  exact (h.highest w).le_of_mem hi

theorem Own.congr (h : Own k L) (hprio : ∀ p, (k'.pcbs p).priority = (k.pcbs p).priority) : Own k' L :=
  fun w i p hp => (hprio p).trans (h w i p hp)

theorem Own.insertAt (h : Own k L) (hp : (k.pcbs p).priority = i.val) : Own k (insertAt L w i p) := by
  intro w' j q hq
  unfold DoorRtos.insertAt at hq
  by_cases hs : (w', j) = (w, i)
  · rw [hs, Function.update_self] at hq
    cases hs
    rcases List.mem_cons.mp hq with rfl | hq
    · exact hp
    · exact h w i q hq
  · rw [Function.update_of_ne hs] at hq
    exact h w' j q hq

theorem Waits.congr (h : Waits k L p) (hst : (k'.pcbs p).state = (k.pcbs p).state)
    (hin : ∀ w, InQueue L' w p ↔ InQueue L w p) : Waits k' L' p := by
  unfold Waits at h ⊢
  rw [hst]
  cases hs : (k.pcbs p).state <;> rw [hs] at h
  · exact (hin _).mpr h
  · exact unlinked_iff.mpr fun w hw => unlinked_iff.mp h w ((hin w).mp hw)
  · exact (hin _).mpr h
  · exact h

/-! ### Taking the next PCB out of a queue -/

/-- What is left of the contents once `p` is taken out of queue `w`. -/
structure Taken (L : Slot → List PcbRef) (w : QueueId) (p : PcbRef) (L' : Slot → List PcbRef) : Prop where
  mem : InQueue L w p
  others : ∀ w' q, InQueue L' w' q ↔ InQueue L w' q ∧ q ≠ p
  sub : ∀ s, ∀ q ∈ L' s, q ∈ L s

theorem Taken.unlinked (h : Taken L w p L') : Unlinked L' p :=
  unlinked_iff.mpr fun w' hw => ((h.others w' p).mp hw).2 rfl

/-- Taking `p` out of the subqueue that holds it. -/
theorem taken_update {l : List PcbRef} (hrep : Rep k L) (hp : p ∈ L (w, i)) (hl : ∀ x, x ∈ l ↔ x ∈ L (w, i) ∧ x ≠ p) :
    Taken L w p (Function.update L (w, i) l) where
  mem := ⟨i, hp⟩
  others w' q := inQueue_update hrep hp hl
  sub s q hq := by
    by_cases hs : s = (w, i)
    · subst hs
      rw [Function.update_self] at hq
      exact ((hl q).mp hq).1
    · rwa [Function.update_of_ne hs] at hq

theorem Next.inQueue (h : Next L w p) : InQueue L w p := by
  obtain ⟨i, l, hl, -⟩ := h
  exact ⟨i, by rw [hl]; exact List.mem_append_right l List.mem_cons_self⟩

theorem exists_next (h : InQueue L w x) : ∃ p, Next L w p := by
  rcases exists_first L w with hnil | ⟨i, l, p, hl, hlow⟩
  · obtain ⟨i, hi⟩ := h
    rw [hnil i] at hi
    exact absurd hi List.not_mem_nil
  · exact ⟨p, i, l, hl, hlow⟩

theorem Next.unique (h : Next L w p) (h' : Next L w x) : p = x := by
  obtain ⟨i, l, hl, hlow⟩ := h
  obtain ⟨j, m, hm, hlow'⟩ := h'
  have hij : i = j := by
    rcases Nat.lt_trichotomy i.val j.val with hlt | heq | hgt
    · exact absurd (hlow' i hlt) (by rw [hl]; simp)
    · exact Fin.ext heq
    · exact absurd (hlow j hgt) (by rw [hm]; simp)
  subst hij
  exact (List.append_inj' (hl.symm.trans hm) rfl).2 |> List.singleton_inj.mp

/-- A queue gives its next PCB. -/
theorem Next.take (hrep : Rep k L) (h : Next L w p) :
    ∃ next c L', dequeuePCBFIFOByPriority w k = some (some p, k.setQueue w next c) ∧ Rep (k.setQueue w next c) L' ∧
      Taken L w p L' := by
  obtain ⟨i, l, hl, hlow⟩ := h
  obtain ⟨next, c, hs, hrep'⟩ := dequeuePCBFIFOByPriority_spec hrep hl hlow
  exact ⟨next, c, _, hs, hrep', taken_update hrep (by rw [hl]; exact List.mem_append_right l List.mem_cons_self)
    (mem_dropLast_iff hrep hl)⟩

/-- Whatever a whole queue gives is its next PCB. -/
theorem Rep.taken_of_dequeue (hrep : Rep k L) (hs : dequeuePCBFIFOByPriority w k = some (some p, k')) :
    Next L w p ∧ ∃ L', Rep k' L' ∧ Taken L w p L' := by
  rcases exists_first L w with hnil | ⟨i, l, x, hl, hlow⟩
  · rw [dequeuePCBFIFOByPriority_empty hrep hnil] at hs
    cases hs
  · have hnext : Next L w x := ⟨i, l, hl, hlow⟩
    obtain ⟨next, c, L', hs', hrep', htaken⟩ := hnext.take hrep
    rw [hs'] at hs
    cases hs
    exact ⟨hnext, L', hrep', htaken⟩

/-- No PCB of the queue has a smaller priority number than the next one. -/
theorem Next.first (hown : Own k L) (h : Next L w p) (hx : InQueue L w x) : (k.pcbs p).priority ≤ (k.pcbs x).priority := by
  obtain ⟨i, l, hl, hlow⟩ := h
  obtain ⟨j, hj⟩ := hx
  rw [hown w i p (by rw [hl]; exact List.mem_append_right l List.mem_cons_self), hown w j x hj]
  refine Nat.le_of_not_lt fun hlt => ?_
  rw [hlow j hlt] at hj
  exact List.not_mem_nil hj

/-- `highest_prio` is the priority of the next PCB. -/
theorem Next.highestPrio (hrep : Rep k L) (hown : Own k L) (h : Next L w p) :
    (k.queue w).highestPrio = (k.pcbs p).priority := by
  obtain ⟨i, l, hl, hlow⟩ := h
  rw [hown w i p (by rw [hl]; exact List.mem_append_right l List.mem_cons_self)]
  exact (hrep.highest w).eq_of_first (by rw [hl]; simp) hlow

/-- A non-empty queue gives its PCB of least priority value. -/
theorem Rep.take (hrep : Rep k L) (hown : Own k L) (hq : InQueue L w q) :
    ∃ p next c L', dequeuePCBFIFOByPriority w k = some (some p, k.setQueue w next c) ∧
      Rep (k.setQueue w next c) L' ∧ Taken L w p L' ∧ (k.queue w).highestPrio = (k.pcbs p).priority ∧
      ∀ x, InQueue L w x → (k.pcbs p).priority ≤ (k.pcbs x).priority := by
  obtain ⟨p, hp⟩ := exists_next hq
  obtain ⟨next, c, L', hs, hrep', htaken⟩ := hp.take hrep
  exact ⟨p, next, c, L', hs, hrep', htaken, hp.highestPrio hrep hown, fun _ hx => hp.first hown hx⟩

/-! ### The moves of the primitives -/

theorem Settled.mono (h : Settled k L out) (hsub : out ⊆ out') : Settled k L out' where
  rep := h.rep
  own := h.own
  waits p hc hi hp := h.waits p hc hi fun hout => hp (hsub hout)
  null := h.null.imp (fun hn => hsub hn) id

theorem Settled.congr (h : Settled k L out) (hpcbs : k'.pcbs = k.pcbs) (hnext : k'.pcbNext = k.pcbNext)
    (hq : k'.queue = k.queue) : Settled k' L out where
  rep := h.rep.congr hnext hq
  own := h.own.congr fun p => by rw [hpcbs]
  waits p hc hi hp := by
    have hc' : k.Created p := by unfold Kernel.Created at hc ⊢; rwa [hpcbs] at hc
    exact (h.waits p hc' hi hp).congr (by rw [hpcbs]) fun _ => Iff.rfl
  null := h.null

theorem Settled.setState (st : ProcState) (h : Settled k L out) (hp : p ∈ out) : Settled (k.setState p st) L out where
  rep := h.rep.congr rfl rfl
  own := h.own.congr fun _ => Kernel.setState_priority ..
  waits q hc hi hq := by
    have hc' : k.Created q := by unfold Kernel.Created at hc ⊢; rwa [Kernel.setState_pid] at hc
    have hqp : q ≠ p := fun e => hq (e ▸ hp)
    exact (h.waits q hc' hi hq).congr (by simp [hqp]) fun _ => Iff.rfl
  null := h.null

theorem Settled.setPriority (h : Settled k L out) (hp : Unlinked L p) : Settled (k.setPriority p n) L out where
  rep := h.rep.congr rfl rfl
  own w i q hq := by
    have hqp : q ≠ p := fun e => hp (w, i) (e ▸ hq)
    simp [hqp, h.own w i q hq]
  waits q hc hi hq := by
    have hc' : k.Created q := by unfold Kernel.Created at hc ⊢; rwa [Kernel.setPriority_pid] at hc
    exact (h.waits q hc' hi hq).congr (Kernel.setPriority_state ..) fun _ => Iff.rfl
  null := h.null

/-- A process that waits for a message is in no queue. -/
theorem Settled.park (h : Settled k L out) (hp : Unlinked L p) (hst : (k.pcbs p).state = .messageWait)
    (hnull : p ≠ nullPid) : Settled k L (out \ {p}) where
  rep := h.rep
  own := h.own
  waits q hc hi hq := by
    by_cases hqp : q = p
    · subst hqp
      unfold Waits
      rw [hst]
      exact hp
    · exact h.waits q hc hi fun hout => hq ⟨hout, hqp⟩
  null := h.null.imp (fun hn => ⟨hn, hnull.symm⟩) id

/-- A PCB in hand is put into a queue. -/
theorem Settled.put (h : Settled k L out) (hp : Unlinked L p) (hprio : (k.pcbs p).priority ≤ numPrio)
    (hst : k.Created p → ¬IProcess p → (k.pcbs p).state = w.state) (hnull : w = .memoryWait → p ≠ nullPid) :
    ∃ next c i, enqueuePCBByPriority w p k = some (k.setQueue w next c) ∧
      Settled (k.setQueue w next c) (insertAt L w i p) (out \ {p}) := by
  have hi : (k.pcbs p).priority = (⟨(k.pcbs p).priority, Nat.lt_succ_of_le hprio⟩ : Level).val := rfl
  obtain ⟨next, c, hs, hrep⟩ := enqueuePCBByPriority_spec (w := w) h.rep hp hi
  refine ⟨next, c, _, hs, hrep, ?_, fun q hc hip hq => ?_, ?_⟩
  · exact (h.own.insertAt hi).congr fun q => by rw [Kernel.setQueue_pcbs]
  · have hc' : k.Created q := by unfold Kernel.Created at hc ⊢; rwa [Kernel.setQueue_pcbs] at hc
    by_cases hqp : q = p
    · subst hqp
      have hin : InQueue (insertAt L w ⟨(k.pcbs q).priority, Nat.lt_succ_of_le hprio⟩ q) w q :=
        inQueue_insertAt.mpr (Or.inr ⟨rfl, rfl⟩)
      unfold Waits
      rw [Kernel.setQueue_pcbs, hst hc' hip]
      cases w <;> exact hin
    · refine (h.waits q hc' hip fun hout => hq ⟨hout, hqp⟩).congr (by rw [Kernel.setQueue_pcbs]) fun w' => ?_
      rw [inQueue_insertAt]
      exact ⟨fun hor => hor.resolve_right fun hand => hqp hand.2, Or.inl⟩
  · by_cases hn : nullPid = p
    · right
      refine inQueue_insertAt.mpr (Or.inr ⟨?_, hn⟩)
      cases w with
      | ready => rfl
      | memoryWait => exact absurd hn.symm (hnull rfl)
    · exact h.null.imp (fun hout => ⟨hout, hn⟩) fun hin => inQueue_insertAt.mpr (Or.inl hin)

theorem Settled.taken {next : Links PcbRef} {c : METAPCBQueue} (h : Settled k L out)
    (hrep : Rep (k.setQueue w next c) L') (htaken : Taken L w p L') :
    Settled (k.setQueue w next c) L' (insert p out) where
  rep := hrep
  own w' i x hx := by
    rw [Kernel.setQueue_pcbs]
    exact h.own w' i x (htaken.sub _ x hx)
  waits x hc hi hx := by
    have hc' : k.Created x := by unfold Kernel.Created at hc ⊢; rwa [Kernel.setQueue_pcbs] at hc
    have hxp : x ≠ p := fun e => hx (Or.inl e)
    refine (h.waits x hc' hi fun hout => hx (Or.inr hout)).congr (by rw [Kernel.setQueue_pcbs]) fun w' => ?_
    rw [htaken.others]
    exact ⟨fun hand => hand.1, fun hin => ⟨hin, hxp⟩⟩
  null := by
    by_cases hn : nullPid = p
    · exact Or.inl (Or.inl hn)
    · exact h.null.imp Or.inr fun hin => (htaken.others _ _).mpr ⟨hin, hn⟩

/-- The next PCB of a queue is taken in hand. -/
theorem Settled.take (h : Settled k L out) (hq : InQueue L w q) :
    ∃ p next c L', dequeuePCBFIFOByPriority w k = some (some p, k.setQueue w next c) ∧
      Settled (k.setQueue w next c) L' (insert p out) ∧ Taken L w p L' ∧
      (k.queue w).highestPrio = (k.pcbs p).priority ∧
      ∀ x, InQueue L w x → (k.pcbs p).priority ≤ (k.pcbs x).priority := by
  obtain ⟨p, next, c, L', hs, hrep, htaken, hhigh, hfirst⟩ := h.rep.take h.own hq
  exact ⟨p, next, c, L', hs, h.taken hrep htaken, htaken, hhigh, hfirst⟩

/-- A PCB that is first in its subqueue, or not last, is taken in hand by `remove_element`. -/
theorem Settled.remove {a b : List PcbRef} (h : Settled k L out) (hl : L (w, i) = a ++ p :: b) (hab : a = [] ∨ b ≠ []) :
    ∃ next c L', removeElement w i p k = some (rtxSuccess, k.setQueue w next c) ∧
      Settled (k.setQueue w next c) L' (insert p out) ∧ Taken L w p L' := by
  obtain ⟨next, c, hs, hrep⟩ := removeElement_spec h.rep hl hab
  have hp : p ∈ L (w, i) := by rw [hl]; exact List.mem_append_right a List.mem_cons_self
  have hnd := (h.rep.holds.holds (w, i)).nodup
  have htaken := taken_update (l := a ++ b) h.rep hp fun x => by
    rw [hl] at hnd ⊢
    have hpab : p ∉ a ++ b := (List.nodup_cons.mp (List.nodup_middle.mp hnd)).1
    constructor
    · exact fun hx => ⟨by simp only [List.mem_append, List.mem_cons] at hx ⊢; tauto, fun e => hpab (e ▸ hx)⟩
    · rintro ⟨hx, hne⟩
      simp only [List.mem_append, List.mem_cons] at hx ⊢
      tauto
  exact ⟨next, c, _, hs, h.taken hrep htaken, htaken⟩

/-! ### `process_switch` -/

theorem processSwitch_stay (h : k.current.priority < k.readyQueue.highestPrio) : processSwitch k = .returned k :=
  if_neg (Nat.not_le_of_lt h)

/-- What `process_switch` does when it takes `p` out of the ready queue. -/
theorem processSwitch_eq {k₁ k₂ : Kernel} (h : k.readyQueue.highestPrio ≤ k.current.priority)
    (htake : dequeuePCBFIFOByPriority .ready k = some (some p, k₁)) (hcur : k₁.currentPcb = k.currentPcb)
    (hput : enqueuePCBByPriority .ready k.currentPcb ((k₁.setState p .running).setState k.currentPcb .ready) = some k₂) :
    processSwitch k = .switched { k₂ with inIProcess := false, currentPcb := p } := by
  unfold processSwitch
  rw [if_pos h, htake]
  simp only [Outcome.liftM_some, Outcome.returned_bind, Kernel.setState_currentPcb, hcur, hput]
  rfl

theorem processSwitch_stuck {k₁ : Kernel} (h : k.readyQueue.highestPrio ≤ k.current.priority)
    (htake : dequeuePCBFIFOByPriority .ready k = some (some p, k₁)) (hcur : k₁.currentPcb = k.currentPcb)
    (hput : enqueuePCBByPriority .ready k.currentPcb ((k₁.setState p .running).setState k.currentPcb .ready) = none) :
    processSwitch k = .stuck := by
  unfold processSwitch
  rw [if_pos h, htake]
  simp only [Outcome.liftM_some, Outcome.returned_bind, Kernel.setState_currentPcb, hcur, hput]
  rfl

end
end DoorRtos
