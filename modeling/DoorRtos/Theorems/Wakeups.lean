import DoorRtos.Theorems.OneQueue
import DoorRtos.Theorems.Sending

/-! Which process runs once a message has been sent. Nobody runs in place of the sender when the receiver has the
    smaller priority number, and somebody does when it has the larger one. -/

namespace DoorRtos
open Linked

/-- The ready queue is well formed and holds `M`, each PCB in the subqueue of its priority, and no PCB of it has a
    smaller priority number than the running one. -/
structure ReadyOrdered (k : Kernel) (M : Level → List PcbRef) : Prop where
  rep : QueueRep k .ready M
  own : ∀ i, ∀ p ∈ M i, (k.pcbs p).priority = i.val
  most : ∀ i, ∀ p ∈ M i, k.current.priority ≤ (k.pcbs p).priority

/-- After a call from `k` to `k'` that woke process `d` no PCB in the ready queue has a smaller priority number than
    the running one, and the caller was replaced only in favour of a receiver of higher priority. -/
structure RunsMostUrgent (k k' : Kernel) (d : PcbRef) : Prop where
  most : ∀ p, k'.LinkedIn .ready p → k'.current.priority ≤ (k'.pcbs p).priority
  replaced : k'.currentPcb ≠ k.currentPcb →
    (k.pcbs d).state = .messageWait ∧ (k.pcbs d).priority < k.current.priority

section
variable {k k' k₁ : Kernel} {M : Level → List PcbRef} {i j : Level} {d mq p : PcbRef} {e : Addr} {pid : Nat}
  {l : List PcbRef} {S : PcbRef → Prop}

/-! ### In reach of the ready queue -/

theorem Within.linkedIn {w : QueueId} (h : Within (k.alone w) S) (hp : k.LinkedIn w p) : S p := by
  obtain ⟨i, hp⟩ := hp
  rw [← Kernel.alone_pcbNext (w := w), ← Kernel.alone_queue (w := w)] at hp
  exact hp.subset h.next (h.head (w, i))

theorem QueueRep.within {w : QueueId} (h : QueueRep k w M) : Within (k.alone w) fun x => ∃ i, x ∈ M i := by
  have hw := (queueRep_iff.mp h).within
  have heq : (fun x => ∃ s, x ∈ only w M s) = fun x => ∃ i, x ∈ M i := by
    funext x
    refine propext ⟨fun ⟨s, hs⟩ => ?_, fun ⟨i, hi⟩ => ⟨(w, i), only_self ▸ hi⟩⟩
    unfold only at hs
    split at hs
    · exact ⟨s.2, hs⟩
    · cases hs
  exact heq ▸ hw

theorem Within.enqueue_alone {w : QueueId} (h : Within (k.alone w) S) (hs : enqueuePCBByPriority w p k = some k') :
    Within (k'.alone w) fun x => x = p ∨ S x :=
  h.enqueue (by rw [enqueuePCBByPriority_alone, hs]; rfl)

theorem Within.dequeue_alone {w : QueueId} (h : Within (k.alone w) S)
    (hs : dequeuePCBFIFOByPriority w k = some (some p, k')) : Within (k'.alone w) S :=
  (h.dequeue (by rw [dequeuePCBFIFOByPriority_alone, hs]; rfl)).2

/-! ### The receiver in the ready queue -/

theorem ReadyOrdered.within_woken (h : ReadyOrdered k M)
    (hput : enqueuePCBByPriority .ready d ((k.delivered pid e mq).setState d .ready) = some k₁) :
    Within (k₁.alone .ready) fun x => x = d ∨ ∃ i, x ∈ M i :=
  (show QueueRep ((k.delivered pid e mq).setState d .ready) .ready M from h.rep.congr rfl rfl).within.enqueue_alone hput

/-- What is in reach is no more urgent than the running process when the receiver is not. -/
theorem ReadyOrdered.le_of_linkedIn (h : ReadyOrdered k M) (hle : k.current.priority ≤ (k.pcbs d).priority)
    (hk' : Within (k'.alone .ready) fun x => x = d ∨ ∃ i, x ∈ M i) (hp : k'.LinkedIn .ready p) :
    k.current.priority ≤ (k.pcbs p).priority := by
  rcases hk'.linkedIn hp with rfl | ⟨i, hi⟩
  · exact hle
  · exact h.most i p hi

/-- The ready queue with the receiver in it. -/
theorem woken_eq (hi : (k.pcbs d).priority = i.val)
    (hput : enqueuePCBByPriority .ready d ((k.delivered pid e mq).setState d .ready) = some k₁) :
    k₁ = ((k.delivered pid e mq).setState d .ready).setQueue .ready
      (enqueuePCB k.pcbNext (k.readyQueue.subqueues i) d).1
      ⟨if i.val < k.readyQueue.highestPrio then i.val else k.readyQueue.highestPrio,
        Function.update k.readyQueue.subqueues i (enqueuePCB k.pcbNext (k.readyQueue.subqueues i) d).2⟩ := by
  have hi' : (((k.delivered pid e mq).setState d .ready).pcbs d).priority = i.val := by simp [hi]
  exact Option.some.inj (hput.symm.trans (enqueuePCBByPriority_eq hi'))

theorem exists_woken (k : Kernel) (d mq : PcbRef) (e : Addr) (pid : Nat) (hprio : (k.pcbs d).priority ≤ numPrio) :
    ∃ (i : Level) (k₁ : Kernel), (k.pcbs d).priority = i.val ∧
      enqueuePCBByPriority .ready d ((k.delivered pid e mq).setState d .ready) = some k₁ ∧
      k₁.currentPcb = k.currentPcb ∧ ∀ p, (k₁.pcbs p).priority = (k.pcbs p).priority := by
  have hi : (((k.delivered pid e mq).setState d .ready).pcbs d).priority =
      (⟨(k.pcbs d).priority, Nat.lt_succ_of_le hprio⟩ : Level).val := by simp
  refine ⟨⟨_, Nat.lt_succ_of_le hprio⟩, _, rfl, enqueuePCBByPriority_eq hi, ?_, fun p => ?_⟩
  · simp
  · simp

/-- The sender is next when it is the last of its subqueue and the receiver has the larger priority number. -/
theorem ReadyOrdered.dequeue_sender (h : ReadyOrdered k M) (hi : (k.pcbs d).priority = i.val)
    (hput : enqueuePCBByPriority .ready d ((k.delivered pid e mq).setState d .ready) = some k₁)
    (hl : M j = l ++ [k.currentPcb]) (hlt : k.current.priority < (k.pcbs d).priority) :
    ∃ k₂, dequeuePCBFIFOByPriority .ready k₁ = some (some k.currentPcb, k₂) := by
  have hcur : k.current.priority = j.val := h.own j _ (hl ▸ by simp)
  rw [hcur, hi] at hlt
  have hj : j ≠ i := fun e => Nat.lt_irrefl _ (e ▸ hlt)
  -- The subqueue of the sender is the first that is not empty, and the receiver goes into another one.
  have hhigh : k.readyQueue.highestPrio = j.val := by
    refine h.rep.highest.eq_of_first (i := j) (by simp [hl]) fun j' hj' => ?_
    refine List.eq_nil_iff_forall_not_mem.mpr fun x hx => ?_
    have hle := h.most j' x hx
    rw [h.own j' x hx, hcur] at hle
    exact absurd hj' (Nat.not_lt_of_le hle)
  have hd : d ∉ M j := fun hd => hj (Fin.ext ((h.own j d hd).symm.trans hi))
  have hholds : Queue.Holds (enqueuePCB k.pcbNext (k.readyQueue.subqueues i) d).1 (k.readyQueue.subqueues j)
      (l ++ [k.currentPcb]) :=
    hl ▸ (h.rep.holds.holds j).congr fun x hx => Queue.push_of_ne fun hxd => hd (hxd ▸ hx)
  obtain ⟨next, c, hs, -, -⟩ := hholds.shift (PcbRef.length_le (List.nodup_append.mp hholds.nodup).1)
  have htake : dequeuePCBFIFO k₁.pcbNext ((k₁.queue .ready).subqueues j) = some (some k.currentPcb, next, c) := by
    rw [woken_eq hi hput, Kernel.setQueue_queue_self, Kernel.setQueue_pcbNext]
    dsimp only
    rw [Function.update_of_ne hj]
    exact hs
  refine ⟨_, dequeuePCBFIFOByPriority_eq ?_ htake⟩
  rw [woken_eq hi hput, Kernel.setQueue_queue_self, hhigh]
  exact if_neg (Nat.lt_asymm hlt)

/-- Only then is it. -/
theorem ReadyOrdered.last_of_dequeue (h : ReadyOrdered k M) (hi : (k.pcbs d).priority = i.val)
    (hput : enqueuePCBByPriority .ready d ((k.delivered pid e mq).setState d .ready) = some k₁)
    (hlt : k.current.priority < (k.pcbs d).priority)
    (hs : dequeuePCBFIFOByPriority .ready k₁ = some (some k.currentPcb, k')) : ∃ j l, M j = l ++ [k.currentPcb] := by
  obtain ⟨j, next, c, n, -, hshift, -⟩ := dequeuePCBFIFOByPriority_inv hs
  obtain ⟨hne, htail⟩ := Queue.shift_some hshift
  have hlast : ∀ j', (k.readyQueue.subqueues j').isEmpty = false → (k.readyQueue.subqueues j').tail = some k.currentPcb →
      ∃ l, M j' = l ++ [k.currentPcb] := fun j' hne ht => by
    have hholds : Queue.Holds k.pcbNext (k.readyQueue.subqueues j') (M j') := h.rep.holds.holds j'
    have hne' : M j' ≠ [] := fun hnil => by
      rw [hholds.isEmpty_iff.mpr hnil] at hne
      cases hne
    exact List.getLast?_eq_some_iff.mp ((hholds.tail hne').symm.trans ht)
  rw [woken_eq hi hput, Kernel.setQueue_queue_self] at hne htail
  dsimp only at hne htail
  by_cases hj : j = i
  · -- The tail of the receiver's subqueue is the receiver or has its priority.
    subst hj
    rw [Function.update_self, enqueuePCB, Queue.push] at htail
    split at htail
    · rw [Option.some.inj htail] at hlt
      exact absurd hlt (Nat.lt_irrefl _)
    next hempty =>
      obtain ⟨l, hl⟩ := hlast j (Bool.eq_false_iff.mpr hempty) htail
      have hcur : k.current.priority = j.val := h.own j _ (hl ▸ by simp)
      rw [hcur, hi] at hlt
      exact absurd hlt (Nat.lt_irrefl _)
  · rw [Function.update_of_ne hj] at hne htail
    exact ⟨j, hlast j hne htail⟩

/-! ### The call -/

/-- A receiver of a lower priority makes the sender leave. -/
theorem ReadyOrdered.lower_iff (h : ReadyOrdered k M) (ht : k.TableOk) (hc : k.Created k.currentPcb)
    (hi : k.inIProcess = false) (hd : getPcb k pid = some d) (hmq : (k.pcbs d).messQueue = some mq)
    (hst : (k.pcbs d).state = .messageWait) (hprio : (k.pcbs d).priority ≤ numPrio)
    (hlt : k.current.priority < (k.pcbs d).priority) :
    (∃ k', (kernelSendMessage pid e k).last = some k' ∧ RunsMostUrgent k k' d) ↔ ∃ i l, M i = l ++ [k.currentPcb] := by
  obtain ⟨i, k₁, hlevel, hput, hcur₁, hprio₁⟩ := exists_woken k d mq e pid hprio
  rw [sendMessage_waiting ht hc hi hd hmq hst hput, if_pos hlt]
  constructor
  · rintro ⟨k', hlast, hmost⟩
    have hcur : k'.currentPcb = k.currentPcb :=
      Classical.byContradiction fun hne => Nat.lt_asymm hlt (hmost.replaced hne).2
    rcases htake : dequeuePCBFIFOByPriority .ready k₁ with _ | ⟨_ | x, k₂⟩ <;> rw [htake] at hlast
    · cases hlast
    · cases hlast
    · cases hlast
      exact h.last_of_dequeue hlevel hput hlt (htake.trans (by rw [show x = k.currentPcb from hcur]))
  · rintro ⟨j, l, hl⟩
    obtain ⟨k₂, htake⟩ := h.dequeue_sender hlevel hput hl hlt
    have hreach := (h.within_woken hput).dequeue_alone htake
    obtain ⟨j', next, c, n, -, -, hk₂⟩ := dequeuePCBFIFOByPriority_inv htake
    have hprio₂ : ∀ p, (k₂.pcbs p).priority = (k.pcbs p).priority := fun p => by rw [hk₂, Kernel.setQueue_pcbs, hprio₁]
    rw [htake]
    refine ⟨_, rfl, fun p hp => ?_, fun hne => absurd rfl hne⟩
    show (k₂.pcbs k.currentPcb).priority ≤ (k₂.pcbs p).priority
    rw [hprio₂, hprio₂]
    exact h.le_of_linkedIn (Nat.le_of_lt hlt) hreach hp

/-- A receiver of a higher priority is left in the ready queue. -/
theorem ReadyOrdered.higher_iff (h : ReadyOrdered k M) (ht : k.TableOk) (hc : k.Created k.currentPcb)
    (hi : k.inIProcess = false) (hd : getPcb k pid = some d) (hmq : (k.pcbs d).messQueue = some mq)
    (hst : (k.pcbs d).state = .messageWait) (hprio : (k.pcbs d).priority ≤ numPrio)
    (hle : (k.pcbs d).priority ≤ k.current.priority) :
    (∃ k', (kernelSendMessage pid e k).last = some k' ∧ RunsMostUrgent k k' d) ↔
      (k.pcbs d).priority = k.current.priority := by
  obtain ⟨i, k₁, hlevel, hput, hcur₁, hprio₁⟩ := exists_woken k d mq e pid hprio
  rw [sendMessage_waiting ht hc hi hd hmq hst hput, if_neg (Nat.not_lt_of_le hle)]
  have hcurrent : k₁.current.priority = k.current.priority := by
    unfold Kernel.current
    rw [hcur₁, hprio₁]
  constructor
  · rintro ⟨k', hlast, hmost⟩
    cases hlast
    have hlinked : k₁.LinkedIn .ready d := ⟨i, by
      rw [woken_eq hlevel hput, Kernel.setQueue_queue_self]
      dsimp only
      rw [Function.update_self, enqueuePCB, Queue.push_head]
      exact .here d⟩
    have hmost := hmost.most d hlinked
    rw [hcurrent, hprio₁] at hmost
    exact Nat.le_antisymm hle hmost
  · intro heq
    refine ⟨k₁, rfl, fun p hp => ?_, fun hne => absurd hcur₁ hne⟩
    rw [hcurrent, hprio₁]
    exact h.le_of_linkedIn (Nat.le_of_eq heq.symm) (h.within_woken hput) hp

/-- After a send the most urgent process runs, and the sender has been replaced for no other reason, exactly when
    the receiver does not wait for a message, or has the sender's priority, or a lower one while the sender itself is
    linked as the next process to run. -/
theorem sendMessage_runsMostUrgent_iff (h : ReadyOrdered k M) (ht : k.TableOk) (hc : k.Created k.currentPcb)
    (hi : k.inIProcess = false) (hd : getPcb k pid = some d) (hmq : (k.pcbs d).messQueue = some mq) :
    (∃ k', (kernelSendMessage pid e k).last = some k' ∧ RunsMostUrgent k k' d) ↔
      ((k.pcbs d).state = .messageWait → (k.pcbs d).priority ≤ numPrio ∧
        ((k.pcbs d).priority = k.current.priority ∨
          k.current.priority < (k.pcbs d).priority ∧ ∃ i l, M i = l ++ [k.currentPcb])) := by
  by_cases hst : (k.pcbs d).state = .messageWait
  · rcases Nat.lt_or_ge numPrio (k.pcbs d).priority with hpast | hprio
    · rw [sendMessage_past_levels hd hmq hst hpast]
      refine iff_of_false ?_ fun hcond => absurd (hcond hst).1 (Nat.not_le_of_lt hpast)
      rintro ⟨k', hk', -⟩
      cases hk'
    rcases Nat.lt_or_ge k.current.priority (k.pcbs d).priority with hlt | hle
    · rw [h.lower_iff ht hc hi hd hmq hst hprio hlt]
      refine ⟨fun hnext _ => ⟨hprio, Or.inr ⟨hlt, hnext⟩⟩, fun hcond => ?_⟩
      rcases (hcond hst).2 with heq | ⟨-, hnext⟩
      · exact absurd heq.symm (Nat.ne_of_lt hlt)
      · exact hnext
    · rw [h.higher_iff ht hc hi hd hmq hst hprio hle]
      refine ⟨fun heq _ => ⟨hprio, Or.inl heq⟩, fun hcond => ?_⟩
      rcases (hcond hst).2 with heq | ⟨hlt, -⟩
      · exact heq
      · exact absurd hlt (Nat.not_lt_of_le hle)
  · refine ⟨fun _ hst' => absurd hst' hst, fun _ => ⟨_, by rw [kernelSendMessage_deliver hd hmq hst]; rfl, ?_⟩⟩
    have hrep : QueueRep (k.delivered pid e mq) .ready M := h.rep.congr rfl rfl
    refine ⟨fun p hp => ?_, fun hne => absurd rfl hne⟩
    obtain ⟨i, hi⟩ := hrep.within.linkedIn hp
    exact h.most i p hi

/-- The contents of the ready queue, given those of both queues. -/
theorem ReadyOrdered.of_rep {L : Slot → List PcbRef} (hrep : Rep k L)
    (hown : ∀ i : Level, ∀ p ∈ L (.ready, i), (k.pcbs p).priority = i.val)
    (hmost : ∀ i : Level, L (.ready, i) ≠ [] → k.current.priority ≤ i.val) :
    ReadyOrdered k fun i => L (.ready, i) where
  rep := hrep.queueRep .ready
  own := hown
  most i p hp := by
    rw [hown i p hp]
    exact hmost i (List.ne_nil_of_mem hp)

end

/-- The wall clock process waits for a message, and the CRT process, of the same priority, sends it a block that it
    has requested. -/
theorem sendMessage_to_equal_priority :
    ∃ s k', ((boot rtosMap).kernel?.bind fun k => Runs.exec Sys.step (Sys.start k)
        [.call (.receiveMessage 0), .call .requestMemoryBlock, .resume]) = some s ∧
      s.log.getLast? = some (.returned crtPid .requestMemoryBlock firstBlock.val) ∧
      (kernelSendMessage wcPid.val firstBlock s.kernel).last = some k' ∧ RunsMostUrgent s.kernel k' wcPid := by
  have hrun : (((boot rtosMap).kernel?.bind fun k => Runs.exec Sys.step (Sys.start k)
      [.call (.receiveMessage 0), .call .requestMemoryBlock, .resume]).any fun s =>
      decide (s.log.getLast? = some (.returned crtPid .requestMemoryBlock firstBlock.val) ∧
        Rep s.kernel (Function.update bootContents (.ready, 0) [setPrioPid]) ∧
        (∀ i : Level, ∀ p ∈ Function.update bootContents (.ready, 0) [setPrioPid] (.ready, i),
          (s.kernel.pcbs p).priority = i.val) ∧
        s.kernel.TableOk ∧ s.kernel.Created s.kernel.currentPcb ∧ s.kernel.inIProcess = false ∧
        getPcb s.kernel wcPid.val = some wcPid ∧ (s.kernel.pcbs wcPid).messQueue = some wcPid ∧
        (s.kernel.pcbs wcPid).priority = 0 ∧ s.kernel.current.priority = 0)) = true := by decide +kernel
  obtain ⟨s, hs, hall⟩ := Option.any_eq_true _ _ |>.mp hrun
  obtain ⟨hlog, hrep, hown, ht, hc, hi, hd, hmq, hprio, hcur⟩ := of_decide_eq_true hall
  obtain ⟨k', hlast, hmost⟩ := (sendMessage_runsMostUrgent_iff (e := firstBlock)
    (.of_rep hrep hown fun i _ => hcur ▸ Nat.zero_le _) ht hc hi hd hmq).mpr
    fun _ => ⟨hprio ▸ Nat.zero_le _, Or.inl (hprio.trans hcur.symm)⟩
  exact ⟨s, k', hs, hlog, hlast, hmost⟩

/-- The wall clock process, the CRT process and the priority process wait for messages. Process 1, of a lower
    priority, sends the wall clock process a block that it has requested, and goes on running. -/
theorem sendMessage_to_higher_priority :
    ∃ s M, ((boot rtosMap).kernel?.bind fun k => Runs.exec Sys.step (Sys.start k)
        [.call (.receiveMessage 0), .call (.receiveMessage 0), .call (.receiveMessage 0), .call .requestMemoryBlock,
          .resume]) = some s ∧
      s.log.getLast? = some (.returned 1 .requestMemoryBlock firstBlock.val) ∧
      ReadyOrdered s.kernel M ∧ s.kernel.inIProcess = false ∧ getPcb s.kernel wcPid.val = some wcPid ∧
      ¬∃ k', (kernelSendMessage wcPid.val firstBlock s.kernel).last = some k' ∧ RunsMostUrgent s.kernel k' wcPid := by
  have hrun : (((boot rtosMap).kernel?.bind fun k => Runs.exec Sys.step (Sys.start k)
      [.call (.receiveMessage 0), .call (.receiveMessage 0), .call (.receiveMessage 0), .call .requestMemoryBlock,
        .resume]).any fun s =>
      decide (s.log.getLast? = some (.returned 1 .requestMemoryBlock firstBlock.val) ∧
        Rep s.kernel (fun s => if s = (.ready, 1) then [kcdPid, 13, 12, 11, 10, 9, 8, 7, 3, 2]
          else if s = (.ready, 4) then [nullPid] else []) ∧
        (∀ i : Level, ∀ p ∈ (if ((.ready, i) : Slot) = (.ready, 1) then [kcdPid, 13, 12, 11, 10, 9, 8, 7, 3, 2]
          else if ((.ready, i) : Slot) = (.ready, 4) then [nullPid] else []), (s.kernel.pcbs p).priority = i.val) ∧
        s.kernel.TableOk ∧ s.kernel.Created s.kernel.currentPcb ∧ s.kernel.inIProcess = false ∧
        getPcb s.kernel wcPid.val = some wcPid ∧ (s.kernel.pcbs wcPid).messQueue = some wcPid ∧
        (s.kernel.pcbs wcPid).state = .messageWait ∧ (s.kernel.pcbs wcPid).priority = 0 ∧
        s.kernel.current.priority = 1)) = true := by decide +kernel
  obtain ⟨s, hs, hall⟩ := Option.any_eq_true _ _ |>.mp hrun
  obtain ⟨hlog, hrep, hown, ht, hc, hi, hd, hmq, hst, hprio, hcur⟩ := of_decide_eq_true hall
  have hordered := ReadyOrdered.of_rep hrep hown fun i hne => by
    rw [hcur]
    rcases Nat.eq_zero_or_pos i.val with h₀ | hpos
    · exact absurd (by rw [show i = 0 from Fin.ext h₀]; rfl) hne
    · exact hpos
  refine ⟨s, _, hs, hlog, hordered, hi, hd, fun hmost => ?_⟩
  have heq := (hordered.higher_iff ht hc hi hd hmq hst (hprio ▸ Nat.zero_le _) (hprio ▸ Nat.zero_le _)).mp hmost
  rw [hprio, hcur] at heq
  cases heq

end DoorRtos
