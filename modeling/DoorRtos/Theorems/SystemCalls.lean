import DoorRtos.Theorems.Sending

/-! Exactly which system calls lead from a well-scheduled state to a well-scheduled state. -/

namespace DoorRtos
open Linked

section
variable {k k' k₀ : Kernel} {L L' : Slot → List PcbRef} {d p : PcbRef} {e : Addr} {pid n : Nat}

/-! ### Sending -/

/-- When a call that sends a message to process `pid` leaves a well-scheduled state: a receiver that waits has
    the priority of the sender and is linked nowhere. -/
def SendKeeps (k : Kernel) (L : Slot → List PcbRef) (pid : Nat) : Prop :=
  ∀ d, getPcb k pid = some d → (∃ q, (k.pcbs d).messQueue = some q) ∧
    ((k.pcbs d).state = .messageWait → (k.pcbs d).priority = k.current.priority ∧ Unlinked L d)

theorem sendMessage_keeps_iff (h : WellScheduled k L) (ht : k.TableOk) (hi : k.inIProcess = false)
    (hc : k.Created k.currentPcb) (hip : ¬IProcess k.currentPcb) (hnull : k.currentPcb ≠ nullPid) :
    Keeps (kernelSendMessage pid e k) ↔ SendKeeps k L pid := by
  refine ⟨?_, fun hk => sendMessage_keeps h ht hc hip hnull e hk⟩
  rintro ⟨k', L', hlast, hws⟩ d hd
  obtain ⟨hun, hmem, hmess⟩ := h.current hc hip
  cases hmq : (k.pcbs d).messQueue with
  | none =>
    rw [kernelSendMessage_stuck hd hmq] at hlast
    cases hlast
  | some mq =>
    refine ⟨⟨mq, rfl⟩, fun hst => ?_⟩
    have hdc : d ≠ k.currentPcb := fun he => hmess (by rw [he] at hst; exact hst)
    have hle : (k.pcbs d).priority ≤ k.current.priority := by
      by_contra hlt
      obtain ⟨hcur, hpcb, hout⟩ := sendMessage_lost h.rep ht hc hi hun hd hmq hst hdc (Nat.lt_of_not_le hlt) hlast
      have hout := unlinked_iff.mp (hout L' hws.rep)
      have hc' : k'.Created k.currentPcb := by
        unfold Kernel.Created
        rw [hpcb]
        exact hc
      cases hws.placed _ hc' hip with
      | running hp => exact hcur hp
      | ready _ hin => exact hout _ hin
      | memoryWait _ hin => exact hout _ hin
      | messageWait _ _ hst' => exact hmess (hpcb ▸ hst')
    have hund : Unlinked L d := fun s hs => sendMessage_linked h.rep ht hc hi hd hmq hst hs hle hlast hws.rep
    refine ⟨Nat.le_antisymm hle ?_, hund⟩
    -- The woken receiver is ready, so the sender that goes on has no larger priority number.
    have hset : Settled (k.delivered pid e mq) L {d, k.currentPcb} :=
      (show Settled (k.delivered pid e mq) L _ from h.settled.congr rfl rfl rfl).mono (Set.subset_insert d _)
    obtain ⟨k₁, L₁, hput, hwoken⟩ := hset.wake hund (Nat.le_trans hle (h.priority_le hnull))
    rw [sendMessage_waiting ht hc hi hd hmq hst hput, if_neg (Nat.not_lt_of_le hle)] at hlast
    cases hlast
    have hfirst := hws.first d (by
      rw [hws.rep.det hwoken.settled.rep]
      exact (hwoken.queues _ _).mpr (Or.inr ⟨rfl, rfl⟩))
    rw [hwoken.current_priority, hwoken.priority] at hfirst
    exact hfirst

theorem delayedSend_keeps_iff (h : WellScheduled k L) (hw : WellFormed k) (ht : k.TableOk) (hi : k.inIProcess = false)
    (hc : k.Created k.currentPcb) (hip : ¬IProcess k.currentPcb) (hnull : k.currentPcb ≠ nullPid) {delay : Int} :
    Keeps (kernelDelayedSend pid e delay k) ↔ (delay = 0 → SendKeeps k L pid) := by
  have hsend : Keeps (kernelSendMessage pid e (k.marked pid e)) ↔ SendKeeps k L pid :=
    sendMessage_keeps_iff (k := k.marked pid e) (h.congr rfl rfl rfl rfl) ht hi hc hip hnull
  refine ⟨fun hk hzero => ?_, fun hk => delayedSend_keeps h hw e delay fun hzero => hsend.mpr (hk hzero)⟩
  subst hzero
  rw [kernelDelayedSend_zero] at hk
  exact hsend.mp hk

/-! ### Setting a priority -/

/-- `remove_element_by_priority` ends well on a PCB whose move damages its queue. -/
theorem removed_of_not_moveKeeps {w : QueueId} {k₁ : Kernel} {r : Nat} (h : WellScheduled k L)
    (hk : ¬MoveKeeps k L w p n) (hremove : removeElementByPriority p w k = some (r, k₁)) : r = rtxSuccess := by
  have hprio : (k.pcbs p).priority ≤ numPrio := by
    by_contra hgt
    unfold removeElementByPriority at hremove
    rw [dif_neg (by omega)] at hremove
    cases hremove
  obtain ⟨i, a, b, hl⟩ : ∃ i a b, L (w, i) = a ++ p :: b := by
    by_contra hno
    exact hk ⟨hprio, fun i a b hl => absurd ⟨i, a, b, hl⟩ hno⟩
  have hlevel : (⟨(k.pcbs p).priority, Nat.lt_succ_of_le hprio⟩ : Level) = i :=
    Fin.ext (h.own w i p (by rw [hl]; simp))
  rw [removeElementByPriority_eq hprio, hlevel, removeElement_of_mem h.rep hl] at hremove
  obtain ⟨k₂, -, he⟩ := Option.map_eq_some_iff.mp hremove
  exact (congrArg Prod.fst he).symm

/-- A PCB whose move damages its queue, but can be put back, is the last of several: the one before it becomes
    a tail with a link. -/
theorem dangling_of_not_moveKeeps {w : QueueId} {k₁ k₂ : Kernel} {r : Nat} (h : WellScheduled k L)
    (hk : ¬MoveKeeps k L w p n) (hremove : removeElementByPriority p w k = some (r, k₁))
    (hput : enqueuePCBByPriority w p (k₁.setPriority p n) = some k₂) :
    ∃ i c y, p ∈ L (w, i) ∧ y ∈ L (w, i) ∧ y ≠ p ∧ k₁ = k.setQueue w k.pcbNext c ∧
      c.highestPrio = (k.queue w).highestPrio ∧ (∀ j, j ≠ i → c.subqueues j = (k.queue w).subqueues j) ∧
      Dangling k₁ (w, i) y := by
  have hprio : (k.pcbs p).priority ≤ numPrio := by
    by_contra hgt
    unfold removeElementByPriority at hremove
    rw [dif_neg (by omega)] at hremove
    cases hremove
  have hn : n ≤ numPrio := by simpa using (enqueuePCBByPriority_inv hput).1
  obtain ⟨i, a, b, hl, hab⟩ : ∃ i a b, L (w, i) = a ++ p :: b ∧ ¬(a = [] ∨ b ≠ []) := by
    by_contra hno
    refine hk ⟨hprio, fun i a b hl => ⟨hn, ?_⟩⟩
    by_contra hab
    exact hno ⟨i, a, b, hl, hab⟩
  obtain ⟨ha, rfl⟩ : a ≠ [] ∧ b = [] := by simpa using hab
  obtain ⟨a, y, rfl⟩ := (List.eq_nil_or_concat a).resolve_left ha
  rw [List.concat_eq_append, List.append_assoc] at hl
  have hin : p ∈ L (w, i) := by rw [hl]; simp
  have hlevel : (⟨(k.pcbs p).priority, Nat.lt_succ_of_le hprio⟩ : Level) = i := Fin.ext (h.own w i p hin)
  rw [removeElementByPriority_eq hprio, hlevel] at hremove
  obtain ⟨c, hs, hhigh, hother, hdang⟩ := removeElement_dangling h.rep hl
  cases hs.symm.trans hremove
  refine ⟨i, c, y, hin, by rw [hl]; simp, ?_, rfl, hhigh, hother, hdang⟩
  rintro rfl
  have hnd := (h.rep.holds.holds (w, i)).nodup
  rw [hl] at hnd
  exact absurd (List.nodup_append.mp hnd).2.1 (by simp)

/-- No ready process overtakes the running one, so `highest_prio` is no smaller than its priority. -/
theorem WellScheduled.le_highestPrio (h : WellScheduled k L) (hprio : k.current.priority ≤ numPrio) :
    k.current.priority ≤ (k.queue .ready).highestPrio := by
  have hh := h.rep.highest .ready
  rcases Nat.lt_or_eq_of_le hh.bound with hlt | heq
  · obtain ⟨q, hq⟩ := List.exists_mem_of_ne_nil _ (hh.here ⟨_, hlt⟩ rfl)
    have hle := h.first q ⟨_, hq⟩
    rwa [h.own .ready ⟨_, hlt⟩ q hq] at hle
  · omega

/-- A switch to a PCB that is alone at the top of the ready queue leaves a damaged subqueue damaged. -/
theorem Dangling.processSwitch {y x : PcbRef} {i j : Level} (h : Dangling k (.ready, i) y)
    (hle : k.readyQueue.highestPrio ≤ k.current.priority) (hh : (k.queue .ready).highestPrio = j.val)
    (hc : (k.queue .ready).subqueues j = ⟨some x, some x⟩) (hx : k.pcbNext x = none) (hij : i ≠ j)
    (hcur : k.currentPcb ≠ y) (hs : (processSwitch k).kernel? = some k') : Dangling k' (.ready, i) y := by
  obtain ⟨m, htake⟩ := dequeuePCBFIFOByPriority_single hh hc hx
  have h₁ : Dangling (k.setQueue .ready k.pcbNext
      ⟨m, Function.update (k.queue .ready).subqueues j Queue.empty⟩) (.ready, i) y := by
    have hsub : ((.ready, i) : Slot) ≠ (.ready, j) := fun e => hij (congrArg Prod.snd e)
    refine ⟨?_, ?_, ?_⟩
    · rw [Kernel.setQueue_sub, Function.update_of_ne hsub]
      exact h.head
    · rw [Kernel.setQueue_sub, Function.update_of_ne hsub]
      exact h.tail
    · rw [Kernel.setQueue_pcbNext]
      exact h.next
  have h₂ : Dangling (((k.setQueue .ready k.pcbNext
      ⟨m, Function.update (k.queue .ready).subqueues j Queue.empty⟩).setState x .running).setState
      k.currentPcb .ready) _ _ :=
    h₁.congr rfl rfl
  cases hput : enqueuePCBByPriority .ready k.currentPcb (((k.setQueue .ready k.pcbNext
      ⟨m, Function.update (k.queue .ready).subqueues j Queue.empty⟩).setState x .running).setState k.currentPcb .ready) with
  | none =>
    rw [processSwitch_stuck hle htake (Kernel.setQueue_currentPcb ..) hput] at hs
    cases hs
  | some k₂ =>
    rw [processSwitch_eq hle htake (Kernel.setQueue_currentPcb ..) hput] at hs
    cases hs
    exact (h₂.enqueue hcur hput).congr rfl rfl

/-- The PCB that was moved to the top of the ready queue is alone there, so the switch to it repairs nothing. -/
theorem damaged_switch {k₂ : Kernel} {c : METAPCBQueue} {y : PcbRef} {i : Level} (h : WellScheduled k L)
    (hnull : k.currentPcb ≠ nullPid) (hp : p ≠ k.currentPcb) (hun : Unlinked L k.currentPcb) (hpi : p ∈ L (.ready, i))
    (hyi : y ∈ L (.ready, i)) (hhigh : c.highestPrio = (k.queue .ready).highestPrio)
    (hother : ∀ j, j ≠ i → c.subqueues j = (k.queue .ready).subqueues j)
    (hput : enqueuePCBByPriority .ready p ((k.setQueue .ready k.pcbNext c).setPriority p n) = some k₂)
    (hlt : n < k₂.current.priority) (hdang : Dangling k₂ (.ready, i) y)
    (hs : (processSwitch k₂).kernel? = some k') : Dangling k' (.ready, i) y := by
  have hcurrent : k₂.current.priority = k.current.priority := by
    obtain ⟨-, next, c', rfl⟩ := enqueuePCBByPriority_inv hput
    simp [Kernel.current, hp.symm]
  have hle := h.priority_le hnull
  have hn : n < k.current.priority := hcurrent ▸ hlt
  have hni : n < i.val := by
    have := h.first p ⟨i, hpi⟩
    rw [h.own .ready i p hpi] at this
    omega
  have hnh : n < (k.queue .ready).highestPrio := Nat.lt_of_lt_of_le hn (h.le_highestPrio hle)
  -- Subqueue `n` was empty before `p` came.
  have hnlt : n < numPrio + 1 := by omega
  have hij : i ≠ ⟨n, hnlt⟩ := fun e => Nat.lt_irrefl n (by rw [e] at hni; exact hni)
  have hnil : L (.ready, ⟨n, hnlt⟩) = [] := (h.rep.highest .ready).below _ hnh
  have hhead : ((k.queue .ready).subqueues ⟨n, hnlt⟩).head = none :=
    (h.rep.holds.holds (.ready, ⟨n, hnlt⟩)).list.eq_nil_iff.mp hnil
  have hprio : (((k.setQueue .ready k.pcbNext c).setPriority p n).pcbs p).priority = (⟨n, hnlt⟩ : Level).val := by simp
  cases (enqueuePCBByPriority_eq hprio).symm.trans hput
  have hqueue : ((k.setQueue .ready k.pcbNext c).setPriority p n).queue .ready = c := rfl
  simp only [hqueue, hother _ hij.symm] at hs hdang hlt ⊢
  refine hdang.processSwitch (x := p) (j := ⟨n, hnlt⟩) ?_ ?_ ?_ ?_ hij ?_ hs
  · exact Nat.le_trans (Nat.le_of_eq (if_pos (hhigh.symm ▸ hnh))) (Nat.le_of_lt hlt)
  · exact if_pos (hhigh.symm ▸ hnh)
  · rw [Kernel.setQueue_queue_self]
    dsimp only
    rw [Function.update_self, enqueuePCB, Queue.push, Queue.isEmpty, hhead]
    rfl
  · rw [Kernel.setQueue_pcbNext, enqueuePCB, Queue.push_links, Function.update_self, hhead]
  · rw [Kernel.setQueue_currentPcb]
    exact fun e => hun (.ready, i) (e ▸ hyi)

/-- A move that would damage the queue goes through, unless C gives no meaning to it. -/
theorem movePCB_of_not_moveKeeps {w : QueueId} {f : Kernel → Outcome (Nat × Kernel)} (h : WellScheduled k L)
    (hk : ¬MoveKeeps k L w p n) (hlast : (movePCB p w n f k).last = some k') :
    ∃ k₁ k₂, removeElementByPriority p w k = some (rtxSuccess, k₁) ∧
      enqueuePCBByPriority w p (k₁.setPriority p n) = some k₂ ∧ (f k₂).last = some k' := by
  rcases movePCB_cases p w n f k with ho | ⟨k₁, hremove, -⟩ | ⟨r, k₁, k₂, hremove, -, hput, ho⟩
  · rw [ho] at hlast
    cases hlast
  · exact absurd (removed_of_not_moveKeeps h hk hremove) (by decide)
  · have hr := removed_of_not_moveKeeps h hk hremove
    subst hr
    exact ⟨k₁, k₂, hremove, hput, ho ▸ hlast⟩

/-- A process in the ready queue whose move damages the queue. -/
theorem setProcessPriority_ready_not_keeps (h : WellScheduled k L) (hc : k.Created k.currentPcb)
    (hip : ¬IProcess k.currentPcb) (hnull : k.currentPcb ≠ nullPid) (h₀ : ¬(pid = 0 ∨ n = 4))
    (hget : getPcb k pid = some p) (hp : p ≠ k.currentPcb) (hmem : (k.pcbs p).state ≠ .memoryWait)
    (hmess : (k.pcbs p).state ≠ .messageWait) (hk : ¬MoveKeeps k L .ready p n) :
    ¬Keeps (kernelSetProcessPriority pid n k) := by
  rintro ⟨k', L', hlast, hws⟩
  obtain ⟨hun, -⟩ := h.current hc hip
  rw [kernelSetProcessPriority_ready h₀ hget hp hmem hmess] at hlast
  obtain ⟨k₁, k₂, hremove, hput, hlast⟩ := movePCB_of_not_moveKeeps h hk hlast
  obtain ⟨i, c, y, hpi, hyi, hyp, rfl, hhigh, hother, hdang⟩ := dangling_of_not_moveKeeps h hk hremove hput
  have hdang₁ : Dangling ((k.setQueue .ready k.pcbNext c).setPriority p n) (.ready, i) y := hdang.congr rfl rfl
  have hdang₂ : Dangling k₂ (.ready, i) y := hdang₁.enqueue hyp.symm hput
  by_cases hlt : n < k₂.current.priority
  · rw [if_pos hlt] at hlast
    exact (damaged_switch h hnull hp hun hpi hyi hhigh hother hput hlt hdang₂
      ((Outcome.last_bind _ _).symm.trans hlast)).not_rep hws.rep
  · rw [if_neg hlt] at hlast
    cases hlast
    exact hdang₂.not_rep hws.rep

/-- A process in the memory queue whose move damages the queue. -/
theorem setProcessPriority_memoryWait_not_keeps (h : WellScheduled k L) (h₀ : ¬(pid = 0 ∨ n = 4))
    (hget : getPcb k pid = some p) (hp : p ≠ k.currentPcb) (hst : (k.pcbs p).state = .memoryWait)
    (hk : ¬MoveKeeps k L .memoryWait p n) : ¬Keeps (kernelSetProcessPriority pid n k) := by
  rintro ⟨k', L', hlast, hws⟩
  rw [kernelSetProcessPriority_memoryWait h₀ hget hp hst] at hlast
  obtain ⟨k₁, k₂, hremove, hput, hlast⟩ := movePCB_of_not_moveKeeps h hk hlast
  cases hlast
  obtain ⟨i, c, y, -, -, hyp, rfl, -, -, hdang⟩ := dangling_of_not_moveKeeps h hk hremove hput
  have hdang₁ : Dangling ((k.setQueue .memoryWait k.pcbNext c).setPriority p n) (.memoryWait, i) y := hdang.congr rfl rfl
  exact (hdang₁.enqueue hyp.symm hput).not_rep hws.rep

/-- The running process cannot be put back with a priority past the subqueues. -/
theorem setProcessPriority_self_not_keeps (h : WellScheduled k L) (hc : k.Created k.currentPcb)
    (hip : ¬IProcess k.currentPcb) (hnull : k.currentPcb ≠ nullPid) (h₀ : ¬(pid = 0 ∨ n = 4))
    (hget : getPcb k pid = some k.currentPcb) (hn : numPrio < n) : ¬Keeps (kernelSetProcessPriority pid n k) := by
  obtain ⟨hun, -⟩ := h.current hc hip
  have hset : Settled (k.setPriority k.currentPcb n) L {k.currentPcb} := h.settled.setPriority hun
  obtain ⟨q, next, c, L₁, htake, -, htaken, hhigh, -⟩ := hset.take (w := .ready) (h.null.resolve_left hnull)
  have hle := h.own.priority_le htaken.mem
  have hq : (k.setPriority k.currentPcb n).current.priority = n := by simp [Kernel.current]
  have hqc : q ≠ k.currentPcb := fun e => unlinked_iff.mp hun _ (e ▸ htaken.mem)
  have hhighest : (k.setPriority k.currentPcb n).readyQueue.highestPrio ≤
      (k.setPriority k.currentPcb n).current.priority := by
    rw [hq]
    refine Nat.le_trans (Nat.le_of_eq hhigh) ?_
    rw [Kernel.setPriority_priority, if_neg hqc]
    omega
  have hstuck : processSwitch (k.setPriority k.currentPcb n) = .stuck :=
    processSwitch_stuck hhighest htake (Kernel.setQueue_currentPcb ..) (enqueuePCBByPriority_eq_none (by simpa using hn))
  rw [kernelSetProcessPriority_self h₀ hget,
    if_neg (Nat.not_le_of_lt (Nat.lt_of_le_of_lt (h.priority_le hnull) hn)), hstuck]
  rintro ⟨k', L', hlast, -⟩
  cases hlast

/-- Exactly when a call that sets a priority leaves a well-scheduled state. -/
theorem setProcessPriority_keeps_iff (h : WellScheduled k L) (hc : k.Created k.currentPcb)
    (hip : ¬IProcess k.currentPcb) (hnull : k.currentPcb ≠ nullPid) :
    Keeps (kernelSetProcessPriority pid n k) ↔ SetPrioKeeps k L pid n := by
  refine ⟨fun hkeeps => ?_, setProcessPriority_keeps h hc hip hnull⟩
  by_cases h₀ : pid = 0 ∨ n = 4
  · exact h₀.imp id Or.inl
  refine Or.inr (Or.inr fun p hget => ?_)
  by_cases hp : p = k.currentPcb
  · rw [if_pos hp]
    subst hp
    by_contra hn
    exact setProcessPriority_self_not_keeps h hc hip hnull h₀ hget (Nat.lt_of_not_le hn) hkeeps
  · rw [if_neg hp]
    cases hst : (k.pcbs p).state with
    | ready =>
      by_contra hk
      exact setProcessPriority_ready_not_keeps h hc hip hnull h₀ hget hp (by simp [hst]) (by simp [hst]) hk hkeeps
    | running =>
      by_contra hk
      exact setProcessPriority_ready_not_keeps h hc hip hnull h₀ hget hp (by simp [hst]) (by simp [hst]) hk hkeeps
    | memoryWait =>
      by_contra hk
      exact setProcessPriority_memoryWait_not_keeps h h₀ hget hp hst hk hkeeps
    | messageWait =>
      rw [kernelSetProcessPriority_messageWait h₀ hget hp hst] at hkeeps
      obtain ⟨k', L', hlast, hws⟩ := hkeeps
      cases hlast
      by_contra hk
      obtain ⟨hlinked, hn⟩ := not_or.mp hk
      have hL : L' = L := hws.rep.det (h.rep.congr rfl rfl)
      subst hL
      refine hlinked fun s hs => hn ?_
      have hown := hws.own s.1 s.2 p hs
      rw [Kernel.setPriority_priority, if_pos rfl] at hown
      rw [hown, h.own s.1 s.2 p hs]

/-! ### All system calls -/

/-- When a system call leaves a well-scheduled state. -/
def CallKeeps (k : Kernel) (L : Slot → List PcbRef) : Call → Prop
  | .sendMessage processID envelope => (∃ e, toPtr envelope = some e) ∧ SendKeeps k L processID
  | .delayedSend processID envelope delay =>
    (∃ e, toPtr envelope = some e) ∧ (toInt delay = 0 → SendKeeps k L processID)
  | .releaseMemoryBlock memoryBlock => ∃ b, toPtr memoryBlock = some b
  | .setProcessPriority processID priority => SetPrioKeeps k L processID (priority % 2 ^ 8)
  | _ => True

/-- Storing the result of a primitive moves no PCB. -/
theorem keeps_store {α : Type} {o : Outcome (α × Kernel)} {f : α → Kernel → Kernel}
    (hf : ∀ a k L, WellScheduled (f a k) L ↔ WellScheduled k L) :
    (∃ k' L', (o >>= fun r => .returned (f r.1 r.2)).kernel? = some k' ∧ WellScheduled k' L') ↔ Keeps o := by
  unfold Keeps
  rw [Outcome.kernel?_bind]
  cases o with
  | returned r =>
    constructor
    · rintro ⟨k', L', hk, hws⟩
      cases hk
      exact ⟨r.2, L', rfl, (hf _ _ _).mp hws⟩
    · rintro ⟨k', L', hk, hws⟩
      cases hk
      exact ⟨_, L', rfl, (hf _ _ _).mpr hws⟩
  | switched k => rfl
  | stuck => rfl

theorem retCode_wellScheduled (r : Nat) (k : Kernel) (L : Slot → List PcbRef) :
    WellScheduled { k with retCode := r } L ↔ WellScheduled k L :=
  ⟨fun h => h.congr rfl rfl rfl rfl, fun h => h.congr rfl rfl rfl rfl⟩

/-- A pointer argument that is `NULL` is followed. -/
theorem keeps_pointer {o : Addr → Outcome Kernel} {w : Nat} {P : Prop}
    (h : ∀ a, toPtr w = some a → ((∃ k' L', (o a).kernel? = some k' ∧ WellScheduled k' L') ↔ P)) :
    (∃ k' L', (liftM (toPtr w) >>= o).kernel? = some k' ∧ WellScheduled k' L') ↔ (∃ a, toPtr w = some a) ∧ P := by
  cases hw : toPtr w with
  | none =>
    constructor
    · rintro ⟨k', L', hk, -⟩
      cases hk
    · rintro ⟨⟨a, ha⟩, -⟩
      cases ha
  | some a =>
    rw [Outcome.liftM_some, Outcome.returned_bind, h a hw]
    exact ⟨fun hP => ⟨⟨a, rfl⟩, hP⟩, fun hP => hP.2⟩

/-- A system call of a running process leads from a well-scheduled state to a well-scheduled state exactly when
    `CallKeeps` holds before it. -/
theorem call_keeps_iff (h : WellScheduled k L) (hw : WellFormed k) (ht : k.TableOk) (hi : k.inIProcess = false)
    (hc : k.Created k.currentPcb) (hip : ¬IProcess k.currentPcb) (hnull : k.currentPcb ≠ nullPid) (c : Call) :
    (∃ k' L', (swiTrapHandler (c.enter k)).kernel? = some k' ∧ WellScheduled k' L') ↔ CallKeeps k L c := by
  cases c with
  | releaseProcessor =>
    rw [swiTrapHandler_releaseProcessor rfl]
    have h' : WellScheduled (Call.releaseProcessor.enter k) L := h.congr rfl rfl rfl rfl
    obtain ⟨hun, hmem, hmess⟩ := h'.current hc hip
    exact iff_of_true (processSwitch_wellScheduled h'.settled hun hmem hmess (h'.priority_le hnull)) trivial
  | sendMessage processID envelope =>
    rw [swiTrapHandler_sendMessage rfl]
    refine keeps_pointer fun e _ => (keeps_store (f := fun r k => { k with retCode := r }) retCode_wellScheduled).trans ?_
    exact sendMessage_keeps_iff (k := (Call.sendMessage processID envelope).enter k) (h.congr rfl rfl rfl rfl) ht hi hc
      hip hnull
  | receiveMessage senderID =>
    rw [swiTrapHandler_receiveMessage rfl]
    have hk := receiveMessage_keeps (k := (Call.receiveMessage senderID).enter k) (h.congr rfl rfl rfl rfl)
      ⟨hw.mailbox, hw.messages, hw.delayed, hw.free⟩ hi hc hip hnull
    exact iff_of_true ((keeps_store (f := fun _ k => k) fun _ _ _ => Iff.rfl).mpr hk) trivial
  | requestMemoryBlock =>
    rw [swiTrapHandler_requestMemory rfl]
    have hk := requestMemoryBlock_keeps (k := Call.requestMemoryBlock.enter k) (h.congr rfl rfl rfl rfl)
      ⟨hw.mailbox, hw.messages, hw.delayed, hw.free⟩ hi hc hip hnull
    exact iff_of_true ((keeps_store (f := fun r k => { k with retCode := toWord r }) fun _ _ _ =>
      retCode_wellScheduled ..).mpr hk) trivial
  | releaseMemoryBlock memoryBlock =>
    rw [swiTrapHandler_releaseMemory rfl]
    refine (keeps_pointer (P := True) fun b _ => ?_).trans ⟨fun hb => hb.1, fun hb => ⟨hb, trivial⟩⟩
    have hk := releaseMemoryBlock_keeps (k := (Call.releaseMemoryBlock memoryBlock).enter k) (h.congr rfl rfl rfl rfl)
      hc hip hnull b
    exact iff_of_true ((keeps_store (f := fun r k => { k with retCode := r }) retCode_wellScheduled).mpr hk) trivial
  | delayedSend processID envelope delay =>
    rw [swiTrapHandler_delayedSend rfl]
    refine keeps_pointer fun e _ => (keeps_store (f := fun r k => { k with retCode := r }) retCode_wellScheduled).trans ?_
    exact delayedSend_keeps_iff (k := (Call.delayedSend processID envelope delay).enter k) (h.congr rfl rfl rfl rfl)
      ⟨hw.mailbox, hw.messages, hw.delayed, hw.free⟩ ht hi hc hip hnull
  | setProcessPriority processID priority =>
    rw [swiTrapHandler_setPrio rfl]
    refine (keeps_store (f := fun r k => { k with retCode := r }) retCode_wellScheduled).trans ?_
    exact setProcessPriority_keeps_iff (k := (Call.setProcessPriority processID priority).enter k)
      (h.congr rfl rfl rfl rfl) hc hip hnull
  | getProcessPriority processID =>
    rw [swiTrapHandler_getPrio rfl]
    refine iff_of_true ⟨_, L, rfl, ?_⟩ trivial
    unfold kernelGetProcessPriority
    split
    · exact h.congr rfl rfl rfl rfl
    · exact h.congr rfl rfl rfl rfl

/-- The state that `start_scheduler` builds is well-scheduled, and a system call leads from a well-scheduled state to
    a well-scheduled state exactly when `CallKeeps` holds before it. -/
theorem systemCalls_wellScheduled (k₀ : Kernel) {k : Kernel} {L : Slot → List PcbRef} (h : WellScheduled k L)
    (hw : WellFormed k) (ht : k.TableOk) (hi : k.inIProcess = false) (hc : k.Created k.currentPcb)
    (hip : ¬IProcess k.currentPcb) (hnull : k.currentPcb ≠ nullPid) (c : Call) :
    (∃ k' L', startScheduler k₀ = .switched k' ∧ WellScheduled k' L') ∧
      ((∃ k' L', (swiTrapHandler (c.enter k)).kernel? = some k' ∧ WellScheduled k' L') ↔ CallKeeps k L c) := by
  refine ⟨?_, call_keeps_iff h hw ht hi hc hip hnull c⟩
  obtain ⟨k', hs, hstarted⟩ := startScheduler_spec k₀
  exact ⟨k', bootContents, hs, hstarted.wellScheduled⟩

/-- The first call of the first process: `release_processor`. -/
theorem systemCalls_wellScheduled_release :
    ∃ k k' L', boot rtosMap = .switched k ∧
      (swiTrapHandler (Call.releaseProcessor.enter k)).kernel? = some k' ∧ WellScheduled k' L' := by
  obtain ⟨k, hboot, h⟩ := boot_spec rtosMap
  obtain ⟨k', L', hs, hws⟩ := (systemCalls_wellScheduled zeroed h.started.wellScheduled h.wellFormed h.tableOk
    h.started.inIProcess h.started.created_current (by rw [h.started.current]; decide)
    (by rw [h.started.current]; decide) .releaseProcessor).2.mpr trivial
  exact ⟨k, k', L', hboot, hs, hws⟩

/-- After the start the CRT process is the last of two in its subqueue. The first process gives it another priority:
    the tail of the subqueue keeps its link to it. -/
theorem setProcessPriority_of_last :
    ∃ k L, boot rtosMap = .switched k ∧ WellScheduled k L ∧ WellFormed k ∧ k.TableOk ∧
      k.inIProcess = false ∧ k.Created k.currentPcb ∧ ¬IProcess k.currentPcb ∧ k.currentPcb ≠ nullPid ∧
      ¬∃ k' L', (swiTrapHandler ((Call.setProcessPriority crtPid.val Priority.medium).enter k)).kernel? = some k' ∧
        WellScheduled k' L' := by
  obtain ⟨k, hboot, h⟩ := boot_spec rtosMap
  have hws := h.started.wellScheduled
  have hc := h.started.created_current
  have hip : ¬IProcess k.currentPcb := by rw [h.started.current]; decide
  have hnull : k.currentPcb ≠ nullPid := by rw [h.started.current]; decide
  refine ⟨k, bootContents, hboot, hws, h.wellFormed, h.tableOk, h.started.inIProcess, hc, hip, hnull, fun hk => ?_⟩
  have hkeeps := (call_keeps_iff hws h.wellFormed h.tableOk h.started.inIProcess hc hip hnull _).mp hk
  have hcrt : k.pcbs crtPid = ⟨crtPid.val, .ready, Priority.high, some crtPid⟩ :=
    h.started.pcb (crtPid, Priority.high) (by decide)
  have hget : getPcb k crtPid.val = some crtPid := h.getPcb (x := (crtPid, Priority.high)) (by decide)
  rcases hkeeps with h₀ | h₄ | hmove
  · exact absurd h₀ (by decide)
  · exact absurd h₄ (by decide)
  · have hmove := hmove crtPid hget
    rw [if_neg (by rw [h.started.current]; decide), hcrt] at hmove
    have hlast := (hmove.2 0 [setPrioPid] [] (by decide)).2
    exact absurd hlast (by decide)

end
end DoorRtos
