import DoorRtos.Theorems.Boot
import DoorRtos.Theorems.Delayed
import DoorRtos.Theorems.Scheduling

/-! Well-scheduled states, and what every system call makes of them. -/

namespace DoorRtos
open Linked

/-- A process is in exactly one place: it runs, or it waits in one of three ways. -/
inductive Placed (k : Kernel) (L : Slot → List PcbRef) (p : PcbRef) : Prop
  | running (hcur : k.currentPcb = p) (hun : Unlinked L p) (hmem : (k.pcbs p).state ≠ .memoryWait)
      (hmess : (k.pcbs p).state ≠ .messageWait)
  | ready (hcur : k.currentPcb ≠ p) (hin : InQueue L .ready p) (hst : (k.pcbs p).state = .ready)
  | memoryWait (hcur : k.currentPcb ≠ p) (hin : InQueue L .memoryWait p) (hst : (k.pcbs p).state = .memoryWait)
  | messageWait (hcur : k.currentPcb ≠ p) (hun : Unlinked L p) (hst : (k.pcbs p).state = .messageWait)

/-- The two queues hold the PCBs of `L`, each PCB in the subqueue of its priority; every process but the
    interrupt processes is in exactly one place; the null process runs or is ready; and no ready process has a
    smaller priority number than the running one. -/
structure WellScheduled (k : Kernel) (L : Slot → List PcbRef) : Prop where
  rep : Rep k L
  own : Own k L
  placed : ∀ p, k.Created p → ¬IProcess p → Placed k L p
  null : k.currentPcb = nullPid ∨ InQueue L .ready nullPid
  first : Preemptive k L

section
variable {k k' k₀ : Kernel} {L L' : Slot → List PcbRef} {p q : PcbRef}

theorem WellScheduled.settled (h : WellScheduled k L) : Settled k L {k.currentPcb} where
  rep := h.rep
  own := h.own
  waits p hc hi hp := by
    unfold Waits
    cases h.placed p hc hi with
    | running hcur => exact absurd hcur.symm hp
    | ready _ hin hst =>
      rw [hst]
      exact hin
    | memoryWait _ hin hst =>
      rw [hst]
      exact hin
    | messageWait _ hun hst =>
      rw [hst]
      exact hun
  null := h.null.imp Eq.symm id

/-- The running process is linked nowhere and waits for nothing. -/
theorem WellScheduled.current (h : WellScheduled k L) (hc : k.Created k.currentPcb) (hi : ¬IProcess k.currentPcb) :
    Unlinked L k.currentPcb ∧ k.current.state ≠ .memoryWait ∧ k.current.state ≠ .messageWait := by
  cases h.placed _ hc hi with
  | running _ hun hmem hmess => exact ⟨hun, hmem, hmess⟩
  | ready hcur => exact absurd rfl hcur
  | memoryWait hcur => exact absurd rfl hcur
  | messageWait hcur => exact absurd rfl hcur

theorem Settled.wellScheduled (h : Settled k L {k.currentPcb}) (hun : Unlinked L k.currentPcb)
    (hmem : k.current.state ≠ .memoryWait) (hmess : k.current.state ≠ .messageWait) (hfirst : Preemptive k L) :
    WellScheduled k L where
  rep := h.rep
  own := h.own
  placed p hc hi := by
    by_cases hcur : k.currentPcb = p
    · subst hcur
      exact .running rfl hun hmem hmess
    · have hw := h.waits p hc hi fun e => hcur e.symm
      unfold Waits at hw
      cases hst : (k.pcbs p).state <;> rw [hst] at hw
      · exact .ready hcur hw hst
      · exact .messageWait hcur hw hst
      · exact .memoryWait hcur hw hst
      · exact hw.elim
  null := h.null.imp Eq.symm id
  first := hfirst

theorem WellScheduled.congr (h : WellScheduled k L) (hpcbs : k'.pcbs = k.pcbs) (hnext : k'.pcbNext = k.pcbNext)
    (hq : k'.queue = k.queue) (hcur : k'.currentPcb = k.currentPcb) : WellScheduled k' L where
  rep := h.rep.congr hnext hq
  own := h.own.congr fun p => by rw [hpcbs]
  placed p hc hi := by
    have hc' : k.Created p := by unfold Kernel.Created at hc ⊢; rwa [hpcbs] at hc
    cases h.placed p hc' hi with
    | running hp hun hmem hmess => exact .running (hcur.trans hp) hun (by rwa [hpcbs]) (by rwa [hpcbs])
    | ready hp hin hst => exact .ready (fun e => hp (hcur ▸ e)) hin (by rwa [hpcbs])
    | memoryWait hp hin hst => exact .memoryWait (fun e => hp (hcur ▸ e)) hin (by rwa [hpcbs])
    | messageWait hp hun hst => exact .messageWait (fun e => hp (hcur ▸ e)) hun (by rwa [hpcbs])
  null := by rw [hcur]; exact h.null
  first p hp := by
    unfold Kernel.current
    rw [hpcbs, hcur]
    exact h.first p hp

/-- The null process is ready while another process runs, so the running process has a priority with a
    subqueue. -/
theorem WellScheduled.priority_le (h : WellScheduled k L) (hnull : k.currentPcb ≠ nullPid) :
    k.current.priority ≤ numPrio := by
  have hin := h.null.resolve_left hnull
  exact Nat.le_trans (h.first _ hin) (h.own.priority_le hin)

/-! ### Switching to the next process -/

/-- A process taken from the ready queue runs when the rest waits. -/
theorem Settled.run (h : Settled k L {p}) (hun : Unlinked L p) (hst : (k.pcbs p).state = .running)
    (hfirst : ∀ q, InQueue L .ready q → (k.pcbs p).priority ≤ (k.pcbs q).priority) (hnext : k'.pcbNext = k.pcbNext)
    (hpcbs : k'.pcbs = k.pcbs) (hq : k'.queue = k.queue) (hcur : k'.currentPcb = p) : WellScheduled k' L := by
  subst hcur
  have hst' : (k'.pcbs k'.currentPcb).state = .running := by rwa [hpcbs]
  refine (h.congr hpcbs hnext hq).wellScheduled hun ?_ ?_ fun q hq => ?_
  · exact fun e => ProcState.noConfusion (e.symm.trans hst')
  · exact fun e => ProcState.noConfusion (e.symm.trans hst')
  · unfold Kernel.current
    rw [hpcbs]
    exact hfirst q hq

/-- `process_switch` runs a process of least priority value among the running one and the ready ones. -/
theorem processSwitch_wellScheduled (h : Settled k L {k.currentPcb}) (hun : Unlinked L k.currentPcb)
    (hmem : k.current.state ≠ .memoryWait) (hmess : k.current.state ≠ .messageWait)
    (hprio : k.current.priority ≤ numPrio) :
    ∃ k' L', (processSwitch k).kernel? = some k' ∧ WellScheduled k' L' := by
  by_cases hle : k.readyQueue.highestPrio ≤ k.current.priority
  · obtain ⟨q, hq⟩ := h.rep.exists_of_highestPrio (w := .ready) (Nat.lt_succ_of_le (Nat.le_trans hle hprio))
    obtain ⟨p, next, c, L₁, htake, h₁, htaken, hhigh, hfirst⟩ := h.take hq
    have hpc : k.currentPcb ≠ p := fun e => unlinked_iff.mp hun _ (e ▸ htaken.mem)
    -- The next process is in hand, and the running one goes back into the queue.
    have h₂ := (h₁.setState (p := p) .running (Or.inl rfl)).setState (p := k.currentPcb) .ready
      (Or.inr rfl)
    have hcur : Unlinked L₁ k.currentPcb := fun s hs => hun s (htaken.sub s _ hs)
    have hprio' : ((((k.setQueue .ready next c).setState p .running).setState k.currentPcb .ready).pcbs
        k.currentPcb).priority ≤ numPrio := by
      rw [Kernel.setState_priority, Kernel.setState_priority, Kernel.setQueue_pcbs]
      exact hprio
    obtain ⟨next', c', i, hput, h₃⟩ := h₂.put (w := .ready) hcur hprio' (fun _ _ => by simp [QueueId.state])
      (fun e => QueueId.noConfusion e)
    refine ⟨_, insertAt L₁ .ready i k.currentPcb, congrArg Outcome.kernel?
      (processSwitch_eq hle htake (Kernel.setQueue_currentPcb ..) hput), ?_⟩
    refine (show Settled _ _ {p} from h₃.mono fun x hx => ?_).run (fun s hs => ?_) ?_ (fun x hx => ?_) rfl rfl rfl rfl
    · exact hx.1.resolve_right hx.2
    · rcases inQueue_insertAt.mp ⟨s.2, hs⟩ with hin | ⟨-, he⟩
      · exact unlinked_iff.mp htaken.unlinked _ hin
      · exact hpc he.symm
    · simp [hpc.symm]
    · simp only [Kernel.setQueue_pcbs, Kernel.setState_priority]
      rcases inQueue_insertAt.mp hx with hin | ⟨-, rfl⟩
      · exact hfirst x ((htaken.others _ _).mp hin).1
      · exact hhigh ▸ hle
  · exact ⟨k, L, by rw [processSwitch_stay (Nat.lt_of_not_le hle)]; rfl, h.wellScheduled hun hmem hmess fun q hq =>
      Nat.le_trans (Nat.le_of_not_le hle) (h.rep.highestPrio_le h.own hq)⟩

/-- When every process waits, the next one of the ready queue runs. -/
theorem Settled.runNext (h : Settled k L ∅) :
    ∃ k' L', (∀ α, (runNext k : Outcome α) = .switched k') ∧ WellScheduled k' L' := by
  obtain ⟨p, next, c, L', htake, h₁, htaken, -, hfirst⟩ := h.take (h.null.resolve_left id)
  refine ⟨_, L', fun α => by unfold DoorRtos.runNext; rw [htake]; rfl, ?_⟩
  have h₂ := h₁.setState (p := p) .running (Or.inl rfl)
  refine (show Settled _ _ {p} from h₂.mono fun x hx => ?_).run htaken.unlinked (by simp) (fun x hx => ?_) rfl rfl rfl rfl
  · exact hx.resolve_right id
  · simp only [Kernel.setState_priority, Kernel.setQueue_pcbs]
    exact hfirst x ((htaken.others _ _).mp hx).1

/-! ### The primitives that block -/

/-- A primitive ends, and in a well-scheduled state. -/
def Keeps {α : Type} (o : Outcome (α × Kernel)) : Prop := ∃ k' L', o.last = some k' ∧ WellScheduled k' L'

/-- Mailboxes, delayed messages and free blocks are lists that end in `NULL`, and every process has a mailbox. -/
structure WellFormed (k : Kernel) : Prop where
  mailbox : ∀ p, k.Created p → ∃ q, (k.pcbs p).messQueue = some q
  messages : ∀ p q, (k.pcbs p).messQueue = some q → ∃ l, Queue.Holds k.messNext (k.mQueues q) l
  delayed : ∃ l, IsList k.messNext k.delayedSendQueue.head l
  free : ∃ l, Queue.Holds k.blockNext k.freeMemQ l

theorem Keeps.returned {α : Type} {a : α} (h : WellScheduled k L) : Keeps (.returned (a, k)) := ⟨k, L, rfl, h⟩

theorem Keeps.bind {α : Type} {o : Outcome Kernel} {a : α}
    (h : ∃ k' L', o.kernel? = some k' ∧ WellScheduled k' L') : Keeps (o >>= fun k => .returned (a, k)) := by
  unfold Keeps
  rw [Outcome.last_bind]
  exact h

theorem receiveMessage_keeps (h : WellScheduled k L) (hw : WellFormed k) (hi : k.inIProcess = false)
    (hc : k.Created k.currentPcb) (hip : ¬IProcess k.currentPcb) (hnull : k.currentPcb ≠ nullPid) :
    Keeps (kernelReceiveMessage k) := by
  obtain ⟨mq, hmq⟩ := hw.mailbox _ hc
  obtain ⟨l, hl⟩ := hw.messages _ _ hmq
  by_cases hempty : isMsgqEmpty (k.mQueues mq) = true
  · rw [kernelReceiveMessage_block hmq hempty hi]
    have hflag : Settled { k with msgReturn := false } L _ := h.settled.congr rfl rfl rfl
    have hset := hflag.setState (p := k.currentPcb) .messageWait rfl
    have hpark := hset.park (p := k.currentPcb) (h.current hc hip).1 (by simp) hnull
    obtain ⟨k', L', hrun, hws⟩ := (show Settled _ _ ∅ from hpark.mono fun x hx => hx.2 hx.1).runNext
    exact ⟨k', L', by rw [hrun]; rfl, hws⟩
  · obtain ⟨e, next, q, hs⟩ : ∃ e next q, dequeueMessageFIFO k.messNext (k.mQueues mq) = some (e, next, q) := by
      rcases List.eq_nil_or_concat l with rfl | ⟨l, x, rfl⟩
      · exact absurd (hl.isEmpty_iff.mpr rfl) hempty
      · rw [List.concat_eq_append] at hl
        obtain ⟨next, q, hs, -⟩ := hl.shift (Addr.length_le hl.nodup)
        exact ⟨_, next, q, hs⟩
    rw [kernelReceiveMessage_take hmq (Bool.eq_false_iff.mpr hempty) hs]
    exact .returned (h.congr rfl rfl rfl rfl)

theorem requestMemoryBlock_keeps (h : WellScheduled k L) (hw : WellFormed k) (hi : k.inIProcess = false)
    (hc : k.Created k.currentPcb) (hip : ¬IProcess k.currentPcb) (hnull : k.currentPcb ≠ nullPid) :
    Keeps (kernelRequestMemoryBlock k) := by
  obtain ⟨l, hl⟩ := hw.free
  rcases List.eq_nil_or_concat l with rfl | ⟨l, b, rfl⟩
  · have hset := h.settled.setState (p := k.currentPcb) .memoryWait rfl
    obtain ⟨next, c, i, hput, hall⟩ := hset.put (w := .memoryWait) (p := k.currentPcb) (h.current hc hip).1
      (by rw [Kernel.setState_priority]; exact h.priority_le hnull) (fun _ _ => by simp [QueueId.state]) fun _ => hnull
    rw [kernelRequestMemoryBlock_block hl.shift_nil hi hput]
    obtain ⟨k', L', hrun, hws⟩ := (show Settled _ _ ∅ from hall.mono fun x hx => hx.2 hx.1).runNext
    exact ⟨k', L', by rw [hrun]; rfl, hws⟩
  · rw [List.concat_eq_append] at hl
    obtain ⟨next, q, hs, -⟩ := hl.shift (Addr.length_le hl.nodup)
    rw [kernelRequestMemoryBlock_take hs]
    exact .returned (h.congr rfl rfl rfl rfl)

/-! ### The primitives that wake a process -/

/-- The kernel `k₂` is `k` with `p` made ready: the running process is the same, and no priority changes. -/
structure Woken (k : Kernel) (L : Slot → List PcbRef) (p : PcbRef) (k₂ : Kernel) (L₂ : Slot → List PcbRef) : Prop where
  settled : Settled k₂ L₂ {k₂.currentPcb}
  current : k₂.currentPcb = k.currentPcb
  state : ∀ x, (k₂.pcbs x).state = if x = p then .ready else (k.pcbs x).state
  priority : ∀ x, (k₂.pcbs x).priority = (k.pcbs x).priority
  pid : ∀ x, (k₂.pcbs x).pid = (k.pcbs x).pid
  inIProcess : k₂.inIProcess = k.inIProcess
  queues : ∀ w x, InQueue L₂ w x ↔ InQueue L w x ∨ w = .ready ∧ x = p

theorem Settled.wake (h : Settled k L {p, k.currentPcb}) (hun : Unlinked L p) (hprio : (k.pcbs p).priority ≤ numPrio) :
    ∃ k₂ L₂, enqueuePCBByPriority .ready p (k.setState p .ready) = some k₂ ∧ Woken k L p k₂ L₂ := by
  obtain ⟨next, c, i, hput, h₂⟩ := (h.setState (p := p) .ready (Or.inl rfl)).put (w := .ready) hun
    (by rw [Kernel.setState_priority]; exact hprio) (fun _ _ => by simp [QueueId.state]) (fun e => QueueId.noConfusion e)
  refine ⟨_, _, hput, h₂.mono fun x hx => ?_, by simp, fun x => by simp, fun x => by simp, fun x => by simp, by simp,
    fun w x => inQueue_insertAt⟩
  rw [Kernel.setQueue_currentPcb, Kernel.setState_currentPcb]
  exact hx.1.resolve_left hx.2

section
variable {k₂ : Kernel} {L₂ : Slot → List PcbRef}

theorem Woken.unlinked (h : Woken k L p k₂ L₂) (hun : Unlinked L k.currentPcb) (hp : k.currentPcb ≠ p) :
    Unlinked L₂ k₂.currentPcb := by
  rw [h.current]
  refine unlinked_iff.mpr fun w hw => ?_
  rcases (h.queues w _).mp hw with hin | ⟨-, he⟩
  · exact unlinked_iff.mp hun w hin
  · exact hp he

theorem Woken.current_state (h : Woken k L p k₂ L₂) (hp : k.currentPcb ≠ p) : k₂.current.state = k.current.state := by
  unfold Kernel.current
  rw [h.state, h.current, if_neg hp]

theorem Woken.current_priority (h : Woken k L p k₂ L₂) : k₂.current.priority = k.current.priority := by
  unfold Kernel.current
  rw [h.priority, h.current]

/-- The running process goes on when the woken one has no smaller priority number. -/
theorem Woken.preemptive (h : Woken k L p k₂ L₂) (hfirst : Preemptive k L)
    (hle : k.current.priority ≤ (k.pcbs p).priority) : Preemptive k₂ L₂ := by
  intro x hx
  rw [h.current_priority, h.priority]
  rcases (h.queues _ _).mp hx with hin | ⟨-, rfl⟩
  · exact hfirst x hin
  · exact hle

end

theorem releaseMemoryBlock_keeps (h : WellScheduled k L) (hc : k.Created k.currentPcb) (hip : ¬IProcess k.currentPcb)
    (hnull : k.currentPcb ≠ nullPid) (b : Addr) : Keeps (kernelReleaseMemoryBlock b k) := by
  obtain ⟨hun, hmem, hmess⟩ := h.current hc hip
  have hfreed : WellScheduled (k.freed b) L := h.congr rfl rfl rfl rfl
  by_cases hidle : isMETAPCBQueueEmpty .memoryWait (k.freed b) = true
  · rw [kernelReleaseMemoryBlock_idle hidle]
    exact .returned hfreed
  · have hne : ∃ q, InQueue L .memoryWait q := by
      by_contra hno
      exact hidle ((isMETAPCBQueueEmpty_iff hfreed.rep).mpr fun i =>
        List.eq_nil_iff_forall_not_mem.mpr fun q hq => hno ⟨q, i, hq⟩)
    obtain ⟨q, hq⟩ := hne
    obtain ⟨p, next, c, L₁, htake, h₁, htaken, -, -⟩ := hfreed.settled.take hq
    have hpc : k.currentPcb ≠ p := fun e => unlinked_iff.mp hun _ (e ▸ htaken.mem)
    have hprio : (k.pcbs p).priority ≤ numPrio := h.own.priority_le htaken.mem
    obtain ⟨k₂, L₂, hput, hwoken⟩ := Settled.wake (k := (k.freed b).setQueue .memoryWait next c) (p := p)
      (by rw [Kernel.setQueue_currentPcb]; exact h₁) htaken.unlinked (by rw [Kernel.setQueue_pcbs]; exact hprio)
    have hcur : ((k.freed b).setQueue .memoryWait next c).currentPcb = k.currentPcb := Kernel.setQueue_currentPcb ..
    have hcur' : ((k.freed b).setQueue .memoryWait next c).current = k.current := Kernel.setQueue_current ..
    have hun' : Unlinked L₂ k₂.currentPcb := hwoken.unlinked (by rw [hcur]; exact fun s hs => hun s (htaken.sub s _ hs))
      (hcur ▸ hpc)
    have hst := hwoken.current_state (hcur ▸ hpc)
    rw [hcur'] at hst
    rw [kernelReleaseMemoryBlock_wake (Bool.eq_false_iff.mpr hidle) htake hput]
    split
    next hlt =>
      refine .bind (processSwitch_wellScheduled hwoken.settled hun' (hst ▸ hmem) (hst ▸ hmess) ?_)
      rw [hwoken.current_priority, hcur']
      exact h.priority_le hnull
    next hge =>
      refine .returned (hwoken.settled.wellScheduled hun' (hst ▸ hmem) (hst ▸ hmess)
        (hwoken.preemptive (fun x hx => ?_) ?_))
      · rw [hcur', Kernel.setQueue_pcbs]
        exact h.first x ((htaken.others _ _).mp hx).1
      · rw [hwoken.priority, hwoken.current_priority] at hge
        exact Nat.le_of_not_lt hge

theorem sendMessage_keeps (h : WellScheduled k L) (ht : k.TableOk) (hc : k.Created k.currentPcb)
    (hip : ¬IProcess k.currentPcb) (hnull : k.currentPcb ≠ nullPid) {pid : Nat} (e : Addr)
    (hk : ∀ d, getPcb k pid = some d → (∃ q, (k.pcbs d).messQueue = some q) ∧
      ((k.pcbs d).state = .messageWait → (k.pcbs d).priority = k.current.priority ∧ Unlinked L d)) :
    Keeps (kernelSendMessage pid e k) := by
  obtain ⟨hun, hmem, hmess⟩ := h.current hc hip
  cases hd : getPcb k pid with
  | none =>
    rw [kernelSendMessage_unknown hd]
    exact .returned (h.congr rfl rfl rfl rfl)
  | some d =>
    obtain ⟨⟨mq, hmq⟩, hwait⟩ := hk d hd
    by_cases hst : (k.pcbs d).state = .messageWait
    · obtain ⟨hprio, hund⟩ := hwait hst
      have hpc : k.currentPcb ≠ d := fun he => hmess (by rw [← he] at hst; exact hst)
      have hset : Settled (k.delivered pid e mq) L {d, k.currentPcb} :=
        (show Settled (k.delivered pid e mq) L _ from h.settled.congr rfl rfl rfl).mono (Set.subset_insert d _)
      obtain ⟨k₁, L₁, hput, hwoken⟩ := hset.wake hund (hprio ▸ h.priority_le hnull)
      have hsrc : getPcb k₁ k.current.pid = some k.currentPcb := by
        rw [getPcb_congr (k := k) fun x => hwoken.pid x]
        exact getPcb_of_created ht hc
      have hnot : ¬((k₁.pcbs d).priority > (k₁.pcbs k.currentPcb).priority ∧ ¬k₁.inIProcess = true) := fun hand => by
        have hgt := hand.1
        rw [hwoken.priority, hwoken.priority] at hgt
        exact absurd hgt (Nat.not_lt_of_le (Nat.le_of_eq hprio))
      have hst' := hwoken.current_state hpc
      rw [kernelSendMessage_woken hd hmq hst hput hsrc, if_neg hnot]
      exact .returned (hwoken.settled.wellScheduled (hwoken.unlinked hun hpc) (hst' ▸ hmem) (hst' ▸ hmess)
        (hwoken.preemptive h.first (Nat.le_of_eq hprio.symm)))
    · rw [kernelSendMessage_deliver hd hmq hst]
      exact .returned (h.congr rfl rfl rfl rfl)

/-! ### Delayed messages -/

theorem delayedSend_keeps (h : WellScheduled k L) (hw : WellFormed k) {pid : Nat} (e : Addr) (delay : Int)
    (hk : delay = 0 → Keeps (kernelSendMessage pid e (k.marked pid e))) : Keeps (kernelDelayedSend pid e delay k) := by
  have hmarked : WellScheduled (k.marked pid e) L := h.congr rfl rfl rfl rfl
  rcases Int.lt_trichotomy delay 0 with hlt | rfl | hgt
  · rw [kernelDelayedSend_negative hlt]
    exact .returned hmarked
  · rw [kernelDelayedSend_zero]
    exact hk rfl
  · obtain ⟨l, hl⟩ := hw.delayed
    obtain ⟨a, b, -, -, -, hs⟩ :=
      seekDelay_eq (k := k.marked pid e) (d := delay.toNat) (p := none) hl (Addr.length_lt hl.nodup)
    rw [kernelDelayedSend_later hgt hs]
    obtain ⟨hpcbs, hnext, hq, hcur, -⟩ := linkDelayed_frame e _ b.head? (a.getLast?.or none) (k.marked pid e)
    exact .returned (hmarked.congr hpcbs hnext hq hcur)

/-! ### Priorities -/

/-- When moving `p` to priority `n` leaves queue `w` whole: `p` is not linked in it, or `n` has a subqueue and `p`
    is not the last of several PCBs. -/
def MoveKeeps (k : Kernel) (L : Slot → List PcbRef) (w : QueueId) (p : PcbRef) (n : Nat) : Prop :=
  (k.pcbs p).priority ≤ numPrio ∧ ∀ i a b, L (w, i) = a ++ p :: b → n ≤ numPrio ∧ (a = [] ∨ b ≠ [])

theorem removeElementByPriority_eq (hprio : (k.pcbs p).priority ≤ numPrio) (w : QueueId) :
    removeElementByPriority p w k = removeElement w ⟨(k.pcbs p).priority, Nat.lt_succ_of_le hprio⟩ p k :=
  dif_pos (Nat.lt_succ_of_le hprio)

/-- The kernel `k₂` is `k` with the linked PCB `p` moved to the subqueue of priority `n` of its queue. -/
structure Moved (k : Kernel) (L : Slot → List PcbRef) (p : PcbRef) (n : Nat) (k₂ : Kernel) (L₂ : Slot → List PcbRef) :
    Prop where
  settled : Settled k₂ L₂ {k₂.currentPcb}
  current : k₂.currentPcb = k.currentPcb
  state : ∀ x, (k₂.pcbs x).state = (k.pcbs x).state
  priority : ∀ x, (k₂.pcbs x).priority = if x = p then n else (k.pcbs x).priority
  queues : ∀ w x, InQueue L₂ w x ↔ InQueue L w x

/-- The state of a process is that of the queue it is linked in. -/
theorem Settled.state_eq {w : QueueId} {out : Set PcbRef} (h : Settled k L out) (hin : InQueue L w p) (hp : p ∉ out)
    (hc : k.Created p) (hi : ¬IProcess p) : (k.pcbs p).state = w.state := by
  have hw := h.waits p hc hi hp
  unfold Waits at hw
  cases hst : (k.pcbs p).state <;> rw [hst] at hw
  · rw [h.rep.queue_unique hin hw]
    rfl
  · exact absurd hin (unlinked_iff.mp hw w)
  · rw [h.rep.queue_unique hin hw]
    rfl
  · exact hw.elim

theorem WellScheduled.move {w : QueueId} {n : Nat} {i : Level} {a b : List PcbRef} (h : WellScheduled k L)
    (hnull : k.currentPcb ≠ nullPid) (hp : p ≠ k.currentPcb) (hl : L (w, i) = a ++ p :: b) (hab : a = [] ∨ b ≠ [])
    (hn : n ≤ numPrio) :
    ∃ k₁ k₂ L₂, removeElement w i p k = some (rtxSuccess, k₁) ∧
      enqueuePCBByPriority w p (k₁.setPriority p n) = some k₂ ∧ Moved k L p n k₂ L₂ := by
  obtain ⟨next, c, L₁, hremove, h₁, htaken⟩ := h.settled.remove hl hab
  have hst : k.Created p → ¬IProcess p → (k.pcbs p).state = w.state := h.settled.state_eq htaken.mem hp
  have hpnull : w = .memoryWait → p ≠ nullPid := by
    rintro rfl rfl
    exact QueueId.noConfusion (h.rep.queue_unique htaken.mem (h.null.resolve_left hnull))
  have h₂ := h₁.setPriority (n := n) htaken.unlinked
  obtain ⟨next', c', j, hput, h₃⟩ := h₂.put (w := w) htaken.unlinked (by simpa using hn)
    (by simpa [Kernel.Created] using hst) hpnull
  refine ⟨_, _, _, hremove, hput, h₃.mono fun x hx => ?_, by simp, fun x => by simp, fun x => by simp, fun w' x => ?_⟩
  · rw [Kernel.setQueue_currentPcb, Kernel.setPriority_currentPcb, Kernel.setQueue_currentPcb]
    exact hx.1.resolve_left hx.2
  · rw [inQueue_insertAt, htaken.others]
    constructor
    · rintro (hand | ⟨rfl, rfl⟩)
      · exact hand.1
      · exact htaken.mem
    · intro hin
      by_cases hxp : x = p
      · subst hxp
        exact Or.inr ⟨h.rep.queue_unique hin htaken.mem, rfl⟩
      · exact Or.inl ⟨hin, hxp⟩

section
variable {k₂ : Kernel} {L₂ : Slot → List PcbRef} {n : Nat}

theorem Moved.unlinked (h : Moved k L p n k₂ L₂) (hun : Unlinked L k.currentPcb) : Unlinked L₂ k₂.currentPcb := by
  rw [h.current]
  exact unlinked_iff.mpr fun w hw => unlinked_iff.mp hun w ((h.queues w _).mp hw)

theorem Moved.current_state (h : Moved k L p n k₂ L₂) : k₂.current.state = k.current.state := by
  unfold Kernel.current
  rw [h.state, h.current]

theorem Moved.current_priority (h : Moved k L p n k₂ L₂) (hp : p ≠ k.currentPcb) :
    k₂.current.priority = k.current.priority := by
  unfold Kernel.current
  rw [h.priority, h.current, if_neg hp.symm]

end

/-- When a call that sets the priority of process `pid` to `n` leaves a well-scheduled state. -/
def SetPrioKeeps (k : Kernel) (L : Slot → List PcbRef) (pid n : Nat) : Prop :=
  pid = 0 ∨ n = 4 ∨ ∀ p, getPcb k pid = some p →
    if p = k.currentPcb then n ≤ numPrio
    else match (k.pcbs p).state with
      | .memoryWait => MoveKeeps k L .memoryWait p n
      | .messageWait => Unlinked L p ∨ n = (k.pcbs p).priority
      | _ => MoveKeeps k L .ready p n

theorem setProcessPriority_self_keeps (h : WellScheduled k L) (hc : k.Created k.currentPcb)
    (hip : ¬IProcess k.currentPcb) {n : Nat} (hn : n ≤ numPrio) :
    Keeps (if n ≤ k.current.priority then .returned (rtxSuccess, k.setPriority k.currentPcb n)
      else processSwitch (k.setPriority k.currentPcb n) >>= fun k => .returned (rtxSuccess, k)) := by
  obtain ⟨hun, hmem, hmess⟩ := h.current hc hip
  have hset := h.settled.setPriority (n := n) hun
  have hst : (k.setPriority k.currentPcb n).current.state = k.current.state := Kernel.setPriority_state ..
  have hprio : (k.setPriority k.currentPcb n).current.priority = n := by simp [Kernel.current]
  split
  next hle =>
    refine .returned (hset.wellScheduled hun (hst ▸ hmem) (hst ▸ hmess) fun x hx => ?_)
    have hxc : x ≠ k.currentPcb := fun e => unlinked_iff.mp hun _ (e ▸ hx)
    rw [hprio, Kernel.setPriority_priority, if_neg hxc]
    exact Nat.le_trans hle (h.first x hx)
  next => exact .bind (processSwitch_wellScheduled hset hun (hst ▸ hmem) (hst ▸ hmess) (by rw [hprio]; exact hn))

/-- `remove_element_by_priority` finds nothing, or `p` moves to its new subqueue. -/
theorem WellScheduled.remove_or_move {w : QueueId} {n : Nat} (h : WellScheduled k L) (hnull : k.currentPcb ≠ nullPid)
    (hp : p ≠ k.currentPcb) (hk : MoveKeeps k L w p n) :
    removeElementByPriority p w k = some (rtxError, k) ∨
      ∃ k₁ k₂ L₂, removeElementByPriority p w k = some (rtxSuccess, k₁) ∧
        enqueuePCBByPriority w p (k₁.setPriority p n) = some k₂ ∧ InQueue L w p ∧ Moved k L p n k₂ L₂ := by
  obtain ⟨hprio, hlinked⟩ := hk
  rw [removeElementByPriority_eq hprio]
  by_cases hin : p ∈ L (w, ⟨(k.pcbs p).priority, Nat.lt_succ_of_le hprio⟩)
  · obtain ⟨a, b, hl⟩ := List.append_of_mem hin
    obtain ⟨hn, hab⟩ := hlinked _ a b hl
    obtain ⟨k₁, k₂, L₂, hremove, hput, hmoved⟩ := h.move hnull hp hl hab hn
    exact Or.inr ⟨k₁, k₂, L₂, hremove, hput, ⟨_, hin⟩, hmoved⟩
  · exact Or.inl (removeElement_of_not_mem h.rep hin)

/-- The call for a PCB that is neither running nor waiting: the running process goes on, or gives way to `p`. -/
theorem setProcessPriority_ready_keeps (h : WellScheduled k L) (hc : k.Created k.currentPcb)
    (hip : ¬IProcess k.currentPcb) (hnull : k.currentPcb ≠ nullPid) {pid n : Nat} (h₀ : ¬(pid = 0 ∨ n = 4))
    (hget : getPcb k pid = some p) (hp : p ≠ k.currentPcb) (hpm : (k.pcbs p).state ≠ .memoryWait)
    (hpq : (k.pcbs p).state ≠ .messageWait) (hk : MoveKeeps k L .ready p n) :
    Keeps (kernelSetProcessPriority pid n k) := by
  obtain ⟨hun, hmem, hmess⟩ := h.current hc hip
  rw [kernelSetProcessPriority_ready h₀ hget hp hpm hpq]
  rcases h.remove_or_move hnull hp hk with hremove | ⟨k₁, k₂, L₂, hremove, hput, hin, hmoved⟩
  · rw [movePCB_missing hremove]
    exact .returned h
  · rw [movePCB_moved hremove hput]
    have hst := hmoved.current_state
    have hprio := hmoved.current_priority hp
    split
    next =>
      exact .bind (processSwitch_wellScheduled hmoved.settled (hmoved.unlinked hun) (hst ▸ hmem) (hst ▸ hmess)
        (hprio ▸ h.priority_le hnull))
    next hge =>
      refine .returned (hmoved.settled.wellScheduled (hmoved.unlinked hun) (hst ▸ hmem) (hst ▸ hmess) fun x hx => ?_)
      rw [hmoved.priority]
      by_cases hxp : x = p
      · rw [if_pos hxp]
        exact Nat.le_of_not_lt hge
      · rw [if_neg hxp, hprio]
        exact h.first x ((hmoved.queues _ _).mp hx)

/-- The call for a PCB that waits for memory: it moves within the memory-wait queue and the running process goes on. -/
theorem setProcessPriority_memoryWait_keeps (h : WellScheduled k L) (hc : k.Created k.currentPcb)
    (hip : ¬IProcess k.currentPcb) (hnull : k.currentPcb ≠ nullPid) {pid n : Nat} (h₀ : ¬(pid = 0 ∨ n = 4))
    (hget : getPcb k pid = some p) (hp : p ≠ k.currentPcb) (hst : (k.pcbs p).state = .memoryWait)
    (hk : MoveKeeps k L .memoryWait p n) : Keeps (kernelSetProcessPriority pid n k) := by
  obtain ⟨hun, hmem, hmess⟩ := h.current hc hip
  rw [kernelSetProcessPriority_memoryWait h₀ hget hp hst]
  rcases h.remove_or_move hnull hp hk with hremove | ⟨k₁, k₂, L₂, hremove, hput, hin, hmoved⟩
  · rw [movePCB_missing hremove]
    exact .returned h
  · rw [movePCB_moved hremove hput]
    have hcur := hmoved.current_state
    refine .returned (hmoved.settled.wellScheduled (hmoved.unlinked hun) (hcur ▸ hmem) (hcur ▸ hmess) fun x hx => ?_)
    have hx := (hmoved.queues _ _).mp hx
    have hxp : x ≠ p := fun e => QueueId.noConfusion (h.rep.queue_unique (e ▸ hx) hin)
    rw [hmoved.current_priority hp, hmoved.priority, if_neg hxp]
    exact h.first x hx

/-- The call for a PCB that waits for a message, which no queue holds, or which keeps its priority. -/
theorem setProcessPriority_messageWait_keeps (h : WellScheduled k L) (hc : k.Created k.currentPcb)
    (hip : ¬IProcess k.currentPcb) {pid n : Nat} (h₀ : ¬(pid = 0 ∨ n = 4)) (hget : getPcb k pid = some p)
    (hp : p ≠ k.currentPcb) (hst : (k.pcbs p).state = .messageWait) (hk : Unlinked L p ∨ n = (k.pcbs p).priority) :
    Keeps (kernelSetProcessPriority pid n k) := by
  obtain ⟨hun, hmem, hmess⟩ := h.current hc hip
  rw [kernelSetProcessPriority_messageWait h₀ hget hp hst]
  rcases hk with hunp | rfl
  · refine .returned ((h.settled.setPriority hunp).wellScheduled hun ?_ ?_ fun x hx => ?_)
    · exact fun he => hmem ((Kernel.setPriority_state ..).symm.trans he)
    · exact fun he => hmess ((Kernel.setPriority_state ..).symm.trans he)
    · have hxp : x ≠ p := fun e => unlinked_iff.mp hunp _ (e ▸ hx)
      have hcp : k.currentPcb ≠ p := fun e => hp e.symm
      simp only [Kernel.current, Kernel.setPriority_priority, Kernel.setPriority_currentPcb, if_neg hxp, if_neg hcp]
      exact h.first x hx
  · refine .returned (h.congr ?_ rfl rfl rfl)
    unfold Kernel.setPriority
    exact Function.update_eq_self p k.pcbs

theorem setProcessPriority_keeps (h : WellScheduled k L) (hc : k.Created k.currentPcb) (hip : ¬IProcess k.currentPcb)
    (hnull : k.currentPcb ≠ nullPid) {pid n : Nat} (hk : SetPrioKeeps k L pid n) :
    Keeps (kernelSetProcessPriority pid n k) := by
  by_cases h₀ : pid = 0 ∨ n = 4
  · rw [kernelSetProcessPriority_refused h₀]
    exact .returned h
  have hk := (hk.resolve_left fun e => h₀ (Or.inl e)).resolve_left fun e => h₀ (Or.inr e)
  cases hget : getPcb k pid with
  | none =>
    rw [kernelSetProcessPriority_unknown h₀ hget]
    exact .returned h
  | some p =>
    have hk := hk p hget
    by_cases hp : p = k.currentPcb
    · subst hp
      rw [if_pos rfl] at hk
      rw [kernelSetProcessPriority_self h₀ hget]
      exact setProcessPriority_self_keeps h hc hip hk
    rw [if_neg hp] at hk
    cases hst : (k.pcbs p).state with
    | ready =>
      rw [hst] at hk
      exact setProcessPriority_ready_keeps h hc hip hnull h₀ hget hp (by simp [hst]) (by simp [hst]) hk
    | running =>
      rw [hst] at hk
      exact setProcessPriority_ready_keeps h hc hip hnull h₀ hget hp (by simp [hst]) (by simp [hst]) hk
    | memoryWait =>
      rw [hst] at hk
      exact setProcessPriority_memoryWait_keeps h hc hip hnull h₀ hget hp hst hk
    | messageWait =>
      rw [hst] at hk
      exact setProcessPriority_messageWait_keeps h hc hip h₀ hget hp hst hk

/-! ### The state that `start_scheduler` builds -/

theorem mem_bootContents : ∀ s, ∀ p ∈ bootContents s, ∃ x ∈ readyProcesses, x.1 = p ∧ x.2 = s.2.val := by decide

theorem inQueue_bootContents : ∀ p ∈ readyProcesses.map Prod.fst, p ≠ wcPid → ∃ i, p ∈ bootContents (.ready, i) := by
  decide

theorem Started.wellScheduled (h : Started k₀ k) : WellScheduled k bootContents where
  rep := h.rep
  own w i p hp := by
    obtain ⟨x, hx, rfl, hi⟩ := mem_bootContents (w, i) p hp
    rw [h.pcb x hx]
    exact hi
  placed p hc hi := by
    have hp : p ∈ readyProcesses.map Prod.fst := (h.created_iff.mp hc).resolve_left hi
    obtain ⟨x, hx, rfl⟩ := List.mem_map.mp hp
    have hpcb := h.pcb x hx
    by_cases hwc : x.1 = wcPid
    · have hun : Unlinked bootContents wcPid := by decide
      exact .running (h.current.trans hwc.symm) (hwc ▸ hun) (by simp [hpcb]) (by simp [hpcb])
    · exact .ready (fun e => hwc (e.symm.trans h.current)) (inQueue_bootContents _ hp hwc) (by rw [hpcb])
  null := Or.inr ⟨4, by decide⟩
  first p _ := by
    have hwc : (k.pcbs wcPid).priority = 0 := by rw [h.pcb (wcPid, Priority.high) (by decide)]; rfl
    unfold Kernel.current
    rw [h.current, hwc]
    exact Nat.zero_le _

/-- The processes of the ready queue are found under their pids. -/
theorem Booted.getPcb {img : Layout} {x : PcbRef × Nat} (h : Booted img k) (hx : x ∈ readyProcesses) :
    getPcb k x.1.val = some x.1 := by
  have hpcb := h.started.pcb x hx
  have hget := getPcb_of_created (p := x.1) h.tableOk (by unfold Kernel.Created; rw [hpcb])
  rwa [hpcb] at hget

theorem Booted.wellFormed {img : Layout} (h : Booted img k) : WellFormed k where
  mailbox p hc := ⟨p, h.mailbox p hc⟩
  messages p q hq := by
    by_cases hc : k.Created p
    · cases (h.mailbox p hc).symm.trans hq
      rw [h.started.mailbox p (h.started.created_iff.mp hc)]
      exact ⟨[], Queue.holds_empty _⟩
    · cases (h.unused p hc).1.symm.trans hq
  delayed := ⟨[], by rw [h.started.delayed]; rfl⟩
  free := ⟨_, h.free⟩

end
end DoorRtos
