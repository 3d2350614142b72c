import DoorRtos.Theorems.Inversion

/-! How a system call ends: it returns to the running process, or it runs a process that is ready. Which one is told by the
    state before the call. -/

namespace DoorRtos
open Linked

/-! ### Which process comes next -/

/-- Process `x` comes next when `p` is added, with priority `n`, to the subqueues: it is the oldest of the first one that is
    not empty, from `highest_prio` or `n` on, or `p` itself. -/
def Heads (highestPrio : Nat) (subqueues : Level → PCBQueue) (p : PcbRef) (n : Nat) (x : PcbRef) : Prop :=
  (∃ i : Level, (highestPrio ≤ i.val ∨ i.val = n) ∧ i.val ≤ n ∧ oldest (subqueues i) = some x ∧
    ∀ j < i, highestPrio ≤ j.val → oldest (subqueues j) = none) ∨
  x = p ∧ ∀ i : Level, highestPrio ≤ i.val ∨ i.val = n → i.val ≤ n → oldest (subqueues i) = none

/-- A subqueue without `p`: where `p` is the tail, the PCB that links to it is the oldest. -/
def leaveOut (next : Links PcbRef) (p : PcbRef) (q : PCBQueue) : PCBQueue :=
  ⟨if q.head = some p then next p else q.head,
    if q.tail = some p then (seekElement next p (maxProcesses + 1) none q.head).bind Prod.fst else q.tail⟩

/-- The subqueues of the ready queue with `p` left out of its own. -/
def Kernel.leaveOut (k : Kernel) (p : PcbRef) (i : Level) : PCBQueue :=
  if (k.pcbs p).priority = i.val then DoorRtos.leaveOut k.pcbNext p (k.readyQueue.subqueues i) else k.readyQueue.subqueues i

/-- When a call takes the processor away from the running process, process `x` stands first in the ready queue. All is read
    in the state before the call; a process that the call wakes or moves counts as the newest of its priority. -/
inductive First (k : Kernel) : Call → PcbRef → Prop
  | releaseProcessor {x : PcbRef} (hle : k.readyQueue.highestPrio ≤ k.current.priority) (htop : k.top .ready = some x) :
      First k .releaseProcessor x
  | sendMessage {processID envelope : Nat} {d source x : PcbRef} (hd : getPcb k processID = some d)
      (hst : (k.pcbs d).state = .messageWait) (hsrc : getPcb k k.current.pid = some source)
      (hlt : (k.pcbs source).priority < (k.pcbs d).priority)
      (hheads : Heads k.readyQueue.highestPrio k.readyQueue.subqueues d (k.pcbs d).priority x) :
      First k (.sendMessage processID envelope) x
  | receiveMessage {senderID : Nat} {mq x : PcbRef} (hmq : k.current.messQueue = some mq)
      (hempty : isMsgqEmpty (k.mQueues mq) = true) (htop : k.top .ready = some x) : First k (.receiveMessage senderID) x
  | requestMemoryBlock {next : Links Addr} {q : FreeMemoryQueue} {x : PcbRef}
      (hnone : dequeueMemoryBlockFIFO k.blockNext k.freeMemQ = some (none, next, q)) (htop : k.top .ready = some x) :
      First k .requestMemoryBlock x
  | releaseMemoryBlock {memoryBlock : Nat} {p x : PcbRef} (hwaits : k.top .memoryWait = some p)
      (hlt : (k.pcbs p).priority < k.current.priority)
      (hheads : Heads k.readyQueue.highestPrio k.readyQueue.subqueues p (k.pcbs p).priority x) :
      First k (.releaseMemoryBlock memoryBlock) x
  | delayedSend {processID envelope delay : Nat} {x : PcbRef} (hzero : toInt delay = 0)
      (h : First k (.sendMessage processID envelope) x) : First k (.delayedSend processID envelope delay) x
  | lowered {processID priority : Nat} {x : PcbRef} (hset : ¬(processID = 0 ∨ priority % 2 ^ 8 = 4))
      (hself : getPcb k processID = some k.currentPcb) (hlt : k.current.priority < priority % 2 ^ 8)
      (hle : k.readyQueue.highestPrio ≤ priority % 2 ^ 8) (htop : k.top .ready = some x) :
      First k (.setProcessPriority processID priority) x
  | moved {processID priority : Nat} {p x : PcbRef} {i : Level} {previous : Option PcbRef}
      (hset : ¬(processID = 0 ∨ priority % 2 ^ 8 = 4)) (hget : getPcb k processID = some p) (hne : p ≠ k.currentPcb)
      (hmem : (k.pcbs p).state ≠ .memoryWait) (hmess : (k.pcbs p).state ≠ .messageWait)
      (hprio : (k.pcbs p).priority = i.val)
      (hlinked : seekElement k.pcbNext p (maxProcesses + 1) none (k.readyQueue.subqueues i).head = some (previous, some p))
      (hlt : priority % 2 ^ 8 < k.current.priority)
      (hheads : Heads k.readyQueue.highestPrio (k.leaveOut p) p (priority % 2 ^ 8) x) :
      First k (.setProcessPriority processID priority) x

/-- How a primitive ends: it returns to the running process, or it runs a process of `S`. -/
def Ends {β : Type} (f : β → Kernel) (k : Kernel) (S : PcbRef → Prop) : Outcome β → Prop
  | .returned r => (f r).currentPcb = k.currentPcb ∧ (f r).inIProcess = k.inIProcess
  | .switched k' => (k.inIProcess = false → k'.inIProcess = false) ∧ S k'.currentPcb
  | .stuck => True

section
variable {k k' k₁ k₂ : Kernel} {S S' : PcbRef → Prop} {α β : Type} {f : β → Kernel} {w : QueueId} {p x : PcbRef} {i : Level}
  {c : Call}

/-! ### Adding a process -/

theorem oldest_of_empty {q : PCBQueue} (h : isEmpty q = true) : oldest q = none := if_pos h

theorem oldest_of_tail {q : PCBQueue} (h : q.tail = none) : oldest q = none := by
  unfold oldest
  split
  · rfl
  · exact h

theorem oldest_push (next : Links PcbRef) (q : PCBQueue) (p : PcbRef) :
    oldest (enqueuePCB next q p).2 = if isEmpty q then some p else q.tail := by
  have hne : ¬isEmpty (enqueuePCB next q p).2 = true := by
    unfold isEmpty Queue.isEmpty enqueuePCB
    rw [Queue.push_head]
    exact Bool.false_ne_true
  unfold oldest
  rw [if_neg hne]
  unfold enqueuePCB Queue.push isEmpty
  split <;> rfl

/-- What comes next once a process has been added to the ready queue of `k₁`, told by subqueues that give out the same. -/
theorem heads_of_top {subqueues : Level → PCBQueue} {highestPrio : Nat}
    (hsub : ∀ i, oldest ((k₁.queue .ready).subqueues i) = oldest (subqueues i))
    (hle : highestPrio ≤ (k₁.queue .ready).highestPrio)
    (hskip : ∀ i : Level, highestPrio ≤ i.val → i.val < (k₁.queue .ready).highestPrio → oldest (subqueues i) = none)
    (hput : enqueuePCBByPriority .ready p k₁ = some k₂) (htop : k₂.top .ready = some x) :
    Heads highestPrio subqueues p (k₁.pcbs p).priority x := by
  obtain ⟨i, hprio, rfl⟩ := enqueuePCBByPriority_pushed hput
  rw [hprio]
  have hqueue := Kernel.setQueue_queue_self k₁ .ready (enqueuePCB k₁.pcbNext ((k₁.queue .ready).subqueues i) p).1
    ⟨if i.val < (k₁.queue .ready).highestPrio then i.val else (k₁.queue .ready).highestPrio,
      Function.update (k₁.queue .ready).subqueues i (enqueuePCB k₁.pcbNext ((k₁.queue .ready).subqueues i) p).2⟩
  by_cases hlow : i.val ≤ (k₁.queue .ready).highestPrio
  · -- The process comes to the first subqueue.
    have hhigh : (if i.val < (k₁.queue .ready).highestPrio then i.val else (k₁.queue .ready).highestPrio) = i.val := by
      split <;> omega
    rw [top_eq (i := i) (by rw [hqueue]; exact hhigh), hqueue] at htop
    simp only [Function.update_self, oldest_push] at htop
    have hbefore : ∀ j < i, highestPrio ≤ j.val → oldest (subqueues j) = none := fun j hj hjle =>
      hskip j hjle (Nat.lt_of_lt_of_le hj hlow)
    split at htop
    next hempty =>
      refine Or.inr ⟨(Option.some.inj htop).symm, fun j hj hjle => ?_⟩
      by_cases hji : j = i
      · rw [hji, ← hsub i, oldest_of_empty hempty]
      · have hlt : j.val < i.val := Nat.lt_of_le_of_ne hjle fun h => hji (Fin.ext h)
        exact hbefore j hlt (hj.resolve_right (Nat.ne_of_lt hlt))
    next hne =>
      refine Or.inl ⟨i, Or.inr rfl, Nat.le_refl _, ?_, hbefore⟩
      rw [← hsub i, oldest, if_neg hne, htop]
  · have hlt : (k₁.queue .ready).highestPrio < i.val := Nat.lt_of_not_le hlow
    have hhigh : (if i.val < (k₁.queue .ready).highestPrio then i.val else (k₁.queue .ready).highestPrio) =
        (⟨_, Nat.lt_trans hlt i.isLt⟩ : Level).val := if_neg (by omega)
    rw [top_eq (by rw [hqueue]; exact hhigh), hqueue] at htop
    have hne : (⟨(k₁.queue .ready).highestPrio, Nat.lt_trans hlt i.isLt⟩ : Level) ≠ i := fun he => by
      rw [← he] at hlt
      exact Nat.lt_irrefl _ hlt
    simp only [Function.update_of_ne hne, hsub] at htop
    exact Or.inl ⟨_, Or.inl hle, Nat.le_of_lt hlt, htop, fun j hj hjle => hskip j hjle hj⟩

/-- A process is added to the ready queue as it is. -/
theorem heads_of_enqueue (hput : enqueuePCBByPriority .ready p k₁ = some k₂) (htop : k₂.top .ready = some x) :
    Heads (k₁.queue .ready).highestPrio (k₁.queue .ready).subqueues p (k₁.pcbs p).priority x :=
  heads_of_top (fun _ => rfl) (Nat.le_refl _) (fun _ hle hlt => absurd hlt (Nat.not_lt_of_le hle)) hput htop

/-! ### Leaving a process out -/

/-- Once `remove_element` has found a PCB, the subqueues give out what they gave out without it. -/
theorem unlinkElement_leaveOut {previous : Option PcbRef} (hprio : (k.pcbs p).priority = i.val)
    (hseek : seekElement k.pcbNext p (maxProcesses + 1) none (k.readyQueue.subqueues i).head = some (previous, some p))
    (hs : unlinkElement .ready i previous p k = some k₁) :
    (∀ j, oldest ((k₁.queue .ready).subqueues j) = oldest (k.leaveOut p j)) ∧
      k.readyQueue.highestPrio ≤ (k₁.queue .ready).highestPrio ∧
      ∀ j : Level, k.readyQueue.highestPrio ≤ j.val → j.val < (k₁.queue .ready).highestPrio →
        oldest ((k₁.queue .ready).subqueues j) = none := by
  have hself : k.leaveOut p i =
      ⟨if (k.readyQueue.subqueues i).head = some p then k.pcbNext p else (k.readyQueue.subqueues i).head,
      if (k.readyQueue.subqueues i).tail = some p then previous else (k.readyQueue.subqueues i).tail⟩ := by
    unfold Kernel.leaveOut DoorRtos.leaveOut
    rw [if_pos hprio, hseek]
    rfl
  have hother : ∀ j, j ≠ i → k.leaveOut p j = k.readyQueue.subqueues j := fun j hj =>
    if_neg fun h => hj (Fin.ext (h.symm.trans hprio))
  -- What is stored for the subqueue, where the others stay.
  have hupdate : ∀ c : PCBQueue, oldest c = oldest (k.leaveOut p i) → ∀ j,
      oldest (Function.update k.readyQueue.subqueues i c j) = oldest (k.leaveOut p j) := fun c hc j => by
    by_cases hj : j = i
    · subst hj
      rw [Function.update_self, hc]
    · rw [Function.update_of_ne hj, hother j hj]
  have hkept : ∀ j : Level, k.readyQueue.highestPrio ≤ j.val → j.val < k.readyQueue.highestPrio →
      oldest ((k₁.queue .ready).subqueues j) = none := fun j hle hlt => absurd hlt (Nat.not_lt_of_le hle)
  unfold unlinkElement at hs
  simp only [show k.queue .ready = k.readyQueue from rfl] at hs
  split at hs
  next hboth =>
    cases hs
    simp only [Kernel.setQueue_queue_self]
    obtain ⟨hle, hskip⟩ := raiseHighestPrio_skips k.pastSubqueues
      (Function.update k.readyQueue.subqueues i Queue.empty) (numPrio + 2) k.readyQueue.highestPrio
    refine ⟨hupdate _ ?_, hle, fun j hj hlt => oldest_of_empty (hskip j hj hlt)⟩
    rw [hboth.1, seekElement_head] at hseek
    cases hseek
    rw [hself, if_pos hboth.1, if_pos hboth.2]
    exact (oldest_of_empty rfl).trans (oldest_of_tail rfl).symm
  next hnot =>
  split at hs
  next hhead =>
    cases hs
    simp only [Kernel.setQueue_queue_self]
    refine ⟨hupdate _ ?_, Nat.le_refl _, hkept⟩
    rw [hself, if_pos hhead, if_neg fun htail => hnot ⟨hhead, htail⟩]
  next hhead =>
  split at hs
  next htail =>
    cases hs
    simp only [Kernel.setQueue_queue_self]
    refine ⟨hupdate _ ?_, Nat.le_refl _, hkept⟩
    rw [hself, if_neg hhead, if_pos htail]
  next htail =>
    obtain ⟨y, -, rfl⟩ := Option.map_eq_some_iff.mp hs
    simp only [Kernel.setQueue_queue_self]
    refine ⟨fun j => ?_, Nat.le_refl _, hkept⟩
    have := hupdate (k.readyQueue.subqueues i) (by rw [hself, if_neg hhead, if_neg htail]) j
    rwa [Function.update_eq_self] at this

/-- What `remove_element_by_priority` takes out, it has found in the subqueue of its priority. -/
theorem removeElementByPriority_found (hs : removeElementByPriority p .ready k = some (rtxSuccess, k₁)) :
    ∃ (i : Level) (previous : Option PcbRef), (k.pcbs p).priority = i.val ∧
      seekElement k.pcbNext p (maxProcesses + 1) none (k.readyQueue.subqueues i).head = some (previous, some p) ∧
      unlinkElement .ready i previous p k = some k₁ := by
  unfold removeElementByPriority at hs
  split at hs
  next hlt =>
    unfold removeElement at hs
    split at hs
    next => cases hs
    next => cases hs
    next previous current hseek =>
      obtain ⟨k₃, hunlink, he⟩ := Option.map_eq_some_iff.mp hs
      cases he
      obtain rfl := seekElement_found hseek rfl
      exact ⟨⟨_, hlt⟩, previous, rfl, hseek, hunlink⟩
  next => cases hs

/-- A process is moved within the ready queue. -/
theorem heads_of_move {n : Nat} {previous : Option PcbRef} (hprio : (k.pcbs p).priority = i.val)
    (hseek : seekElement k.pcbNext p (maxProcesses + 1) none (k.readyQueue.subqueues i).head = some (previous, some p))
    (hunlink : unlinkElement .ready i previous p k = some k₁)
    (hput : enqueuePCBByPriority .ready p (k₁.setPriority p n) = some k₂) (htop : k₂.top .ready = some x) :
    Heads k.readyQueue.highestPrio (k.leaveOut p) p n x := by
  obtain ⟨hsub, hle, hskip⟩ := unlinkElement_leaveOut hprio hseek hunlink
  have hheads : Heads k.readyQueue.highestPrio (k.leaveOut p) p ((k₁.setPriority p n).pcbs p).priority x :=
    heads_of_top hsub hle (fun j hj hjlt => (hsub j).symm.trans (hskip j hj hjlt)) hput htop
  rwa [Kernel.setPriority_priority, if_pos rfl] at hheads

/-! ### How a primitive ends -/

theorem Ends.imp {o : Outcome β} (h : Ends f k S o) (hS : ∀ x, S x → S' x) : Ends f k S' o := by
  cases o with
  | returned r => exact h
  | switched k' => exact ⟨h.1, hS _ h.2⟩
  | stuck => trivial

/-- Storing the result of a primitive. -/
theorem Ends.store {o : Outcome (α × Kernel)} {g : α × Kernel → Kernel} (h : Ends Prod.snd k S o)
    (hcur : ∀ r, (g r).currentPcb = r.2.currentPcb) (hi : ∀ r, (g r).inIProcess = r.2.inIProcess) :
    Ends id k S (o >>= fun r => .returned (g r)) := by
  cases o with
  | returned r => exact ⟨(hcur r).trans h.1, (hi r).trans h.2⟩
  | switched k' => exact h
  | stuck => trivial

/-- Adding a result to `process_switch`. -/
theorem Ends.result {o : Outcome Kernel} {a : α} (h : Ends id k S o) :
    Ends Prod.snd k S (o >>= fun k => .returned (a, k)) := by
  cases o with
  | returned r => exact h
  | switched k' => exact h
  | stuck => trivial

/-- What the search starts from differs from the state before the call, but not in who runs. -/
theorem Ends.base {o : Outcome β} (h : Ends f k₁ S o) (hcur : k₁.currentPcb = k.currentPcb)
    (hi : k₁.inIProcess = k.inIProcess) : Ends f k S o := by
  cases o with
  | returned r => exact ⟨h.1.trans hcur, h.2.trans hi⟩
  | switched k' => exact ⟨fun hk => h.1 (hi.trans hk), h.2⟩
  | stuck => trivial

theorem enqueuePCBByPriority_current (hs : enqueuePCBByPriority w p k = some k') :
    k'.currentPcb = k.currentPcb ∧ k'.inIProcess = k.inIProcess := by
  obtain ⟨-, next, c, rfl⟩ := enqueuePCBByPriority_inv hs
  exact ⟨Kernel.setQueue_currentPcb .., Kernel.setQueue_inIProcess ..⟩

theorem dequeuePCBFIFOByPriority_current (hs : dequeuePCBFIFOByPriority w k = some (some p, k')) :
    k'.currentPcb = k.currentPcb ∧ k'.inIProcess = k.inIProcess := by
  obtain ⟨i, next, c, h, -, -, rfl⟩ := dequeuePCBFIFOByPriority_inv hs
  exact ⟨Kernel.setQueue_currentPcb .., Kernel.setQueue_inIProcess ..⟩

theorem removeElementByPriority_current {r : Nat} (hs : removeElementByPriority p w k = some (r, k')) :
    k'.currentPcb = k.currentPcb ∧ k'.inIProcess = k.inIProcess := by
  rcases removeElementByPriority_inv hs with ⟨-, rfl⟩ | ⟨-, next, q, rfl⟩
  · exact ⟨rfl, rfl⟩
  · exact ⟨Kernel.setQueue_currentPcb .., Kernel.setQueue_inIProcess ..⟩

/-! ### The primitives -/

theorem processSwitch_ends (k : Kernel) :
    Ends id k (fun x => k.readyQueue.highestPrio ≤ k.current.priority ∧ k.top .ready = some x) (processSwitch k) := by
  cases ho : processSwitch k with
  | returned k' =>
    rw [(processSwitch_returned ho).2]
    exact ⟨rfl, rfl⟩
  | switched k' =>
    obtain ⟨hle, p, k₁, k₂, htake, -, rfl⟩ := processSwitch_inv ho
    exact ⟨fun _ => rfl, hle, top_of_dequeue htake⟩
  | stuck => trivial

theorem runNext_ends (k : Kernel) : Ends f k (fun x => k.top .ready = some x) (runNext k) := by
  cases ho : (runNext k : Outcome β) with
  | returned r => exact absurd ho runNext_not_returned
  | switched k' =>
    obtain ⟨p, k₁, htake, rfl⟩ := runNext_inv ho
    exact ⟨fun hi => (dequeuePCBFIFOByPriority_current htake).2.trans hi, top_of_dequeue htake⟩
  | stuck => trivial

/-- `kernel_send_message` has its own switch. -/
theorem switch_ends (k : Kernel) : Ends f k (fun x => k.top .ready = some x)
    (liftM (dequeuePCBFIFOByPriority .ready k) >>= fun r => contextSwitch r.1 r.2) := by
  rcases htake : dequeuePCBFIFOByPriority .ready k with _ | ⟨_ | p, k₁⟩
  · trivial
  · trivial
  · exact ⟨fun hi => (dequeuePCBFIFOByPriority_current htake).2.trans hi, top_of_dequeue htake⟩

theorem kernelReceiveMessage_ends (senderID : Nat) (k : Kernel) :
    Ends Prod.snd k (First k (.receiveMessage senderID)) (kernelReceiveMessage k) := by
  cases ho : kernelReceiveMessage k with
  | returned r =>
    obtain ⟨e, k'⟩ := r
    obtain ⟨mq, -, ⟨-, -, he⟩ | ⟨-, next, q, -, he⟩⟩ := kernelReceiveMessage_returned ho
    · exact ⟨by rw [he], by rw [he]⟩
    · exact ⟨by rw [he], by rw [he]⟩
  | switched k' =>
    obtain ⟨mq, hmq, hempty, hrun⟩ := kernelReceiveMessage_switched ho
    obtain ⟨hi, htop⟩ := hrun ▸ runNext_ends (f := (Prod.snd : Option Addr × Kernel → Kernel))
      ({ k with msgReturn := false }.setState k.currentPcb .messageWait)
    exact ⟨hi, .receiveMessage hmq hempty htop⟩
  | stuck => trivial

theorem kernelRequestMemoryBlock_ends (k : Kernel) :
    Ends Prod.snd k (First k .requestMemoryBlock) (kernelRequestMemoryBlock k) := by
  cases ho : kernelRequestMemoryBlock k with
  | returned r =>
    obtain ⟨e, k'⟩ := r
    obtain ⟨next, q, -, he, -⟩ := kernelRequestMemoryBlock_returned ho
    exact ⟨by rw [he], by rw [he]⟩
  | switched k' =>
    obtain ⟨next, q, k₁, hnone, hput, hrun⟩ := kernelRequestMemoryBlock_switched ho
    obtain ⟨hi, htop⟩ := hrun ▸ runNext_ends (f := (Prod.snd : Option Addr × Kernel → Kernel)) k₁
    have hi' := (enqueuePCBByPriority_current hput).2
    refine ⟨fun hk => hi (hi'.trans hk), .requestMemoryBlock hnone ?_⟩
    -- The running process went into the other queue.
    obtain ⟨-, next', c, rfl⟩ := enqueuePCBByPriority_inv hput
    exact htop
  | stuck => trivial

theorem kernelSendMessage_ends (pid envelope : Nat) (b : Addr) (k : Kernel) :
    Ends Prod.snd k (First k (.sendMessage pid envelope)) (kernelSendMessage pid b k) := by
  rcases kernelSendMessage_cases pid b k with ⟨-, ho⟩ |
      ⟨d, mq, hd, hmq, ⟨-, ho⟩ | ⟨hst, k₁, source, hput, hsrc, ho⟩⟩ | ho <;>
    rw [ho]
  · exact ⟨rfl, rfl⟩
  · exact ⟨rfl, rfl⟩
  · have hcur := enqueuePCBByPriority_current hput
    split
    next hlt =>
      refine ((switch_ends k₁).base (k := k) hcur.1 hcur.2).imp fun x htop => ?_
      have hheads := heads_of_enqueue hput htop
      rw [Kernel.setState_priority] at hheads
      have hres := enqueuePCBByPriority_rescheduled hput
      have hsrc' : getPcb k k.current.pid = some source :=
        (getPcb_congr (fun y => (hres.pid y).trans (Kernel.setState_pid ..)) _).symm.trans hsrc
      have hprio : ∀ y, (k₁.pcbs y).priority = (k.pcbs y).priority := fun y => by
        obtain ⟨-, next, c, rfl⟩ := enqueuePCBByPriority_inv hput
        rw [Kernel.setQueue_pcbs, Kernel.setState_priority]
        rfl
      exact .sendMessage hd hst hsrc' (by rw [← hprio, ← hprio]; exact hlt.1) hheads
    next => exact hcur
  · trivial

theorem kernelDelayedSend_ends (pid envelope delay : Nat) (b : Addr) (k : Kernel) :
    Ends Prod.snd k (First k (.delayedSend pid envelope delay)) (kernelDelayedSend pid b (toInt delay) k) := by
  rcases kernelDelayedSend_cases pid b (toInt delay) k with ⟨-, ho⟩ | ⟨hzero, ho⟩ | ⟨-, d, ptr, prevPtr, -, ho⟩ | ho <;>
    rw [ho]
  · exact ⟨rfl, rfl⟩
  · refine ((kernelSendMessage_ends pid envelope b (k.marked pid b)).base (k := k) rfl rfl).imp fun x h =>
      .delayedSend hzero ?_
    cases h with
    | sendMessage hd hst hsrc hlt hheads => exact .sendMessage hd hst hsrc hlt hheads
  · exact (linkDelayed_frame b d ptr prevPtr (k.marked pid b)).2.2.2
  · trivial

theorem kernelReleaseMemoryBlock_ends (memoryBlock : Nat) (b : Addr) (k : Kernel) :
    Ends Prod.snd k (First k (.releaseMemoryBlock memoryBlock)) (kernelReleaseMemoryBlock b k) := by
  rcases kernelReleaseMemoryBlock_cases b k with ho | ⟨p, k₁, k₂, htake, hput, ho⟩ | ho <;> rw [ho]
  · exact ⟨rfl, rfl⟩
  · have h₁ := dequeuePCBFIFOByPriority_current htake
    have h₂ := enqueuePCBByPriority_current hput
    split
    next hlt =>
      refine ((processSwitch_ends k₂).result.base (k := k) (h₂.1.trans h₁.1) (h₂.2.trans h₁.2)).imp fun x h => ?_
      have hheads := heads_of_enqueue hput h.2
      have hwaits := top_of_dequeue htake
      obtain ⟨i, next, c, h', -, -, rfl⟩ := dequeuePCBFIFOByPriority_inv htake
      obtain ⟨-, next', c', rfl⟩ := enqueuePCBByPriority_inv hput
      simp only [Kernel.current, Kernel.setQueue_pcbs, Kernel.setQueue_currentPcb, Kernel.setState_currentPcb,
        Kernel.setState_priority] at hlt hheads
      exact .releaseMemoryBlock hwaits hlt hheads
    next => exact ⟨h₂.1.trans h₁.1, h₂.2.trans h₁.2⟩
  · trivial

theorem kernelSetProcessPriority_ends (pid priority : Nat) (k : Kernel) :
    Ends Prod.snd k (First k (.setProcessPriority pid priority)) (kernelSetProcessPriority pid (priority % 2 ^ 8) k) := by
  rcases kernelSetProcessPriority_cases pid (priority % 2 ^ 8) k with ho | ⟨p, ho⟩ | ⟨ho, hset, hself, hlt⟩ |
    ⟨w, p, k₁, k₂, hget, hne, hremove, hput, ho | ⟨rfl, hset, hmem, hmess, hlt, ho⟩⟩ | ho <;> rw [ho]
  · exact ⟨rfl, rfl⟩
  · exact ⟨rfl, rfl⟩
  · refine ((processSwitch_ends (k.setPriority k.currentPcb (priority % 2 ^ 8))).result.base (k := k) rfl rfl).imp
      fun x h => ?_
    have hprio : (k.setPriority k.currentPcb (priority % 2 ^ 8)).current.priority = priority % 2 ^ 8 := by
      simp [Kernel.current]
    exact .lowered hset hself hlt (hprio ▸ h.1) h.2
  · have h₁ := removeElementByPriority_current hremove
    have h₂ := enqueuePCBByPriority_current hput
    exact ⟨h₂.1.trans h₁.1, h₂.2.trans h₁.2⟩
  · have h₁ := removeElementByPriority_current hremove
    have h₂ := enqueuePCBByPriority_current hput
    refine ((processSwitch_ends k₂).result.base (k := k) (h₂.1.trans h₁.1) (h₂.2.trans h₁.2)).imp fun x h => ?_
    obtain ⟨i, previous, hprio, hlinked, hunlink⟩ := removeElementByPriority_found hremove
    have hheads := heads_of_move hprio hlinked hunlink hput h.2
    have hcurrent : k₂.current.priority = k.current.priority := by
      obtain ⟨-, next, c, rfl⟩ := enqueuePCBByPriority_inv hput
      rcases removeElementByPriority_inv hremove with ⟨he, -⟩ | ⟨-, next', q, rfl⟩
      · exact absurd he (by decide)
      · simp [Kernel.current, hne.symm]
    exact .moved hset hget hne hmem hmess hprio hlinked (hcurrent ▸ hlt) hheads
  · trivial

theorem enter_currentPcb (c : Call) (k : Kernel) : (c.enter k).currentPcb = k.currentPcb := by cases c <;> rfl

theorem enter_inIProcess (c : Call) (k : Kernel) : (c.enter k).inIProcess = k.inIProcess := by cases c <;> rfl

/-- What a wrapper stores does not change who stands first. -/
theorem First.of_enter (h : First (c.enter k) c x) : First k c x := by
  cases h with
  | releaseProcessor hle htop => exact .releaseProcessor hle htop
  | sendMessage hd hst hsrc hlt hheads => exact .sendMessage hd hst hsrc hlt hheads
  | receiveMessage hmq hempty htop => exact .receiveMessage hmq hempty htop
  | requestMemoryBlock hnone htop => exact .requestMemoryBlock hnone htop
  | releaseMemoryBlock hwaits hlt hheads => exact .releaseMemoryBlock hwaits hlt hheads
  | delayedSend hzero h =>
    cases h with
    | sendMessage hd hst hsrc hlt hheads => exact .delayedSend hzero (.sendMessage hd hst hsrc hlt hheads)
  | lowered hset hself hlt hle htop => exact .lowered hset hself hlt hle htop
  | moved hset hget hne hmem hmess hprio hlinked hlt hheads =>
    exact .moved hset hget hne hmem hmess hprio hlinked hlt hheads

/-- A system call returns to the running process, or runs the process that stands first. -/
theorem call_ends (c : Call) (k : Kernel) : Ends id (c.enter k) (First k c) (swiTrapHandler (c.enter k)) := by
  suffices Ends id (c.enter k) (First (c.enter k) c) (swiTrapHandler (c.enter k)) from this.imp fun x h => h.of_enter
  have hpointer : ∀ {w : Nat} {o : Addr → Outcome Kernel},
      (∀ b, Ends id (c.enter k) (First (c.enter k) c) (o b)) →
      Ends id (c.enter k) (First (c.enter k) c) (liftM (toPtr w) >>= o) := by
    intro w o h
    cases hw : toPtr w with
    | none => trivial
    | some b => exact h b
  cases c with
  | releaseProcessor =>
    rw [swiTrapHandler_releaseProcessor rfl]
    exact (processSwitch_ends _).imp fun x h => .releaseProcessor h.1 h.2
  | sendMessage processID envelope =>
    rw [swiTrapHandler_sendMessage rfl]
    exact hpointer fun b => (kernelSendMessage_ends processID envelope b _).store (fun _ => rfl) fun _ => rfl
  | receiveMessage senderID =>
    rw [swiTrapHandler_receiveMessage rfl]
    exact (kernelReceiveMessage_ends senderID _).store (fun _ => rfl) fun _ => rfl
  | requestMemoryBlock =>
    rw [swiTrapHandler_requestMemory rfl]
    exact (kernelRequestMemoryBlock_ends _).store (fun _ => rfl) fun _ => rfl
  | releaseMemoryBlock memoryBlock =>
    rw [swiTrapHandler_releaseMemory rfl]
    exact hpointer fun b => (kernelReleaseMemoryBlock_ends memoryBlock b _).store (fun _ => rfl) fun _ => rfl
  | delayedSend processID envelope delay =>
    rw [swiTrapHandler_delayedSend rfl]
    exact hpointer fun b => (kernelDelayedSend_ends processID envelope delay b _).store (fun _ => rfl) fun _ => rfl
  | setProcessPriority processID priority =>
    rw [swiTrapHandler_setPrio rfl]
    exact (kernelSetProcessPriority_ends processID priority _).store (fun _ => rfl) fun _ => rfl
  | getProcessPriority processID =>
    rw [swiTrapHandler_getPrio rfl]
    unfold kernelGetProcessPriority
    split
    · exact ⟨rfl, rfl⟩
    · exact ⟨rfl, rfl⟩

end
end DoorRtos
