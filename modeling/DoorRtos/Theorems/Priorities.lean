import DoorRtos.Traps
import DoorRtos.Theorems.Boot
import DoorRtos.Theorems.Rescheduling

/-! What `set_process_priority` does with its two words: which calls change a priority, what they return and which
    subqueues they index. -/

namespace DoorRtos
open Linked

namespace Kernel

/-- From the head of the subqueue of its priority in queue `w` the links lead to PCB `p`. -/
def AtLevel (k : Kernel) (w : QueueId) (p : PcbRef) : Prop :=
  ∃ i : Level, i.val = (k.pcbs p).priority ∧ Reaches k.pcbNext ((k.queue w).subqueues i).head p

/-- The queue of the state of PCB `p`, when it is not `MESSAGE_WAIT`. -/
def home (k : Kernel) (p : PcbRef) : QueueId := if (k.pcbs p).state = .memoryWait then .memoryWait else .ready

/-- The call is not refused at once, and it names the running process, or one that waits for a message, or one that
    is linked in the subqueue of its priority. -/
def Changes (k : Kernel) (processID priority : Nat) : Prop :=
  ¬(processID = 0 ∨ priority = 4) ∧ ∃ p, getPcb k processID = some p ∧
    (p = k.currentPcb ∨ (k.pcbs p).state = .messageWait ∨ k.AtLevel (k.home p) p)

end Kernel

/-- The scheduler's data are well formed: the two queues hold the PCBs of `L`, the running PCB is that of a process, all
    priorities have a subqueue, and the unused slots of the process table are linked nowhere and wait for nothing. -/
structure Sound (k : Kernel) (L : Slot → List PcbRef) : Prop where
  rep : Rep k L
  table : k.TableOk
  current : k.Created k.currentPcb
  priority : ∀ p, (k.pcbs p).priority ≤ numPrio
  unused : ∀ p, ¬k.Created p → (k.pcbs p).state ≠ .messageWait ∧ Unlinked L p

/-- The indices at which `process_switch` enters a PCB into the ready queue. -/
def switchIndices (k : Kernel) : List Nat :=
  if k.readyQueue.highestPrio ≤ k.current.priority then
    match dequeuePCBFIFOByPriority .ready k with
    | some (some _, k) => [k.current.priority]
    | _ => []
  else []

/-- The indices at which a PCB is entered while it is moved to priority `n` in queue `w`, with those of what follows. -/
def moveIndices (w : QueueId) (pcb : PcbRef) (n : Nat) (rest : Kernel → List Nat) (k : Kernel) : List Nat :=
  match removeElementByPriority pcb w k with
  | some (returnValue, k) =>
    if returnValue = rtxError then []
    else n :: ((enqueuePCBByPriority w pcb (k.setPriority pcb n)).map rest).getD []
  | none => []

/-- The indices at which `kernel_set_process_priority` enters PCBs into the queues, in order. -/
def setPriorityIndices (processID priority : Nat) (k : Kernel) : List Nat :=
  if processID = 0 ∨ priority = 4 then []
  else match getPcb k processID with
  | none => []
  | some pcb =>
    if pcb = k.currentPcb then
      if priority ≤ (k.pcbs pcb).priority then [] else switchIndices (k.setPriority pcb priority)
    else if (k.pcbs pcb).state = .memoryWait then moveIndices .memoryWait pcb priority (fun _ => []) k
    else if (k.pcbs pcb).state = .messageWait then []
    else moveIndices .ready pcb priority (fun k => if priority < k.current.priority then switchIndices k else []) k

/-- The kernels have the same PCBs and the same queues of PCBs, envelopes and blocks. -/
structure SameQueues (k k' : Kernel) : Prop where
  pcbs : k'.pcbs = k.pcbs
  pcbNext : k'.pcbNext = k.pcbNext
  queue : k'.queue = k.queue
  messNext : k'.messNext = k.messNext
  mQueues : k'.mQueues = k.mQueues
  delayedSendQueue : k'.delayedSendQueue = k.delayedSendQueue
  blockNext : k'.blockNext = k.blockNext
  freeMemQ : k'.freeMemQ = k.freeMemQ

/-- A call for no process, or with a word that is none of the four priorities, returns an error and changes no PCB and
    no queue; no PCB is entered outside the subqueues; and no process gets the null process's priority or a lower one. -/
structure Guarded (k : Kernel) (processID priority : Nat) : Prop where
  refused : processID = 0 ∨ (∀ p, k.Created p → p.val ≠ processID) ∨ Priority.lowest < priority →
    ∃ k', swiTrapHandler ((Call.setProcessPriority processID priority).enter k) = .returned k' ∧
      k'.retCode = rtxError ∧ SameQueues k k'
  indices : ∀ i ∈ setPriorityIndices processID (priority % 2 ^ 8) ((Call.setProcessPriority processID priority).enter k),
    i ≤ numPrio
  levels : ∀ k', (swiTrapHandler ((Call.setProcessPriority processID priority).enter k)).kernel? = some k' →
    ∀ p, (k'.pcbs p).priority ≠ (k.pcbs p).priority → (k'.pcbs p).priority < Priority.null

section
variable {k k' k₁ k₂ : Kernel} {L : Slot → List PcbRef} {w : QueueId} {p q : PcbRef} {pid n r prio : Nat}

/-! ### Whether a PCB is found -/

/-- The walk stops at `p` when the links lead there, and else at the end. -/
theorem seekElement_reaches {next : Links PcbRef} {m : Nat} {prev ptr : Option PcbRef}
    {o : Option PcbRef × Option PcbRef} (hs : seekElement next p m prev ptr = some o) :
    o.2 = some p ∧ Reaches next ptr p ∨ o.2 = none ∧ ¬Reaches next ptr p := by
  induction m generalizing prev ptr with
  | zero => cases hs
  | succ m ih =>
    unfold seekElement at hs
    cases ptr with
    | none =>
      cases hs
      refine Or.inr ⟨rfl, ?_⟩
      intro h
      cases h
    | some c =>
      simp only at hs
      by_cases hcp : c = p
      · subst hcp
        rw [if_pos rfl] at hs
        cases hs
        exact Or.inl ⟨rfl, .here c⟩
      · rw [if_neg hcp] at hs
        rcases ih hs with ⟨ho, hreach⟩ | ⟨ho, hreach⟩
        · exact Or.inl ⟨ho, .there hreach⟩
        · refine Or.inr ⟨ho, fun h => ?_⟩
          cases h with
          | here => exact hcp rfl
          | there h => exact hreach h

theorem removeElementByPriority_atLevel (hs : removeElementByPriority p w k = some (r, k')) :
    k.AtLevel w p ∧ r = rtxSuccess ∨ ¬k.AtLevel w p ∧ r = rtxError ∧ k' = k := by
  unfold removeElementByPriority at hs
  split at hs
  next hlt =>
    unfold removeElement at hs
    split at hs
    · cases hs
    next hseek =>
      cases hs
      refine Or.inr ⟨?_, rfl, rfl⟩
      rintro ⟨i, hi, hreach⟩
      have hidx : (⟨(k.pcbs p).priority, hlt⟩ : Level) = i := Fin.ext hi.symm
      rw [hidx] at hseek
      rcases seekElement_reaches hseek with ⟨ho, -⟩ | ⟨-, hno⟩
      · cases ho
      · exact hno hreach
    next hseek =>
      obtain ⟨k₁, -, he⟩ := Option.map_eq_some_iff.mp hs
      cases he
      rcases seekElement_reaches hseek with ⟨-, hreach⟩ | ⟨ho, -⟩
      · exact Or.inl ⟨⟨⟨_, hlt⟩, rfl, hreach⟩, rfl⟩
      · cases ho
  · cases hs

theorem Rep.atLevel_iff (h : Rep k L) : k.AtLevel w p ↔ ∃ i : Level, i.val = (k.pcbs p).priority ∧ p ∈ L (w, i) := by
  unfold Kernel.AtLevel
  have hreach : ∀ i, Reaches k.pcbNext ((k.queue w).subqueues i).head p ↔ p ∈ L (w, i) := fun i =>
    (h.holds.holds (w, i)).list.reaches_iff
  simp only [hreach]

/-! ### What the call does -/

/-- The kernel `k₁` is `k` with the priority of the process `pid` set to `n`, but for the queues. -/
structure PrioritySet (k : Kernel) (pid n : Nat) (k₁ : Kernel) : Prop where
  pcbs : ∃ p, getPcb k pid = some p ∧ k₁.pcbs = (k.setPriority p n).pcbs
  currentPcb : k₁.currentPcb = k.currentPcb
  retCodeGetPrio : k₁.retCodeGetPrio = k.retCodeGetPrio

theorem PrioritySet.priority (h : PrioritySet k pid n k₁) (q : PcbRef) :
    (k₁.pcbs q).priority = if getPcb k pid = some q then n else (k.pcbs q).priority := by
  obtain ⟨p, hp, heq⟩ := h.pcbs
  rw [heq, hp, Kernel.setPriority_priority]
  simp only [Option.some.injEq, eq_comm]

theorem prioritySet_setPriority (hp : getPcb k pid = some p) : PrioritySet k pid n (k.setPriority p n) :=
  ⟨⟨p, hp, rfl⟩, rfl, rfl⟩

theorem prioritySet_move {v : Nat} (hp : getPcb k pid = some p) (hremove : removeElementByPriority p w k = some (v, k₁))
    (hput : enqueuePCBByPriority w p (k₁.setPriority p n) = some k₂) : PrioritySet k pid n k₂ := by
  obtain ⟨-, next, c, rfl⟩ := enqueuePCBByPriority_inv hput
  refine ⟨⟨p, hp, ?_⟩, ?_, ?_⟩ <;> rcases removeElementByPriority_inv hremove with ⟨-, rfl⟩ | ⟨-, next', c', rfl⟩ <;>
    simp [Kernel.setPriority]

/-- How a PCB is moved to the subqueue of priority `n`, in either queue. -/
theorem movePCB_inv (hp : getPcb k pid = some p) (w : QueueId) (n : Nat) (f : Kernel → Outcome (Nat × Kernel)) :
    movePCB p w n f k = .stuck ∨ ¬k.AtLevel w p ∧ movePCB p w n f k = .returned (rtxError, k) ∨
      k.AtLevel w p ∧ ∃ k₁, PrioritySet k pid n k₁ ∧ movePCB p w n f k = f k₁ := by
  rcases movePCB_cases p w n f k with ho | ⟨k₁, hremove, ho⟩ | ⟨r, k₁, k₂, hremove, hr, hput, ho⟩
  · exact Or.inl ho
  · rcases removeElementByPriority_atLevel hremove with ⟨-, hr⟩ | ⟨hno, -, rfl⟩
    · exact absurd hr (by decide)
    · exact Or.inr (Or.inl ⟨hno, ho⟩)
  · rcases removeElementByPriority_atLevel hremove with ⟨hat, -⟩ | ⟨-, herr, -⟩
    · exact Or.inr (Or.inr ⟨hat, k₂, prioritySet_move hp hremove hput, ho⟩)
    · exact absurd herr hr

theorem processSwitch_priority (hs : (processSwitch k).kernel? = some k') (q : PcbRef) :
    (k'.pcbs q).priority = (k.pcbs q).priority := by
  rcases Outcome.kernel?_eq_some.mp hs with ho | ho
  · rw [(processSwitch_returned ho).2]
  · obtain ⟨-, p, k₁, k₂, htake, hput, rfl⟩ := processSwitch_inv ho
    obtain ⟨-, next, c, rfl⟩ := enqueuePCBByPriority_inv hput
    obtain ⟨_, _, _, _, -, -, rfl⟩ := dequeuePCBFIFOByPriority_inv htake
    simp

/-- All that a call can do: what C gives no meaning to; or return an error and leave everything as it is; or set the
    priority, and then give way to a process that is at least as urgent, or not. -/
theorem kernelSetProcessPriority_inv (k : Kernel) (pid n : Nat) :
    kernelSetProcessPriority pid n k = .stuck ∨
      ¬k.Changes pid n ∧ kernelSetProcessPriority pid n k = .returned (rtxError, k) ∨
      k.Changes pid n ∧ ∃ k₁, PrioritySet k pid n k₁ ∧
        (kernelSetProcessPriority pid n k = .returned (rtxSuccess, k₁) ∨
          kernelSetProcessPriority pid n k = processSwitch k₁ >>= fun k => .returned (rtxSuccess, k)) := by
  by_cases h₀ : pid = 0 ∨ n = 4
  · exact Or.inr (Or.inl ⟨fun h => h.1 h₀, kernelSetProcessPriority_refused h₀⟩)
  cases hp : getPcb k pid with
  | none =>
    refine Or.inr (Or.inl ⟨?_, kernelSetProcessPriority_unknown h₀ hp⟩)
    rintro ⟨-, p, hp', -⟩
    cases hp.symm.trans hp'
  | some p =>
    have hch : k.Changes pid n ↔ p = k.currentPcb ∨ (k.pcbs p).state = .messageWait ∨ k.AtLevel (k.home p) p := by
      refine ⟨?_, fun h => ⟨h₀, p, hp, h⟩⟩
      rintro ⟨-, q, hq, h⟩
      cases hp.symm.trans hq
      exact h
    by_cases hcur : p = k.currentPcb
    · subst hcur
      refine Or.inr (Or.inr ⟨hch.mpr (Or.inl rfl), _, prioritySet_setPriority hp, ?_⟩)
      rw [kernelSetProcessPriority_self h₀ hp]
      split
      · exact Or.inl rfl
      · exact Or.inr rfl
    by_cases hmess : (k.pcbs p).state = .messageWait
    · exact Or.inr (Or.inr ⟨hch.mpr (Or.inr (Or.inl hmess)), _, prioritySet_setPriority hp,
        Or.inl (kernelSetProcessPriority_messageWait h₀ hp hcur hmess)⟩)
    have hch : k.Changes pid n ↔ k.AtLevel (k.home p) p := by simp [hch, hcur, hmess]
    rw [hch]
    by_cases hmem : (k.pcbs p).state = .memoryWait
    · rw [show k.home p = .memoryWait from if_pos hmem]
      rw [kernelSetProcessPriority_memoryWait h₀ hp hcur hmem]
      rcases movePCB_inv hp .memoryWait n fun k => .returned (rtxSuccess, k) with ho | ho | ⟨hat, k₁, hset, ho⟩
      · exact Or.inl ho
      · exact Or.inr (Or.inl ho)
      · exact Or.inr (Or.inr ⟨hat, k₁, hset, Or.inl ho⟩)
    · rw [show k.home p = .ready from if_neg hmem]
      rw [kernelSetProcessPriority_ready h₀ hp hcur hmem hmess]
      rcases movePCB_inv hp .ready n _ with ho | ho | ⟨hat, k₁, hset, ho⟩
      · exact Or.inl ho
      · exact Or.inr (Or.inl ho)
      · refine Or.inr (Or.inr ⟨hat, k₁, hset, ?_⟩)
        rw [ho]
        split
        · exact Or.inr rfl
        · exact Or.inl rfl

/-- What a call that returns tells: success when the priority has been set, an error when nothing has changed. -/
theorem kernelSetProcessPriority_returned (hs : kernelSetProcessPriority pid n k = .returned (r, k')) :
    k.Changes pid n ∧ r = rtxSuccess ∧ PrioritySet k pid n k' ∨ ¬k.Changes pid n ∧ r = rtxError ∧ k' = k := by
  rcases kernelSetProcessPriority_inv k pid n with ho | ⟨hch, ho⟩ | ⟨hch, k₁, hset, ho | ho⟩ <;> rw [hs] at ho
  · cases ho
  · cases ho
    exact Or.inr ⟨hch, rfl, rfl⟩
  · cases ho
    exact Or.inl ⟨hch, rfl, hset⟩
  · obtain ⟨k₂, hswitch, ho⟩ := Outcome.bind_eq_returned.mp ho.symm
    cases ho
    rw [(processSwitch_returned hswitch).2]
    exact Or.inl ⟨hch, rfl, hset⟩

/-- No priority changes but the one that is set. -/
theorem kernelSetProcessPriority_priority (hs : (kernelSetProcessPriority pid n k).last = some k') (q : PcbRef) :
    (k'.pcbs q).priority = (k.pcbs q).priority ∨ k.Changes pid n ∧ (k'.pcbs q).priority = n := by
  have hset : ∀ k₁, PrioritySet k pid n k₁ → (k₁.pcbs q).priority = (k.pcbs q).priority ∨ (k₁.pcbs q).priority = n :=
    fun k₁ h => by
      rw [h.priority]
      split
      · exact Or.inr rfl
      · exact Or.inl rfl
  rcases kernelSetProcessPriority_inv k pid n with ho | ⟨-, ho⟩ | ⟨hch, k₁, h₁, ho | ho⟩ <;> rw [ho] at hs
  · cases hs
  · cases hs
    exact Or.inl rfl
  · cases hs
    exact (hset _ h₁).imp_right fun h => ⟨hch, h⟩
  · rw [Outcome.last_bind] at hs
    rw [processSwitch_priority hs]
    exact (hset k₁ h₁).imp_right fun h => ⟨hch, h⟩

/-! ### Calls that change nothing -/

/-- In a well-formed state a call that changes nothing returns an error. -/
theorem Sound.kernelSetProcessPriority_unchanged (h : Sound k L) (hch : ¬k.Changes pid n) :
    kernelSetProcessPriority pid n k = .returned (rtxError, k) ∧ setPriorityIndices pid n k = [] := by
  unfold setPriorityIndices
  by_cases h₀ : pid = 0 ∨ n = 4
  · exact ⟨kernelSetProcessPriority_refused h₀, if_pos h₀⟩
  rw [if_neg h₀]
  cases hp : getPcb k pid with
  | none => exact ⟨kernelSetProcessPriority_unknown h₀ hp, rfl⟩
  | some p =>
    have hno : ¬(p = k.currentPcb ∨ (k.pcbs p).state = .messageWait ∨ k.AtLevel (k.home p) p) := fun hno =>
      hch ⟨h₀, p, hp, hno⟩
    simp only [not_or] at hno
    obtain ⟨hcur, hmess, hat⟩ := hno
    have hremove : removeElementByPriority p (k.home p) k = some (rtxError, k) := by
      unfold removeElementByPriority
      rw [dif_pos (Nat.lt_succ_of_le (h.priority p))]
      exact removeElement_of_not_mem h.rep fun hin => hat (h.rep.atLevel_iff.mpr ⟨_, rfl, hin⟩)
    simp only [if_neg hcur, if_neg hmess, moveIndices]
    by_cases hmem : (k.pcbs p).state = .memoryWait
    · rw [show k.home p = .memoryWait from if_pos hmem] at hremove
      rw [kernelSetProcessPriority_memoryWait h₀ hp hcur hmem, movePCB_missing hremove, hremove, if_pos hmem]
      exact ⟨rfl, rfl⟩
    · rw [show k.home p = .ready from if_neg hmem] at hremove
      rw [kernelSetProcessPriority_ready h₀ hp hcur hmem hmess, movePCB_missing hremove, hremove, if_neg hmem]
      exact ⟨rfl, rfl⟩

/-- A call for no process changes nothing, also when its word is the pid of the unused slots. -/
theorem Sound.not_changes (h : Sound k L) (hpid : pid = 0 ∨ ∀ p, k.Created p → p.val ≠ pid) : ¬k.Changes pid n := by
  rintro ⟨h₀, p, hp, hreach⟩
  have hno := hpid.resolve_left fun he => h₀ (Or.inl he)
  have hc : ¬k.Created p := fun hc => hno p hc (hc.symm.trans (getPcb_eq_some hp))
  obtain ⟨hmess, hun⟩ := h.unused p hc
  rcases hreach with rfl | hst | hat
  · exact hc h.current
  · exact hmess hst
  · obtain ⟨i, -, hin⟩ := h.rep.atLevel_iff.mp hat
    exact hun _ hin

/-! ### The indices -/

theorem mem_switchIndices {i : Nat} (hi : i ∈ switchIndices k) : i = k.current.priority := by
  unfold switchIndices at hi
  split at hi
  · split at hi
    next htake =>
      obtain ⟨_, _, _, _, -, -, rfl⟩ := dequeuePCBFIFOByPriority_inv htake
      rw [List.mem_singleton.mp hi, Kernel.setQueue_current]
    next => cases hi
  · cases hi

/-- A PCB is entered outside the subqueues by a `process_switch` to which C gives no meaning. -/
theorem processSwitch_of_switchIndices {i : Nat} (hi : i ∈ switchIndices k) (hpast : numPrio < i) :
    processSwitch k = .stuck := by
  have hcur := mem_switchIndices hi
  cases ho : processSwitch k with
  | returned k₁ =>
    unfold switchIndices at hi
    rw [if_neg (Nat.not_le_of_lt (processSwitch_returned ho).1)] at hi
    cases hi
  | switched k₁ =>
    obtain ⟨-, p, k₁, k₂, htake, hput, -⟩ := processSwitch_inv ho
    obtain ⟨_, _, _, _, -, -, rfl⟩ := dequeuePCBFIFOByPriority_inv htake
    have hle : k.current.priority ≤ numPrio := by simpa [Kernel.current] using (enqueuePCBByPriority_inv hput).1
    exact absurd (hcur ▸ hpast) (Nat.not_lt_of_le hle)
  | stuck => rfl

/-- A moved PCB is entered at the priority that is set, and the others after the move. -/
theorem mem_moveIndices {rest : Kernel → List Nat} {i : Nat} (hi : i ∈ moveIndices w p n rest k) :
    ∃ k₁, removeElementByPriority p w k = some (rtxSuccess, k₁) ∧
      (i = n ∨ ∃ k₂, enqueuePCBByPriority w p (k₁.setPriority p n) = some k₂ ∧ i ∈ rest k₂) := by
  unfold moveIndices at hi
  rcases hremove : removeElementByPriority p w k with _ | ⟨v, k₁⟩ <;> rw [hremove] at hi
  · cases hi
  · simp only at hi
    rcases removeElementByPriority_atLevel hremove with ⟨-, rfl⟩ | ⟨-, rfl, -⟩
    · refine ⟨k₁, rfl, ?_⟩
      rw [if_neg (by decide)] at hi
      rcases List.mem_cons.mp hi with hi | hi
      · exact Or.inl hi
      · cases hput : enqueuePCBByPriority w p (k₁.setPriority p n) with
        | none =>
          rw [hput] at hi
          cases hi
        | some k₂ =>
          rw [hput] at hi
          exact Or.inr ⟨k₂, rfl, hi⟩
    · rw [if_pos rfl] at hi
      cases hi

theorem movePCB_stuck {rest : Kernel → List Nat} {f : Kernel → Outcome (Nat × Kernel)} {i : Nat}
    (hi : i ∈ moveIndices w p n rest k) (hpast : numPrio < i) (hf : ∀ k₂, i ∈ rest k₂ → f k₂ = .stuck) :
    movePCB p w n f k = .stuck := by
  obtain ⟨k₁, hremove, hi⟩ := mem_moveIndices hi
  rcases movePCB_cases p w n f k with ho | ⟨k₃, hmissing, -⟩ | ⟨r, k₃, k₂, hmoved, -, hput, ho⟩
  · exact ho
  · cases hremove.symm.trans hmissing
  · cases hremove.symm.trans hmoved
    have hle : n ≤ numPrio := by simpa using (enqueuePCBByPriority_inv hput).1
    rcases hi with rfl | ⟨k₃, hput', hi⟩
    · exact absurd hpast (Nat.not_lt_of_le hle)
    · cases hput.symm.trans hput'
      exact ho.trans (hf k₂ hi)

/-- A call that enters a PCB outside the subqueues is one to which C gives no meaning. -/
theorem kernelSetProcessPriority_of_index {i : Nat} (hi : i ∈ setPriorityIndices pid n k) (hpast : numPrio < i) :
    kernelSetProcessPriority pid n k = .stuck := by
  unfold setPriorityIndices at hi
  split at hi
  · cases hi
  next h₀ =>
  split at hi
  · cases hi
  next p hp =>
  split at hi
  next hcur =>
    subst hcur
    split at hi
    · cases hi
    next hlt =>
      rw [kernelSetProcessPriority_self h₀ hp, if_neg (show ¬n ≤ k.current.priority from hlt),
        processSwitch_of_switchIndices hi hpast]
      rfl
  next hcur =>
  split at hi
  next hmem =>
    rw [kernelSetProcessPriority_memoryWait h₀ hp hcur hmem]
    exact movePCB_stuck hi hpast fun _ hi => absurd hi List.not_mem_nil
  next hmem =>
  split at hi
  · cases hi
  next hmess =>
    rw [kernelSetProcessPriority_ready h₀ hp hcur hmem hmess]
    refine movePCB_stuck hi hpast fun k₂ hi => ?_
    split at hi
    next hlt =>
      rw [if_pos hlt, processSwitch_of_switchIndices hi hpast]
      rfl
    next => cases hi

/-- A PCB is entered at the priority that is set, or it is the running one. -/
theorem mem_setPriorityIndices {i : Nat} (hi : i ∈ setPriorityIndices pid n k) : i = n ∨ i = k.current.priority := by
  unfold setPriorityIndices at hi
  split at hi
  · cases hi
  split at hi
  · cases hi
  next p hp =>
  split at hi
  next hcur =>
    split at hi
    · cases hi
    · rw [mem_switchIndices hi, hcur]
      exact Or.inl (by simp [Kernel.current])
  next hcur =>
  split at hi
  · obtain ⟨-, -, hi | ⟨-, -, hi⟩⟩ := mem_moveIndices hi
    · exact Or.inl hi
    · cases hi
  split at hi
  · cases hi
  · obtain ⟨k₁, hremove, hi | ⟨k₂, hput, hi⟩⟩ := mem_moveIndices hi
    · exact Or.inl hi
    · split at hi
      · have hset := prioritySet_move hp hremove hput
        rw [mem_switchIndices hi, Kernel.current, hset.priority, hset.currentPcb]
        split
        · exact Or.inl rfl
        · exact Or.inr rfl
      · cases hi

/-! ### The trap -/

theorem swiTrapHandler_setProcessPriority (k : Kernel) (pid prio : Nat) :
    swiTrapHandler ((Call.setProcessPriority pid prio).enter k) =
      kernelSetProcessPriority pid (prio % 2 ^ 8) ((Call.setProcessPriority pid prio).enter k) >>= fun r =>
        .returned { r.2 with retCode := r.1 } :=
  swiTrapHandler_setPrio rfl

/-- The trap handler leaves the PCBs as the primitive has left them. -/
theorem setProcessPriority_last (hs : (swiTrapHandler ((Call.setProcessPriority pid prio).enter k)).kernel? = some k') :
    ∃ k₁, (kernelSetProcessPriority pid (prio % 2 ^ 8) ((Call.setProcessPriority pid prio).enter k)).last = some k₁ ∧
      k'.pcbs = k₁.pcbs := by
  rw [swiTrapHandler_setProcessPriority] at hs
  rcases Outcome.kernel?_eq_some.mp hs with hs | hs
  · obtain ⟨⟨r, k₁⟩, ho, hs⟩ := Outcome.bind_eq_returned.mp hs
    cases hs
    exact ⟨k₁, by rw [ho]; rfl, rfl⟩
  · rcases Outcome.bind_eq_switched.mp hs with ho | ⟨o, -, hs⟩
    · exact ⟨k', by rw [ho]; rfl, rfl⟩
    · cases hs

/-- What a wrapper stores before its trap is none of the scheduler's data. -/
theorem Sound.enter (h : Sound k L) (c : Call) : Sound (c.enter k) L := by
  cases c <;> exact ⟨h.rep.congr rfl rfl, h.table, h.current, h.priority, h.unused⟩

theorem changes_enter (c : Call) : (c.enter k).Changes pid n ↔ k.Changes pid n := by cases c <;> rfl

/-- A call that changes nothing returns an error, with the kernel as it was, and enters no PCB. -/
theorem Sound.setProcessPriority_unchanged (h : Sound k L) (hch : ¬k.Changes pid (prio % 2 ^ 8)) :
    swiTrapHandler ((Call.setProcessPriority pid prio).enter k) =
        .returned { (Call.setProcessPriority pid prio).enter k with retCode := rtxError } ∧
      setPriorityIndices pid (prio % 2 ^ 8) ((Call.setProcessPriority pid prio).enter k) = [] := by
  obtain ⟨hcall, hindices⟩ :=
    (h.enter (.setProcessPriority pid prio)).kernelSetProcessPriority_unchanged fun hc => hch ((changes_enter _).mp hc)
  refine ⟨?_, hindices⟩
  rw [swiTrapHandler_setProcessPriority, hcall]
  rfl

/-- A call that returns an error has changed nothing. -/
theorem not_changes_of_rtxError
    (hs : swiTrapHandler ((Call.setProcessPriority pid prio).enter k) = .returned k') (hr : k'.retCode = rtxError) :
    ¬k.Changes pid (prio % 2 ^ 8) := by
  intro hch
  rw [swiTrapHandler_setProcessPriority] at hs
  obtain ⟨⟨r, k₁⟩, ho, hs⟩ := Outcome.bind_eq_returned.mp hs
  cases hs
  rcases kernelSetProcessPriority_returned ho with ⟨-, he, -⟩ | ⟨hno, -⟩
  · exact absurd (hr.symm.trans he) (by decide)
  · exact hno ((changes_enter _).mpr hch)

/-- Only a call that changes something gives a PCB another priority, and then it gives it the byte of the word. -/
theorem priority_setProcessPriority (hs : (swiTrapHandler ((Call.setProcessPriority pid prio).enter k)).kernel? = some k')
    (hne : (k'.pcbs p).priority ≠ (k.pcbs p).priority) :
    (k'.pcbs p).priority = prio % 2 ^ 8 ∧ k.Changes pid (prio % 2 ^ 8) := by
  obtain ⟨k₁, hlast, hpcbs⟩ := setProcessPriority_last hs
  rw [hpcbs] at hne ⊢
  rcases kernelSetProcessPriority_priority hlast p with he | ⟨hch, he⟩
  · exact absurd he hne
  · exact ⟨he, (changes_enter _).mp hch⟩

/-- The call is handled as it should be exactly when the word is one of the four priorities, or the call changes
    nothing at all. -/
theorem setProcessPriority_guarded_iff (h : Sound k L) :
    Guarded k pid prio ↔ prio ≤ Priority.lowest ∨ ¬k.Changes pid (prio % 2 ^ 8) := by
  constructor
  · intro hg
    by_cases hprio : prio ≤ Priority.lowest
    · exact Or.inl hprio
    · obtain ⟨k', hs, hr, -⟩ := hg.refused (Or.inr (Or.inr (Nat.lt_of_not_le hprio)))
      exact Or.inr (not_changes_of_rtxError hs hr)
  · intro hcond
    refine ⟨fun hwrong => ?_, fun i hi => ?_, fun k' hs p hne => ?_⟩
    · have hch : ¬k.Changes pid (prio % 2 ^ 8) := by
        rcases hcond with hprio | hch
        · refine h.not_changes ?_
          rcases hwrong with h₀ | hno | hlt
          · exact Or.inl h₀
          · exact Or.inr hno
          · exact absurd hprio (Nat.not_le_of_lt hlt)
        · exact hch
      exact ⟨_, (h.setProcessPriority_unchanged hch).1, rfl, rfl, rfl, rfl, rfl, rfl, rfl, rfl, rfl⟩
    · rcases hcond with hprio | hch
      · rcases mem_setPriorityIndices hi with rfl | rfl
        · exact Nat.le_trans (Nat.mod_le _ _) (Nat.le_trans hprio (by decide))
        · exact (h.enter _).priority _
      · rw [(h.setProcessPriority_unchanged hch).2] at hi
        cases hi
    · obtain ⟨he, hch⟩ := priority_setProcessPriority hs hne
      have hle : prio ≤ Priority.lowest := hcond.resolve_right fun hno => hno hch
      rw [he]
      exact Nat.lt_of_le_of_lt (Nat.mod_le _ _) (Nat.lt_of_le_of_lt hle (by decide))

end

/-! ### After the start -/

theorem Booted.sound {img : Layout} {k : Kernel} (h : Booted img k) : Sound k bootContents where
  rep := h.started.rep
  table := h.tableOk
  current := h.started.created_current
  priority p := by
    by_cases hi : IProcess p
    · rw [h.started.iProcess p hi]
      exact (by decide : Priority.low ≤ numPrio)
    by_cases hp : p ∈ readyProcesses.map Prod.fst
    · obtain ⟨x, hx, rfl⟩ := List.mem_map.mp hp
      rw [h.started.pcb x hx]
      exact (show ∀ x ∈ readyProcesses, x.2 ≤ numPrio by decide) x hx
    · rw [(h.started.unused p hi hp).1, (initFreeMemory_frame img zeroed).1]
      exact Nat.zero_le _
  unused p hc := by
    obtain ⟨hi, hp⟩ := not_or.mp (mt h.started.created_iff.mpr hc)
    refine ⟨?_, fun s hs => hp ?_⟩
    · rw [(h.started.unused p hi hp).1, (initFreeMemory_frame img zeroed).1]
      exact fun he => nomatch he
    · exact (show ∀ s, ∀ p ∈ bootContents s, p ∈ readyProcesses.map Prod.fst by decide) s p hs

/-- After the start the CRT process is given the lowest of the four priorities. -/
theorem setProcessPriority_guarded_lowest : ∃ k, boot rtosMap = .switched k ∧ Guarded k crtPid.val Priority.lowest := by
  obtain ⟨k, hboot, h⟩ := boot_spec rtosMap
  exact ⟨k, hboot, (setProcessPriority_guarded_iff h.sound).mpr (Or.inl (Nat.le_refl _))⟩

/-- After the start the wall clock process gives itself priority 6 and is entered past the last subqueue. -/
theorem setProcessPriority_past_levels :
    ∃ k, boot rtosMap = .switched k ∧ Sound k bootContents ∧
      setPriorityIndices wcPid.val 6 ((Call.setProcessPriority wcPid.val 6).enter k) = [6] ∧ ¬Guarded k wcPid.val 6 := by
  have hrun : ((boot rtosMap).kernel?.any fun k =>
      decide (setPriorityIndices wcPid.val 6 ((Call.setProcessPriority wcPid.val 6).enter k) = [6])) = true := by
    decide +kernel
  obtain ⟨k, hboot, h⟩ := boot_spec rtosMap
  rw [hboot] at hrun
  have hindices : setPriorityIndices wcPid.val 6 ((Call.setProcessPriority wcPid.val 6).enter k) = [6] :=
    of_decide_eq_true hrun
  refine ⟨k, hboot, h.sound, hindices, fun hg => ?_⟩
  exact absurd (hg.indices 6 (hindices ▸ List.mem_singleton_self 6)) (by decide)

end DoorRtos
