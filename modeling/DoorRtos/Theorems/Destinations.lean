import DoorRtos.Reachable
import DoorRtos.Runs
import DoorRtos.Theorems.Boot
import DoorRtos.Theorems.Preemption
import DoorRtos.Theorems.Stores

/-! Where a message goes. `get_pcb` looks for the first slot that carries a pid, and the slots that are not in use carry
    a pid as well. -/

namespace DoorRtos
open Linked

/-- What `kernel_send_message` does once the envelope is in the mailbox: a receiver that waits is woken. -/
def wakeReceiver (destination : PcbRef) (sourcePID : Nat) (k : Kernel) : Outcome (Nat × Kernel) := do
  if (k.pcbs destination).state = .messageWait then
    let k := k.setState destination .ready
    let k ← enqueuePCBByPriority .ready destination k
    let source ← getPcb k sourcePID
    if (k.pcbs destination).priority > (k.pcbs source).priority ∧ ¬k.inIProcess then
      let (nextPcb, k) ← dequeuePCBFIFOByPriority .ready k
      contextSwitch nextPcb k
    else return (rtxSuccess, k)
  else return (rtxSuccess, k)

/-- The envelope `e` has become the newest message in the mailbox of `d`, and the other mailboxes are as before. -/
structure Appended (k k' : Kernel) (d : PcbRef) (e : Addr) : Prop where
  here : ∀ l, Queue.Holds k.messNext (k.mQueues d) l → e ∉ l → Queue.Holds k'.messNext (k'.mQueues d) (e :: l)
  others : ∀ p, p ≠ d → k'.mQueues p = k.mQueues p
  kept : ∀ p l, p ≠ d → Queue.Holds k.messNext (k.mQueues p) l → e ∉ l → Queue.Holds k'.messNext (k'.mQueues p) l

/-- The call appends the envelope to the mailbox of `d` before all else, and however it ends the mailboxes keep it. -/
structure Appends (k : Kernel) (pid : Nat) (e : Addr) (d : PcbRef) : Prop where
  first : kernelSendMessage pid e k = wakeReceiver d k.current.pid (k.delivered pid e d)
  appended : Appended k (k.delivered pid e d) d e
  last : ∀ k', (kernelSendMessage pid e k).last = some k' → Appended k k' d e

/-- The call returns `RTX_ERROR`, and the PCBs, the mailboxes and the queues are as before. -/
def Refuses (k : Kernel) (pid : Nat) (e : Addr) : Prop :=
  ∃ k', kernelSendMessage pid e k = .returned (rtxError, k') ∧ k'.pcbs = k.pcbs ∧ k'.pcbNext = k.pcbNext ∧
    k'.queue = k.queue ∧ k'.messNext = k.messNext ∧ k'.mQueues = k.mQueues ∧
    k'.delayedSendQueue = k.delayedSendQueue ∧ k'.blockNext = k.blockNext ∧ k'.freeMemQ = k.freeMemQ

/-- A message to `pid` goes to the process with that pid or, when there is none, is refused, and the mailbox pointer
    that is followed is that of an initialised slot. -/
structure Routed (k : Kernel) (pid : Nat) (e : Addr) : Prop where
  process : ∀ d, k.Created d → d.val = pid → Appends k pid e d
  nobody : (∀ d, k.Created d → d.val ≠ pid) → Refuses k pid e
  initialised : ∀ d, getPcb k pid = some d → k.Created d

/-- The process table as `start_scheduler` sets it up. -/
structure TableSet (k : Kernel) : Prop where
  tableOk : k.TableOk
  messQueue : ∀ p, k.Created p → (k.pcbs p).messQueue = some p
  unused : ∃ p, (k.pcbs p).pid = dummyPid

/-- The slots carry the same pids and the same mailboxes. -/
def SameTable (k k' : Kernel) : Prop :=
  ∀ p, (k'.pcbs p).pid = (k.pcbs p).pid ∧ (k'.pcbs p).messQueue = (k.pcbs p).messQueue

section
variable {k k' k₁ k₀ : Kernel} {d mq : PcbRef} {e : Addr} {pid : Nat} {c : Call}

/-! ### The table in every reachable state -/

theorem SameTable.of_pcbs (h : k'.pcbs = k.pcbs) : SameTable k k' := fun p => by
  rw [h]
  exact ⟨rfl, rfl⟩

theorem SameTable.trans (h : SameTable k k₁) (h' : SameTable k₁ k') : SameTable k k' := fun p =>
  ⟨(h' p).1.trans (h p).1, (h' p).2.trans (h p).2⟩

theorem Rescheduled.sameTable (h : Rescheduled k k') : SameTable k k' := fun p => ⟨h.pid p, h.messQueue p⟩

theorem SameTable.created_iff (h : SameTable k k') : k'.Created p ↔ k.Created p := by
  unfold Kernel.Created
  rw [(h p).1]

theorem TableSet.congr (h : TableSet k) (hsame : SameTable k k') : TableSet k' := by
  have hc : ∀ p, k'.Created p ↔ k.Created p := fun p => hsame.created_iff
  refine ⟨fun p => ?_, fun p hp => ?_, ?_⟩
  · rw [hc, (hsame p).1]
    exact h.tableOk p
  · rw [(hsame p).2]
    exact h.messQueue p ((hc p).mp hp)
  · obtain ⟨p, hp⟩ := h.unused
    exact ⟨p, (hsame p).1.trans hp⟩

theorem Sends.pcbs (h : Sends k pid e k₁) : k₁.pcbs = k.pcbs := by
  rcases h with ⟨-, rfl⟩ | ⟨d, mq, -, -, rfl⟩ <;> rfl

theorem Stores.pcbs (h : Stores k c k₁) : k₁.pcbs = k.pcbs := by
  cases c with
  | releaseProcessor => exact congrArg Kernel.pcbs h
  | sendMessage processID envelope =>
    obtain ⟨b, -, h⟩ := h
    exact h.pcbs
  | receiveMessage senderID => cases h
  | requestMemoryBlock => cases h
  | releaseMemoryBlock memoryBlock =>
    obtain ⟨b, -, rfl⟩ := h
    rfl
  | delayedSend processID envelope delay =>
    obtain ⟨b, -, ⟨-, rfl⟩ | ⟨-, h⟩ | ⟨hpos, r, ho⟩⟩ := h
    · rfl
    · exact h.pcbs
    · rcases kernelDelayedSend_cases processID b (toInt delay) k with ⟨hlt, -⟩ | ⟨hzero, -⟩ |
        ⟨-, n, ptr, prev, -, ho'⟩ | ho'
      · omega
      · omega
      · cases ho.symm.trans ho'
        exact (linkDelayed_frame b n ptr prev (k.marked processID b)).1
      · cases ho.symm.trans ho'
  | setProcessPriority processID priority => exact congrArg Kernel.pcbs h
  | getProcessPriority processID => exact congrArg Kernel.pcbs h

theorem kernelReceiveMessage_sameTable (hs : (kernelReceiveMessage k).last = some k') : SameTable k k' := by
  rcases Outcome.last_eq_some.mp hs with ⟨o, ho⟩ | ho
  · obtain ⟨mq, -, ⟨-, -, rfl⟩ | ⟨-, next, q, -, rfl⟩⟩ := kernelReceiveMessage_returned ho
    · exact .of_pcbs rfl
    · exact .of_pcbs rfl
  · obtain ⟨mq, -, -, hrun⟩ := kernelReceiveMessage_switched ho
    have hstate := Rescheduled.setState { k with msgReturn := false } k.currentPcb .messageWait
    exact (SameTable.of_pcbs (k := k) rfl).trans (hstate.trans (runNext_rescheduled hrun)).sameTable

theorem kernelRequestMemoryBlock_sameTable (hs : (kernelRequestMemoryBlock k).last = some k') : SameTable k k' := by
  rcases Outcome.last_eq_some.mp hs with ⟨o, ho⟩ | ho
  · obtain ⟨next, q, -, rfl, -⟩ := kernelRequestMemoryBlock_returned ho
    exact .of_pcbs rfl
  · obtain ⟨next, q, k₁, -, hput, hrun⟩ := kernelRequestMemoryBlock_switched ho
    have hstate := Rescheduled.setState { k with blockNext := next, freeMemQ := q } k.currentPcb .memoryWait
    exact (SameTable.of_pcbs (k := k) rfl).trans
      ((hstate.trans (enqueuePCBByPriority_rescheduled hput)).trans (runNext_rescheduled hrun)).sameTable

theorem receiveMessage_sameTable (hcode : k.kernelCode = KernelCode.receiveMessage)
    (hs : (swiTrapHandler k).kernel? = some k') : SameTable k k' := by
  rw [swiTrapHandler_receiveMessage hcode, Outcome.kernel?_bind_snd] at hs
  exact kernelReceiveMessage_sameTable hs

theorem call_sameTable (hs : (swiTrapHandler (c.enter k)).kernel? = some k') : SameTable k k' := by
  have henter : SameTable k (c.enter k) := .of_pcbs (by cases c <;> rfl)
  by_cases hc : ∃ senderID, c = .receiveMessage senderID
  · obtain ⟨senderID, rfl⟩ := hc
    exact henter.trans (receiveMessage_sameTable rfl hs)
  by_cases hr : c = .requestMemoryBlock
  · subst hr
    rw [swiTrapHandler_requestMemory rfl] at hs
    obtain ⟨k₁, hlast, hres⟩ := last_of_store hs
    exact (henter.trans (kernelRequestMemoryBlock_sameTable hlast)).trans hres.sameTable
  · obtain ⟨k₁, hstores, hres⟩ := call_stores (fun senderID he => hc ⟨senderID, he⟩) hr hs
    exact (henter.trans (.of_pcbs hstores.pcbs)).trans hres.sameTable

theorem timerInsert_sameTable (hs : (timerInsert e k).kernel? = some k') : SameTable k k' := by
  unfold timerInsert at hs
  cases hseek : seekDelay k addressSpace (k.mess e).delay k.delayedSendQueue.head none with
  | none =>
    rw [hseek] at hs
    cases hs
  | some r =>
    rw [hseek] at hs
    cases hs
    exact .of_pcbs (linkDelayed_frame e r.1 r.2.1 r.2.2 _).1

theorem Deed.sameTable {deed : Deed} (hs : deed.after k = some k') : SameTable k k' := by
  cases deed with
  | call c => exact call_sameTable hs
  | receiveAgain =>
    exact (SameTable.of_pcbs (k := k) rfl).trans
      (receiveMessage_sameTable (k := { k with kernelCode := KernelCode.receiveMessage }) rfl hs)
  | interrupt i =>
    have hs : (i.handler k).kernel? = some k' := hs
    rw [handler_eq] at hs
    obtain ⟨k₁, hput, rfl⟩ := interruptHandler_inv hs
    exact (SameTable.of_pcbs (k := k) rfl).trans (enqueuePCBByPriority_rescheduled hput).sameTable
  | timerReceive =>
    obtain ⟨k₁, hlast, rfl⟩ := Option.map_eq_some_iff.mp hs
    exact (kernelReceiveMessage_sameTable hlast).trans (.of_pcbs rfl)
  | timerInsert e => exact timerInsert_sameTable hs
  | timerTake =>
    cases hs
    exact .of_pcbs rfl
  | timerSend processID e =>
    obtain ⟨k₁, hsends, hres⟩ := kernelSendMessage_stores hs
    exact (SameTable.of_pcbs hsends.pcbs).trans hres.sameTable

theorem Started.tableSet (h : Started k₀ k) : TableSet k where
  tableOk := h.tableOk
  messQueue p hc := h.messQueue hc
  unused := by
    refine ⟨4, ?_⟩
    rw [(h.unused 4 (by decide) (by decide)).1]

/-! ### Sending -/

theorem kernelSendMessage_eq (hd : getPcb k pid = some d) (hmq : (k.pcbs d).messQueue = some mq) :
    kernelSendMessage pid e k = wakeReceiver d k.current.pid (k.delivered pid e mq) := by
  unfold wakeReceiver
  rw [delivered_pcbs]
  by_cases hst : (k.pcbs d).state = .messageWait
  · rw [if_pos hst, kernelSendMessage_wake hd hmq hst]
  · rw [if_neg hst, kernelSendMessage_deliver hd hmq hst]
    rfl

theorem delivered_appended (k : Kernel) (pid : Nat) (e : Addr) (d : PcbRef) : Appended k (k.delivered pid e d) d e where
  here l hl he := by
    rw [show (k.delivered pid e d).mQueues d = ((k.mQueues d).push k.messNext e).2 from Function.update_self ..]
    exact hl.push he
  others p hp := Function.update_of_ne hp _ _
  kept p l hp hl he := by
    rw [show (k.delivered pid e d).mQueues p = k.mQueues p from Function.update_of_ne hp _ _]
    exact hl.congr fun x hx => Queue.push_of_ne fun hxe => he (hxe ▸ hx)

theorem Appended.congr (h : Appended k k₁ d e) (hnext : k'.messNext = k₁.messNext) (hq : k'.mQueues = k₁.mQueues) :
    Appended k k' d e := by
  obtain ⟨here, others, kept⟩ := h
  constructor
  · rw [hnext, hq]
    exact here
  · rw [hq]
    exact others
  · rw [hnext, hq]
    exact kept

theorem TableSet.getPcb (h : TableSet k) (hc : k.Created d) : getPcb k d.val = some d := by
  have hget := getPcb_of_created h.tableOk hc
  rwa [show (k.pcbs d).pid = d.val from hc] at hget

theorem TableSet.appends (h : TableSet k) (hc : k.Created d) (e : Addr) : Appends k d.val e d where
  first := kernelSendMessage_eq (h.getPcb hc) (h.messQueue d hc)
  appended := delivered_appended k d.val e d
  last k' hlast := by
    obtain ⟨k₁, ⟨hnone, -⟩ | ⟨d', mq, hd', hmq, rfl⟩, hres⟩ := kernelSendMessage_stores hlast
    · cases hnone.symm.trans (h.getPcb hc)
    · cases hd'.symm.trans (h.getPcb hc)
      cases hmq.symm.trans (h.messQueue d hc)
      exact (delivered_appended k d.val e d).congr hres.messNext hres.mQueues

theorem refuses_of_getPcb (h : getPcb k pid = none) : Refuses k pid e :=
  ⟨_, kernelSendMessage_unknown h, rfl, rfl, rfl, rfl, rfl, rfl, rfl, rfl⟩

theorem TableSet.dummy (h : TableSet k) : ∃ d, DoorRtos.getPcb k dummyPid = some d ∧ ¬k.Created d := by
  obtain ⟨p, hp⟩ := h.unused
  obtain ⟨d, hd⟩ := Option.isSome_iff_exists.mp (getPcb_isSome k p)
  rw [hp] at hd
  refine ⟨d, hd, fun hc => ?_⟩
  have hval : d.val = dummyPid := hc.symm.trans (getPcb_eq_some hd)
  exact absurd (hval ▸ d.isLt) (by decide)

theorem TableSet.routed_iff (h : TableSet k) : Routed k pid e ↔ pid ≠ dummyPid := by
  constructor
  · rintro hr rfl
    obtain ⟨d, hd, hc⟩ := h.dummy
    exact hc (hr.initialised d hd)
  · intro hpid
    have hcreated : ∀ d, DoorRtos.getPcb k pid = some d → k.Created d ∧ d.val = pid := fun d hd => by
      have hslot := getPcb_eq_some hd
      rcases h.tableOk d with hc | hdummy
      · exact ⟨hc, hc.symm.trans hslot⟩
      · exact absurd (hslot.symm.trans hdummy) hpid
    refine ⟨?_, fun hno => ?_, fun d hd => (hcreated d hd).1⟩
    · rintro d hc rfl
      exact h.appends hc e
    · cases hd : DoorRtos.getPcb k pid with
      | none => exact refuses_of_getPcb hd
      | some d => exact absurd (hcreated d hd).2 (hno d (hcreated d hd).1)

theorem TableSet.throughout (h : TableSet k) (deeds : List Deed) : Runs.Throughout Deed.after TableSet k deeds :=
  Runs.throughout_of_preserved (fun _ _ _ hI hs => hI.congr (Deed.sameTable hs)) h

end

/-- In every state reachable after the start, exactly the messages to the dummy pid are not routed. -/
theorem sendMessage_routed (k₀ : Kernel) :
    ∃ k, startScheduler k₀ = .switched k ∧ ∀ deeds : List Deed,
      Runs.Throughout Deed.after (fun k => ∀ pid e, Routed k pid e ↔ pid ≠ dummyPid) k deeds := by
  obtain ⟨k, hs, h⟩ := startScheduler_spec k₀
  refine ⟨k, hs, fun deeds => ?_⟩
  exact (h.tableSet.throughout deeds).imp fun k hk pid e => hk.routed_iff

/-- A message to the dummy pid finds slot 4, and the mailbox pointer there is `NULL`. -/
theorem sendMessage_to_dummy :
    ∃ k, boot rtosMap = .switched k ∧ ¬Routed k dummyPid firstBlock ∧ getPcb k dummyPid = some 4 ∧
      kernelSendMessage dummyPid firstBlock k = .stuck := by
  obtain ⟨k, hs, h⟩ := boot_spec rtosMap
  have hslot : ((boot rtosMap).kernel?.any fun k => decide (getPcb k dummyPid = some 4)) = true := by decide +kernel
  rw [hs] at hslot
  have hget : getPcb k dummyPid = some 4 := of_decide_eq_true hslot
  have hc : ¬k.Created 4 := by
    rw [h.started.created_iff]
    decide
  exact ⟨k, hs, fun hr => hc (hr.initialised 4 hget), hget, kernelSendMessage_stuck hget (h.unused 4 hc).1⟩

end DoorRtos
