import DoorRtos.Ensemble
import DoorRtos.Theorems.Blocks
import DoorRtos.Theorems.Destinations

/-! What a system call of a process does to the senders of the messages, and what the statement that makes the call does in
    the network. -/

namespace DoorRtos
open Interaction Network

/-- The envelope that a call marks with its sender. -/
def Call.envelope : Call → Option Addr
  | sendMessage _ e | delayedSend _ e _ => toPtr e
  | _ => none

def Local.drop (l : Local) : Option Addr → Local
  | some b => l.give b
  | none => l

section
variable {k k' k₁ : Kernel} {pid : Nat} {e x b : Addr} {c : Call} {op : ClockOp} {pids : PcbRef → Nat} {l : Local}
  {p : PcbRef}

/-! ### The kernel -/

theorem setMess_sender (pid dest : Nat) :
    ((k.setMess e { k.mess e with senderPid := pid, destPid := dest }).mess x).senderPid =
      if e = x then pid else (k.mess x).senderPid := by
  rw [setMess_mess]
  by_cases hx : x = e
  · rw [if_pos hx, if_pos hx.symm]
  · rw [if_neg hx, if_neg fun h => hx h.symm]

theorem Sends.senderPid (hs : Sends k pid e k₁) :
    (k₁.mess x).senderPid = if e = x then k.current.pid else (k.mess x).senderPid := by
  rcases hs with ⟨-, rfl⟩ | ⟨d, mq, -, -, rfl⟩
  · exact setMess_sender _ _
  · exact setMess_sender _ _

theorem Stores.senderPid (hs : Stores k c k₁) :
    (k₁.mess x).senderPid = if c.envelope = some x then k.current.pid else (k.mess x).senderPid := by
  cases c with
  | sendMessage processID envelope =>
    obtain ⟨e, he, hsends⟩ := hs
    rw [hsends.senderPid, Call.envelope, he]
    simp only [Option.some.injEq]
  | delayedSend processID envelope delay =>
    obtain ⟨e, he, ⟨-, rfl⟩ | ⟨-, hsends⟩ | ⟨hpos, r, ho⟩⟩ := hs
    · rw [Call.envelope, he]
      simp only [Option.some.injEq]
      exact setMess_sender _ _
    · rw [hsends.senderPid, Call.envelope, he]
      simp only [Option.some.injEq]
      split
      next => rfl
      next hx => exact (setMess_sender _ _).trans (if_neg hx)
    · rcases kernelDelayedSend_cases processID e (toInt delay) k with ⟨hlt, -⟩ | ⟨hzero, -⟩ |
        ⟨-, d, ptr, prevPtr, -, ho'⟩ | ho'
      · omega
      · omega
      · rw [ho'] at ho
        cases ho
        rw [linkDelayed_mess, Call.envelope, he]
        simp only [Option.some.injEq]
        exact setMess_sender _ _
      · rw [ho'] at ho
        cases ho
  | releaseMemoryBlock memoryBlock =>
    obtain ⟨b, -, rfl⟩ := hs
    rfl
  | requestMemoryBlock => exact hs.elim
  | receiveMessage senderID => exact hs.elim
  | releaseProcessor =>
    cases hs
    rfl
  | setProcessPriority processID priority =>
    cases hs
    rfl
  | getProcessPriority processID =>
    cases hs
    rfl

/-- A call marks its envelope with the pid of the running process, and leaves the senders of all others alone. -/
theorem call_senderPid (hc : ∀ senderID, c ≠ .receiveMessage senderID) (hi : k.inIProcess = false)
    (hs : (swiTrapHandler (c.enter k)).kernel? = some k') :
    (k'.mess x).senderPid = if c.envelope = some x then k.current.pid else (k.mess x).senderPid := by
  have henter := enter_rescheduled c k
  have hcur : (c.enter k).current.pid = k.current.pid := by
    unfold Kernel.current
    rw [enter_currentPcb, henter.pid]
  by_cases hr : c = .requestMemoryBlock
  · subst hr
    show _ = (k.mess x).senderPid
    have hmess : k'.mess = k.mess := by
      rcases Outcome.kernel?_eq_some.mp hs with ho | ho
      · obtain ⟨b, next, q, -, rfl⟩ := requestMemoryBlock_returned (k := Call.requestMemoryBlock.enter k) rfl hi ho
        rfl
      · obtain ⟨next, q, -, hres⟩ := requestMemoryBlock_switched (k := Call.requestMemoryBlock.enter k) rfl ho
        exact hres.mess
    rw [hmess]
  · obtain ⟨k₁, hstores, hres⟩ := call_stores hc hr hs
    rw [hres.mess, hstores.senderPid, hcur, henter.mess]

theorem receive_mess (hcode : k.kernelCode = KernelCode.receiveMessage) (hi : k.inIProcess = false)
    (hs : (swiTrapHandler k).kernel? = some k') : k'.mess = k.mess := by
  rcases Outcome.kernel?_eq_some.mp hs with ho | ho
  · obtain ⟨mq, -, -, e, next, q, -, rfl⟩ := receiveMessage_returned hcode hi ho
    rfl
  · exact (receiveMessage_switched hcode ho).mess

/-! ### The statements -/

/-- A message is accepted exactly for the slots that carry their own pid. -/
theorem Calm.getPcb_iff (h : Calm k) (q : PcbRef) : (getPcb k q.val).isSome ↔ (k.pcbs q).pid = q.val := by
  constructor
  · intro hsome
    obtain ⟨d, hd⟩ := Option.isSome_iff_exists.mp hsome
    have hpid := getPcb_eq_some hd
    rcases h.tableOk d with hc | hdummy
    · have hdq : d = q := Fin.ext (hc.symm.trans hpid)
      rwa [hdq] at hpid
    · have hlt : q.val < dummyPid := Nat.lt_trans q.isLt (by decide)
      omega
  · intro hc
    rw [← hc]
    exact getPcb_isSome k q

/-- A call hands over only the block of its statement. -/
theorem operand_of_gives (hcall : op.call = some c) (hb : c.gives k = some b) : op.operand = some b := by
  have hptr : ∀ {e : Addr} {r : Prop} [Decidable r], (if r then toPtr e.val else none) = some b → some e = some b := by
    intro e r _ h
    split at h
    · exact (toPtr_val e).symm.trans h
    · cases h
  cases op with
  | basic op =>
    cases op with
    | sendMessage q e =>
      cases hcall
      exact hptr hb
    | releaseMemoryBlock e =>
      cases hcall
      exact (toPtr_val e).symm.trans hb
    | store e field value => cases hcall
    | write register value => cases hcall
    | _ =>
      cases hcall
      cases hb
  | delayedSend q e delay =>
    cases hcall
    have hb : (if toInt (ofInt delay) < 0 ∨ toInt (ofInt delay) = 0 ∧ (getPcb k q.val).isNone then none
      else toPtr e.val) = some b := hb
    rw [← ite_not] at hb
    exact hptr hb

theorem operand_of_envelope (hcall : op.call = some c) (hb : c.envelope = some b) : op.operand = some b := by
  cases op with
  | basic op =>
    cases op with
    | sendMessage q e =>
      cases hcall
      exact (toPtr_val e).symm.trans hb
    | store e field value => cases hcall
    | write register value => cases hcall
    | _ =>
      cases hcall
      cases hb
  | delayedSend q e delay =>
    cases hcall
    exact (toPtr_val e).symm.trans hb

/-- A block that is sent is marked with its sender. -/
theorem envelope_of_gives (hcall : op.call = some c) (hne : c ≠ .releaseMemoryBlock b.val) (hb : c.gives k = some b) :
    c.envelope = some b := by
  have huses := operand_of_gives hcall hb
  cases op with
  | basic op =>
    cases op with
    | sendMessage q e =>
      cases hcall
      cases huses
      exact toPtr_val _
    | releaseMemoryBlock e =>
      cases hcall
      cases huses
      exact absurd rfl hne
    | store e field value => cases hcall
    | write register value => cases hcall
    | _ =>
      cases hcall
      cases hb
  | delayedSend q e delay =>
    cases hcall
    cases huses
    exact toPtr_val _

theorem plain_of_receive {senderID : Nat} {y : ClockAns op} (hcall : op.call = some (.receiveMessage senderID))
    (hplain : op.plain = some y) : False := by
  cases op with
  | basic op =>
    cases op with
    | receiveMessage => cases hplain
    | _ => cases hcall
  | delayedSend q e delay => cases hcall

theorem plain_of_request {y : ClockAns op} (hcall : op.call = some .requestMemoryBlock) (hplain : op.plain = some y) :
    False := by
  cases op with
  | basic op =>
    cases op with
    | requestMemoryBlock => cases hplain
    | _ => cases hcall
  | delayedSend q e delay => cases hcall

/-- What a statement that is given nothing does in the network: it sends what its call puts into a mailbox at once. -/
theorem acts_of_call (hcalm : Calm k) (hpids : ∀ q, (k.pcbs q).pid = pids q) (hcall : op.call = some c) {y : ClockAns op}
    (hplain : op.plain = some y) (l : Local) :
    ∃ a, ClockActs pids p l op y a (l.drop op.operand) ∧ a.receives = none ∧
      ∀ q, (a.sends q).toList = if c.sendsTo q then (c.gives k).toList.map (l.letter (pids p)) else [] := by
  have hsends : ∀ (q q' : PcbRef) (e : Addr), (Action.sends q' (.send q (l.letter (pids p) e))).toList =
      if q.val == q'.val then [l.letter (pids p) e] else [] := by
    intro q q' e
    by_cases hq : q = q'
    · subst hq
      simp [Action.sends]
    · have hv : ¬q.val = q'.val := fun h => hq (Fin.ext h)
      simp [Action.sends, hq, hv]
  have hiff := fun q : PcbRef => hcalm.getPcb_iff q
  simp only [hpids] at hiff
  cases op with
  | basic op =>
    cases op with
    | receiveMessage => cases hplain
    | requestMemoryBlock => cases hplain
    | sendMessage q e =>
      cases hcall
      by_cases hq : pids q = q.val
      · refine ⟨_, .basic (.send l q e hq), rfl, fun q' => ?_⟩
        have hsome := (hiff q).mpr hq
        rw [hsends q q' e]
        simp [Call.sendsTo, Call.gives, hsome]
      · refine ⟨_, .basic (.refused l q e hq), rfl, fun q' => ?_⟩
        have hnone : (getPcb k q.val).isSome = false := Bool.eq_false_iff.mpr fun h => hq ((hiff q).mp h)
        simp [Call.sendsTo, Call.gives, hnone, Action.sends]
    | releaseMemoryBlock b =>
      cases hcall
      exact ⟨_, .basic (.release l b), rfl, fun q => rfl⟩
    | releaseProcessor =>
      cases hcall
      exact ⟨_, .basic (.releaseProcessor l), rfl, fun q => rfl⟩
    | setProcessPriority processID priority =>
      cases hcall
      exact ⟨_, .basic (.setProcessPriority l processID priority), rfl, fun q => rfl⟩
    | store e field value => cases hcall
    | write register value => cases hcall
  | delayedSend q e delay =>
    cases hcall
    by_cases hd : toInt (ofInt delay) = 0
    · by_cases hq : pids q = q.val
      · refine ⟨_, .now l q e delay hd hq, rfl, fun q' => ?_⟩
        have hsome := (hiff q).mpr hq
        rw [hsends q q' e]
        have hnone : (getPcb k q.val).isNone = false := by
          obtain ⟨d, hg⟩ := Option.isSome_iff_exists.mp hsome
          rw [hg]
          rfl
        simp [Call.sendsTo, Call.gives, hd, hnone]
      · refine ⟨_, .later l q e delay fun _ => hq, rfl, fun q' => ?_⟩
        have hnone : (getPcb k q.val).isNone = true := by
          rw [Option.isNone_iff_eq_none, ← Option.not_isSome_iff_eq_none]
          exact fun h => hq ((hiff q).mp h)
        simp [Call.sendsTo, Call.gives, hd, hnone, Action.sends]
    · refine ⟨_, .later l q e delay fun h => absurd h hd, rfl, fun q' => ?_⟩
      simp [Call.sendsTo, hd, Action.sends]

end
end DoorRtos
