import DoorRtos.Theorems.Expiry

/-! The destinations that `kernel_delayed_send` accepts. Only a call without a delay looks its destination up; the other
    ones leave that to the timer process, which drops the envelopes that it finds no process for. -/

namespace DoorRtos
open Linked

/-- The call reports an error, and its envelope is linked nowhere. -/
def TurnsDown (k : Kernel) (processID : Nat) (envelope : Addr) (delay : Int) : Prop :=
  ∃ k', kernelDelayedSend processID envelope delay k = .returned (rtxError, k') ∧ k'.messNext = k.messNext ∧
    k'.delayedSendQueue = k.delayedSendQueue ∧ k'.mQueues = k.mQueues

namespace Timing

/-- Every accepted envelope is in a mailbox or delayed: none has been dropped. -/
def Kept (s : Timing) : Prop :=
  ∀ M D, Mail s.kernel M D → ∀ m ∈ s.accepted, (∃ p, m.envelope ∈ M p) ∨ m.envelope ∈ D

/-- A call hands over an envelope that is linked nowhere, and a delayed one names a created process. -/
def Destined (s : Timing) : TimingEvent → Prop
  | .delayedSend _ processID envelope delay =>
    (∀ M D, Mail s.kernel M D → Loose M D envelope) ∧ (0 < delay → ∃ p, s.kernel.Created p ∧ p.val = processID)
  | .iteration => True

end Timing

/-- The mailboxes hold the messages of `M`, those of `D` are delayed, no accepted envelope is anywhere else, and a process
    is found for every delayed one, and for the senders of those in the timer's mailbox. -/
structure Finding (s : Timing) (M : PcbRef → List Addr) (D : List Addr) : Prop where
  own : OwnMailboxes s.kernel
  mail : Mail s.kernel M D
  dest : ∀ e ∈ D, (getPcb s.kernel (s.kernel.mess e).destPid).isSome
  sender : ∀ e ∈ M timerPid, SenderFound s.kernel e
  kept : ∀ m ∈ s.accepted, (∃ p, m.envelope ∈ M p) ∨ m.envelope ∈ D

section
variable {k : Kernel} {s s' : Timing} {M : PcbRef → List Addr} {D : List Addr} {e : Addr} {pid : Nat} {delay : Int}

/-! ### The calls -/

theorem kernelSendMessage_error {k' : Kernel} (hs : kernelSendMessage pid e k = .returned (rtxError, k')) :
    getPcb k pid = none := by
  rcases kernelSendMessage_cases pid e k with ⟨hd, -⟩ | ⟨d, mq, -, -, ⟨-, ho⟩ | ⟨-, k₁, source, -, -, ho⟩⟩ | ho
  · exact hd
  · cases ho.symm.trans hs
  · rw [ho] at hs
    split at hs
    · obtain ⟨r, -, hs⟩ := Outcome.bind_eq_returned.mp hs
      unfold contextSwitch at hs
      split at hs <;> cases hs
    · cases hs
  · cases ho.symm.trans hs

theorem turnsDown_iff (k : Kernel) (pid : Nat) (e : Addr) (hnonneg : 0 ≤ delay) :
    TurnsDown k pid e delay ↔ delay = 0 ∧ getPcb k pid = none := by
  constructor
  · rintro ⟨k', hs, -⟩
    rcases kernelDelayedSend_cases pid e delay k with ⟨hlt, -⟩ | ⟨hzero, ho⟩ | ⟨-, d, ptr, prevPtr, -, ho⟩ | ho
    · exact absurd hnonneg (Int.not_le.mpr hlt)
    · exact ⟨hzero, kernelSendMessage_error (k := k.marked pid e) (ho.symm.trans hs)⟩
    · cases ho.symm.trans hs
    · cases ho.symm.trans hs
  · rintro ⟨rfl, hd⟩
    exact ⟨_, kernelDelayedSend_zero.trans (kernelSendMessage_unknown (k := k.marked pid e) hd), rfl, rfl, rfl⟩

/-! ### The runs -/

/-- A delayed message is accepted for a process that is found. -/
theorem Finding.later {caller : PcbRef} (h : Finding s M D) (hl : Loose M D e) (hpos : 0 < delay)
    (hfound : (getPcb s.kernel pid).isSome) (hs : s.step (.delayedSend caller pid e delay) = some s') :
    ∃ D', Finding s' M D' := by
  obtain ⟨hcalls, haccepted, hpid, a, b, rfl, hmail, -⟩ := Timing.step_later h.mail hl hpos hs
  refine ⟨a ++ e :: b, hcalls.table.own h.own, hmail, fun x hx => ?_, fun x hx => hcalls.sender x (Or.inr (h.sender x hx)),
    fun m hm => ?_⟩
  · rw [hcalls.table.getPcb]
    by_cases hxe : x = e
    · rwa [hxe, hpid]
    · rw [hcalls.destPid x hxe]
      exact h.dest x ((List.mem_cons.mp (List.perm_middle.mem_iff.mp hx)).resolve_left hxe)
  · rw [haccepted] at hm
    rcases List.mem_append.mp hm with hm | hm
    · exact (h.kept m hm).imp_right fun hx => List.perm_middle.mem_iff.mpr (List.mem_cons_of_mem e hx)
    · rw [List.mem_singleton.mp hm]
      exact Or.inr (by simp)

theorem Finding.now {caller : PcbRef} (h : Finding s M D) (hl : Loose M D e) (hle : delay ≤ 0)
    (hs : s.step (.delayedSend caller pid e delay) = some s') : ∃ M', Finding s' M' D := by
  obtain ⟨hcalls, haccepted, -, hmail⟩ := Timing.step_now h.own h.mail hl hle hs
  have hmem : ∀ p x, x ∈ M p → x ∈ (if delay = 0 ∧ getPcb s.kernel pid = some p then e :: M p else M p) := fun p x hx => by
    split
    · exact List.mem_cons_of_mem e hx
    · exact hx
  have hkept : ∀ m ∈ s.accepted,
      (∃ p, m.envelope ∈ if delay = 0 ∧ getPcb s.kernel pid = some p then e :: M p else M p) ∨ m.envelope ∈ D := fun m hm =>
    (h.kept m hm).imp_left fun ⟨p, hp⟩ => ⟨p, hmem p _ hp⟩
  refine ⟨_, hcalls.table.own h.own, hmail, fun x hx => ?_, fun x hx => hcalls.sender x ?_, fun m hm => ?_⟩
  · rw [hcalls.table.getPcb, hcalls.destPid x fun hxe => hl.2 (hxe ▸ hx)]
    exact h.dest x hx
  · split at hx
    · exact (List.mem_cons.mp hx).imp_right (h.sender x)
    · exact Or.inr (h.sender x hx)
  · rcases haccepted with haccepted | ⟨haccepted, hzero, hfound⟩ <;> rw [haccepted] at hm
    · exact hkept m hm
    · rcases List.mem_append.mp hm with hm | hm
      · exact hkept m hm
      · obtain ⟨p, hp⟩ := Option.isSome_iff_exists.mp hfound
        rw [List.mem_singleton.mp hm]
        refine Or.inl ⟨p, ?_⟩
        rw [if_pos ⟨hzero, hp⟩]
        exact List.mem_cons_self

/-- The timer process drops nothing that a process is found for. -/
theorem Finding.iteration (h : Finding s M D) (hs : s.step .iteration = some s') : ∃ M' D', Finding s' M' D' := by
  obtain ⟨D₁, D₂, k₁, hit⟩ := Timing.step_iteration h.own h.mail hs
  have htakes := hit.takes
  have hexp := hit.expires
  have hdest : ∀ e ∈ D₁ ++ D₂, (getPcb k₁ (k₁.mess e).destPid).isSome := fun e he => by
    rw [htakes.table.getPcb, htakes.destPid]
    split
    next hmem => exact h.sender e hmem
    next hnot => exact h.dest e (((htakes.taken e).mp he).resolve_right hnot)
  have hkept : ∀ e ∈ D₁ ++ D₂,
      (∃ p, e ∈ (arrivals k₁ (outgoing k₁ D₁) p).reverse ++ Function.update M timerPid [] p) ∨ e ∈ D₂ := fun e he =>
    (List.mem_append.mp he).imp_left fun he₁ => by
      obtain ⟨p, hp⟩ := Option.isSome_iff_exists.mp (hdest e he)
      exact ⟨p, List.mem_append_left _ (List.mem_reverse.mpr (mem_arrivals.mpr ⟨he₁, hp⟩))⟩
  refine ⟨_, D₂, hexp.table.own (htakes.table.own h.own), hexp.mail, fun e he => ?_, fun e he => hexp.sender e (Or.inl ?_),
    fun m hm => ?_⟩
  · rw [hexp.table.getPcb, hexp.destPid]
    exact hdest e (List.mem_append_right D₁ he)
  · rw [Function.update_self, List.append_nil] at he
    exact (mem_arrivals.mp (List.mem_reverse.mp he)).1
  · rw [hit.accepted] at hm
    rcases h.kept m hm with ⟨p, hp⟩ | hD
    · by_cases hpt : p = timerPid
      · subst hpt
        exact hkept _ ((htakes.taken _).mpr (Or.inr hp))
      · refine Or.inl ⟨p, List.mem_append_right _ ?_⟩
        rwa [Function.update_of_ne hpt]
    · exact hkept _ ((htakes.taken _).mpr (Or.inl hD))

theorem Finding.step {ev : TimingEvent} (h : Finding s M D) (hok : s.Destined ev) (hs : s.step ev = some s') :
    ∃ M' D', Finding s' M' D' := by
  cases ev with
  | delayedSend caller pid e delay =>
    have hl := hok.1 M D h.mail
    rcases Int.lt_or_le 0 delay with hpos | hle
    · obtain ⟨p, hc, rfl⟩ := hok.2 hpos
      have hfound := getPcb_isSome s.kernel p
      rw [hc] at hfound
      exact ⟨M, h.later hl hpos hfound hs⟩
    · obtain ⟨M', h'⟩ := h.now hl hle hs
      exact ⟨M', D, h'⟩
  | iteration => exact h.iteration hs

theorem Finding.isKept (h : Finding s M D) : s.Kept := fun M' D' h' => by
  obtain ⟨rfl, rfl⟩ := h.mail.det h'
  exact h.kept

end

/-- A call is refused for an id of no process exactly when it has no delay, and the id is not found in the process table.
    In a run in which the calls hand over envelopes that are linked nowhere, and the delayed ones name created processes, no
    accepted envelope is dropped at any moment. -/
theorem delayedSend_destinations (k : Kernel) (processID : Nat) (envelope : Addr) (delay : Int) (s : Timing)
    (es : List TimingEvent) :
    ((∀ p : PcbRef, k.Created p → p.val ≠ processID) → 0 ≤ delay →
      (TurnsDown k processID envelope delay ↔ delay = 0 ∧ getPcb k processID = none)) ∧
    ((∃ M D, Finding s M D) → Runs.Along Timing.step Timing.Destined s es →
      Runs.Throughout Timing.step Timing.Kept s es) := by
  refine ⟨fun _ hnonneg => turnsDown_iff k processID envelope hnonneg, fun hs hes => ?_⟩
  refine (Runs.throughout_of_invariant (I := fun s => ∃ M D, Finding s M D) (fun s ev s' h hok hstep => ?_) hs hes).imp
    fun s h => ?_
  · obtain ⟨M, D, h⟩ := h
    exact h.step hok hstep
  · obtain ⟨M, D, h⟩ := h
    exact h.isKept

theorem Booted.finding {k : Kernel} (h : Booted rtosMap k) : Finding (.start k) (fun _ => []) [] where
  own p mq hp := (h.calm.mailbox p mq hp).1
  mail := h.mail
  dest _ he := absurd he List.not_mem_nil
  sender _ he := absurd he List.not_mem_nil
  kept _ hm := absurd hm List.not_mem_nil

/-- No process has the number 50. -/
theorem Booted.not_created {k : Kernel} (h : Booted rtosMap k) (p : PcbRef) (hc : k.Created p) : p.val ≠ 50 := by
  have hall : ∀ p : PcbRef, IProcess p ∨ p ∈ readyProcesses.map Prod.fst → p.val ≠ 50 := by decide
  exact hall p (h.started.created_iff.mp hc)

theorem Booted.getPcb_none {k : Kernel} (h : Booted rtosMap k) : DoorRtos.getPcb k 50 = none := by
  unfold DoorRtos.getPcb
  refine List.find?_eq_none.mpr fun p _ hp => ?_
  have hpid : (k.pcbs p).pid = 50 := by simpa using hp
  rcases h.tableOk p with hc | hdummy
  · exact h.not_created p hc (hc.symm.trans hpid)
  · exact absurd (hdummy.symm.trans hpid) (by decide)

/-- An id of no process without a delay, and a delayed message for the CRT process. -/
theorem delayedSend_destinations_at_boot :
    ∃ k, boot rtosMap = .switched k ∧ TurnsDown k 50 firstBlock 0 ∧
      Runs.Throughout Timing.step Timing.Kept (.start k)
        [.delayedSend wcPid crtPid.val firstBlock 2, .iteration, .iteration] := by
  obtain ⟨k, hboot, h⟩ := boot_spec rtosMap
  obtain ⟨hcall, hrun⟩ := delayedSend_destinations k 50 firstBlock 0 (.start k)
    [.delayedSend wcPid crtPid.val firstBlock 2, .iteration, .iteration]
  refine ⟨k, hboot, (hcall h.not_created (by decide)).mpr ⟨rfl, h.getPcb_none⟩,
    hrun ⟨_, _, h.finding⟩ fun s₁ hs₁ => ⟨⟨fun M D hmail => ?_, fun _ => ?_⟩,
      fun _ _ => ⟨trivial, fun _ _ => ⟨trivial, trivial⟩⟩⟩⟩
  · obtain ⟨rfl, rfl⟩ := h.mail.det hmail
    exact ⟨fun _ => List.not_mem_nil, List.not_mem_nil⟩
  · exact ⟨crtPid, h.started.created_iff.mpr (Or.inr (by decide)), rfl⟩

/-- A message for the process 50 with delay 2, just after the start: it is accepted, and after two iterations it is gone. -/
theorem delayedSend_to_nobody :
    ∃ k s s', boot rtosMap = .switched k ∧ (∀ p, k.Created p → p.val ≠ 50) ∧ ¬TurnsDown k 50 firstBlock 2 ∧
      Timing.step (.start k) (.delayedSend wcPid 50 firstBlock 2) = some s ∧ s.accepted = [⟨firstBlock, 50, 2, 0⟩] ∧
      Runs.exec Timing.step s [.iteration, .iteration] = some s' ∧ ¬s'.Kept := by
  have hrun : ((boot rtosMap).kernel?.any fun k =>
      (Timing.step (.start k) (.delayedSend wcPid 50 firstBlock 2)).any fun s =>
        decide (s.accepted = [⟨firstBlock, 50, 2, 0⟩]) &&
        (Runs.exec Timing.step s [.iteration, .iteration]).any fun s' =>
          decide (s'.accepted = [⟨firstBlock, 50, 2, 0⟩] ∧ s'.kernel.delayedSendQueue.head = none ∧
            ∀ p, (s'.kernel.mQueues p).head = none)) = true := by decide +kernel
  obtain ⟨k, hboot, h⟩ := boot_spec rtosMap
  rw [hboot, Outcome.kernel?_switched, Option.any_some] at hrun
  obtain ⟨s, hs, hall⟩ := Option.any_eq_true _ _ |>.mp hrun
  obtain ⟨hacc, hrest⟩ := Bool.and_eq_true _ _ |>.mp hall
  obtain ⟨s', hs', hlast⟩ := Option.any_eq_true _ _ |>.mp hrest
  obtain ⟨hacc', hdelayed, hboxes⟩ := of_decide_eq_true hlast
  refine ⟨k, s, s', hboot, h.not_created, fun hr => ?_, hs, of_decide_eq_true hacc, hs', fun hkept => ?_⟩
  · exact absurd ((turnsDown_iff k 50 firstBlock (by decide)).mp hr).1 (by decide)
  · have hmail : Mail s'.kernel (fun _ => []) [] :=
      ⟨HoldsAll.empty _ hboxes, hdelayed, fun _ _ he => absurd he List.not_mem_nil⟩
    rcases hkept _ _ hmail ⟨firstBlock, 50, 2, 0⟩ (by rw [hacc']; exact List.mem_cons_self) with ⟨p, hp⟩ | hD
    · exact absurd hp List.not_mem_nil
    · exact absurd hD List.not_mem_nil

end DoorRtos
