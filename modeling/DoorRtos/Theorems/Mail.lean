import DoorRtos.Theorems.Boot
import DoorRtos.Theorems.Delayed
import DoorRtos.Theorems.Stores

/-! The mailboxes and the list of delayed messages in the course of the system calls. -/

namespace DoorRtos
open Linked

/-- Every process has its own mailbox and is found under its own pid, and no interrupt is being served. -/
structure Calm (k : Kernel) : Prop where
  tableOk : k.TableOk
  mailbox : ∀ p mq, (k.pcbs p).messQueue = some mq → mq = p ∧ k.Created p
  inIProcess : k.inIProcess = false

/-- The mailboxes hold the messages of `M`, the newest first, and the delayed messages are those of `D`. -/
structure Mail (k : Kernel) (M : PcbRef → List Addr) (D : List Addr) : Prop where
  mailboxes : HoldsAll k.messNext k.mQueues M
  delayed : IsList k.messNext k.delayedSendQueue.head D
  apart : ∀ p, ∀ e ∈ D, e ∉ M p

/-- The envelope is in no mailbox and not delayed. -/
def Loose (M : PcbRef → List Addr) (D : List Addr) (e : Addr) : Prop := (∀ p, e ∉ M p) ∧ e ∉ D

namespace Call

/-- The call puts its envelope into the mailbox of process `p` at once. -/
def sendsTo (p : PcbRef) : Call → Bool
  | sendMessage processID _ => processID == p.val
  | delayedSend processID _ delay => toInt delay == 0 && processID == p.val
  | _ => false

/-- The call puts its envelope into the list of delayed messages. -/
def delays : Call → Bool
  | delayedSend _ _ delay => decide (0 < toInt delay)
  | _ => false

/-- The mailboxes after a call that hands over `given`. -/
def posted (c : Call) (given : Option Addr) (M : PcbRef → List Addr) (p : PcbRef) : List Addr :=
  if c.sendsTo p then given.toList ++ M p else M p

end Call

section
variable {k k' k₁ : Kernel} {M : PcbRef → List Addr} {D F a b : List Addr} {e : Addr} {pid : Nat} {d : PcbRef} {c : Call}
  {given : Option Addr}

theorem Calm.congr (h : Calm k) (hpid : ∀ p, (k'.pcbs p).pid = (k.pcbs p).pid)
    (hmq : ∀ p, (k'.pcbs p).messQueue = (k.pcbs p).messQueue) (hi : k'.inIProcess = false) : Calm k' where
  tableOk p := by
    unfold Kernel.Created
    rw [hpid]
    exact h.tableOk p
  mailbox p mq hp := by
    unfold Kernel.Created
    rw [hpid]
    exact h.mailbox p mq (hmq p ▸ hp)
  inIProcess := hi

theorem Calm.rescheduled (h : Calm k) (hr : Rescheduled k k') : Calm k' :=
  h.congr hr.pid hr.messQueue (hr.inIProcess h.inIProcess)

theorem Mail.congr (h : Mail k M D) (hnext : k'.messNext = k.messNext) (hq : k'.mQueues = k.mQueues)
    (hd : k'.delayedSendQueue = k.delayedSendQueue) : Mail k' M D where
  mailboxes := by
    rw [hnext, hq]
    exact h.mailboxes
  delayed := by
    rw [hnext, hd]
    exact h.delayed
  apart := h.apart

theorem Mail.det {M' : PcbRef → List Addr} {D' : List Addr} (h : Mail k M D) (h' : Mail k M' D') : M = M' ∧ D = D' :=
  ⟨h.mailboxes.det h'.mailboxes, h.delayed.det h'.delayed⟩

theorem Mail.rescheduled (h : Mail k M D) (hr : Rescheduled k k') : Mail k' M D :=
  h.congr hr.messNext hr.mQueues hr.delayedSendQueue

/-- The mailbox of a process that a pid finds belongs to the process with that number. -/
theorem Calm.found (h : Calm k) {mq : PcbRef} (hd : getPcb k pid = some d) (hmq : (k.pcbs d).messQueue = some mq) :
    mq = d ∧ pid = d.val := by
  obtain ⟨rfl, hc⟩ := h.mailbox d mq hmq
  exact ⟨rfl, (getPcb_eq_some hd).symm.trans hc⟩

/-! ### Sending -/

theorem Mail.delivered (h : Mail k M D) (hl : Loose M D e) :
    Mail (k.delivered pid e d) (Function.update M d (e :: M d)) D where
  mailboxes := h.mailboxes.push hl.1
  delayed := h.delayed.congr fun x hx => Queue.push_of_ne fun he => hl.2 (he ▸ hx)
  apart p x hx hp := by
    by_cases hpd : p = d
    · subst hpd
      rw [Function.update_self] at hp
      rcases List.mem_cons.mp hp with rfl | hp
      · exact hl.2 hx
      · exact h.apart p x hx hp
    · rw [Function.update_of_ne hpd] at hp
      exact h.apart p x hx hp

theorem Mail.inserted (h : Mail k M (a ++ b)) (hl : Loose M (a ++ b) e) (hi : Inserted k pid e a b k') :
    Mail k' M (a ++ e :: b) where
  mailboxes := by
    rw [hi.mQueues]
    refine ⟨fun p => (h.mailboxes.holds p).congr fun x hx => hi.messNext x (fun he => hl.1 p (he ▸ hx)) fun ha => ?_,
      h.mailboxes.apart⟩
    exact h.apart p x (List.mem_append_left b ha) hx
  delayed := hi.list
  apart p x hx hp := by
    rcases List.mem_append.mp hx with ha | hx
    · exact h.apart p x (List.mem_append_left b ha) hp
    · rcases List.mem_cons.mp hx with rfl | hb
      · exact hl.1 p hp
      · exact h.apart p x (List.mem_append_right a hb) hp

/-- A message that is sent at once goes into the mailbox of the process with the number `pid`. -/
theorem Sends.mail (hs : Sends k pid e k₁) (hcalm : Calm k) (h : Mail k M D)
    (hgiven : given = if (getPcb k pid).isSome then some e else none) (hl : given = some e → Loose M D e) :
    Calm k₁ ∧ Mail k₁ (fun p => if pid = p.val then given.toList ++ M p else M p) D := by
  rcases hs with ⟨hd, rfl⟩ | ⟨d, mq, hd, hmq, rfl⟩
  · rw [hd] at hgiven
    refine ⟨hcalm.congr (fun _ => rfl) (fun _ => rfl) hcalm.inIProcess, ?_⟩
    have hM : (fun p : PcbRef => if pid = p.val then given.toList ++ M p else M p) = M := by
      funext p
      rw [hgiven]
      exact ite_self _
    rw [hM]
    exact h.congr rfl rfl rfl
  · rw [hd] at hgiven
    obtain ⟨rfl, rfl⟩ := hcalm.found hd hmq
    refine ⟨hcalm.congr (fun _ => rfl) (fun _ => rfl) hcalm.inIProcess, ?_⟩
    have hM : (fun p : PcbRef => if mq.val = p.val then given.toList ++ M p else M p) =
        Function.update M mq (e :: M mq) := by
      funext p
      rw [hgiven]
      by_cases hp : p = mq
      · subst hp
        rw [Function.update_self]
        exact if_pos rfl
      · rw [Function.update_of_ne hp]
        exact if_neg fun hv => hp (Fin.ext hv.symm)
    rw [hM]
    exact h.delivered (hl hgiven)

/-- A delayed message goes somewhere into the list of delayed messages. -/
theorem delayed_mail {delay : Int} {r : Nat} (hs : kernelDelayedSend pid e delay k = .returned (r, k₁)) (hpos : 0 < delay)
    (hcalm : Calm k) (h : Mail k M D) (hl : Loose M D e) :
    Calm k₁ ∧ ∃ D', Mail k₁ M D' ∧ ∀ x ∈ D', x ∈ D ∨ x = e := by
  have hi : k₁.inIProcess = false := by
    rcases kernelDelayedSend_cases pid e delay k with ⟨hlt, -⟩ | ⟨hzero, -⟩ | ⟨-, d, ptr, prevPtr, -, ho⟩ | ho
    · exact absurd hpos (Int.not_lt.mpr (Int.le_of_lt hlt))
    · exact absurd hpos (by rw [hzero]; decide)
    · rw [ho] at hs
      cases hs
      exact (linkDelayed_frame e d ptr prevPtr (k.marked pid e)).2.2.2.2.trans hcalm.inIProcess
    · rw [ho] at hs
      cases hs
  obtain ⟨a, b, k', rfl, ho, hins, -⟩ := kernelDelayedSend_inserted pid hpos h.delayed hl.2
  rw [hs] at ho
  cases ho
  refine ⟨hcalm.congr (fun p => by rw [hins.pcbs]) (fun p => by rw [hins.pcbs]) hi, _, h.inserted hl hins, fun x hx => ?_⟩
  rcases List.mem_append.mp hx with ha | hx
  · exact Or.inl (List.mem_append_left b ha)
  · exact (List.mem_cons.mp hx).symm.imp (List.mem_append_right a) id

/-- Taking the oldest message out of a mailbox. -/
theorem Mail.take {q : PcbRef} {l : List Addr} (h : Mail k M D) (hl : M q = l ++ [e]) {o : Option Addr} {next : Links Addr}
    {b : MessagesQueue} (hs : dequeueMessageFIFO k.messNext (k.mQueues q) = some (o, next, b)) :
    o = some e ∧ Loose (Function.update M q l) D e ∧ ∀ k₁ : Kernel, k₁.messNext = next →
      k₁.mQueues = Function.update k.mQueues q b → k₁.delayedSendQueue = k.delayedSendQueue →
      Mail k₁ (Function.update M q l) D := by
  obtain ⟨next', q', hshift, hall, hnext⟩ :=
    h.mailboxes.shift hl (Addr.length_le (hl ▸ (h.mailboxes.holds q).nodup))
  have hsame : some (o, next, b) = some (some e, next', q') := hs.symm.trans hshift
  cases hsame
  have hmem : e ∈ M q := hl ▸ List.mem_append_right l List.mem_cons_self
  have hsub : ∀ p, ∀ x ∈ Function.update M q l p, x ∈ M p := fun p x hx => by
    by_cases hp : p = q
    · subst hp
      rw [Function.update_self] at hx
      rw [hl]
      exact List.mem_append_left [e] hx
    · rwa [Function.update_of_ne hp] at hx
  refine ⟨rfl, ⟨fun p hp => ?_, fun hd => h.apart q e hd hmem⟩, fun k₁ hn hq hd => ⟨?_, ?_, fun p x hx hp => ?_⟩⟩
  · have hpq : p = q := h.mailboxes.apart p q e (hsub p e hp) hmem
    rw [hpq, Function.update_self] at hp
    have hnd := (h.mailboxes.holds q).nodup
    rw [hl] at hnd
    exact (List.nodup_append.mp hnd).2.2 e hp e List.mem_cons_self rfl
  · rw [hn, hq]
    exact hall
  · rw [hn, hd]
    refine h.delayed.congr fun x hx => hnext x fun hxl => h.apart q x hx ?_
    rw [hl]
    exact List.mem_append_left [e] hxl
  · exact h.apart p x hx (hsub p x hp)

/-! ### The system calls -/

/-- A receive that returns has taken the oldest message of the caller's mailbox. -/
theorem receiveMessage_mail (hcode : k.kernelCode = KernelCode.receiveMessage) (hcalm : Calm k) (h : Mail k M D)
    (hs : swiTrapHandler k = .returned k') :
    ∃ l e, M k.currentPcb = l ++ [e] ∧ Mail k' (Function.update M k.currentPcb l) D ∧
      ∃ next q, k' = { k with
        msgReturn := true, messNext := next, mQueues := Function.update k.mQueues k.currentPcb q,
        retCodeRecv := e.val } := by
  obtain ⟨mq, hmq, hempty, o, next, q, hdeq, rfl⟩ := receiveMessage_returned hcode hcalm.inIProcess hs
  obtain ⟨rfl, -⟩ := hcalm.mailbox _ _ hmq
  have hne : M k.currentPcb ≠ [] := fun hnil => by
    have hq := (h.mailboxes.holds k.currentPcb).isEmpty_iff.mpr hnil
    exact absurd (hempty.symm.trans hq) Bool.false_ne_true
  obtain ⟨l, e, hl⟩ : ∃ l e, M k.currentPcb = l ++ [e] :=
    ⟨_, _, (List.dropLast_append_getLast hne).symm⟩
  obtain ⟨rfl, -, hmail⟩ := h.take hl hdeq
  exact ⟨l, e, hl, hmail _ rfl rfl rfl, next, q, rfl⟩

/-- A request leaves the messages alone. -/
theorem requestMemoryBlock_mail (hcode : k.kernelCode = KernelCode.requestMemory) (hcalm : Calm k) (h : Mail k M D)
    (hs : (swiTrapHandler k).kernel? = some k') : Calm k' ∧ Mail k' M D := by
  rcases Outcome.kernel?_eq_some.mp hs with ho | ho
  · obtain ⟨b, next, q, -, rfl⟩ := requestMemoryBlock_returned hcode hcalm.inIProcess ho
    exact ⟨hcalm.congr (fun _ => rfl) (fun _ => rfl) hcalm.inIProcess, h.congr rfl rfl rfl⟩
  · obtain ⟨next, q, -, hres⟩ := requestMemoryBlock_switched hcode ho
    have hcalm' : Calm { k with blockNext := next, freeMemQ := q } :=
      hcalm.congr (fun _ => rfl) (fun _ => rfl) hcalm.inIProcess
    have h' : Mail { k with blockNext := next, freeMemQ := q } M D := h.congr rfl rfl rfl
    exact ⟨hcalm'.rescheduled hres, h'.rescheduled hres⟩

theorem enter_rescheduled (c : Call) (k : Kernel) : Rescheduled k (c.enter k) := by
  cases c <;> exact ⟨fun _ => rfl, fun _ => rfl, rfl, rfl, rfl, rfl, rfl, rfl, id⟩

theorem posted_of_not (h : ∀ p, c.sendsTo p = false) : c.posted given M = M := by
  funext p
  unfold Call.posted
  rw [h p]
  rfl

/-- What a call does to the messages. -/
def Mailed (k : Kernel) (c : Call) (M : PcbRef → List Addr) (D : List Addr) (k' : Kernel) : Prop :=
  Calm k' ∧ ∃ D', Mail k' (c.posted (c.gives k) M) D' ∧ ∀ x ∈ D', x ∈ D ∨ c.delays = true ∧ c.gives k = some x

theorem mailed_of_not (hp : ∀ p, c.sendsTo p = false) (hcalm : Calm k') (h : Mail k' M D) : Mailed k c M D k' :=
  ⟨hcalm, D, (posted_of_not hp).symm ▸ h, fun _ => Or.inl⟩

theorem Stores.mailed (hs : Stores (c.enter k) c k₁) (hcalm : Calm (c.enter k)) (h : Mail (c.enter k) M D)
    (hl : (∀ b, c ≠ .releaseMemoryBlock b) → ∀ e, c.gives k = some e → Loose M D e) : Mailed k c M D k₁ := by
  cases c with
  | sendMessage processID envelope =>
    obtain ⟨e, he, hsends⟩ := hs
    have hgiven : (Call.sendMessage processID envelope).gives k = if (getPcb k processID).isSome then some e else none := by
      rw [← he]
      rfl
    obtain ⟨hcalm', h'⟩ := hsends.mail hcalm h hgiven (hl (fun _ => nofun) e)
    refine ⟨hcalm', D, ?_, fun _ => Or.inl⟩
    unfold Call.posted Call.sendsTo
    simpa only [beq_iff_eq] using h'
  | delayedSend processID envelope delay =>
    obtain ⟨e, he, ⟨hlt, rfl⟩ | ⟨hzero, hsends⟩ | ⟨hpos, r, ho⟩⟩ := hs
    · refine mailed_of_not (fun p => ?_) (hcalm.congr (fun _ => rfl) (fun _ => rfl) hcalm.inIProcess) (h.congr rfl rfl rfl)
      have hne : toInt delay ≠ 0 := Int.ne_of_lt hlt
      simp [Call.sendsTo, hne]
    · have hgiven : (Call.delayedSend processID envelope delay).gives k =
          if (getPcb k processID).isSome then some e else none := by
        rw [← he]
        unfold Call.gives
        simp only [hzero, Int.lt_irrefl, false_or, true_and]
        cases getPcb k processID <;> rfl
      have hcalm' : Calm (((Call.delayedSend processID envelope delay).enter k).marked processID e) :=
        hcalm.congr (fun _ => rfl) (fun _ => rfl) hcalm.inIProcess
      have h' : Mail (((Call.delayedSend processID envelope delay).enter k).marked processID e) M D := h.congr rfl rfl rfl
      obtain ⟨hcalm'', h''⟩ := hsends.mail hcalm' h' hgiven (hl (fun _ => nofun) e)
      refine ⟨hcalm'', D, ?_, fun _ => Or.inl⟩
      unfold Call.posted Call.sendsTo
      simpa only [hzero, beq_self_eq_true, Bool.true_and, beq_iff_eq] using h''
    · have hgiven : (Call.delayedSend processID envelope delay).gives k = some e := by
        have hnot : ¬(toInt delay < 0 ∨ toInt delay = 0 ∧ (getPcb k processID).isNone = true) := by
          rintro (hlt | ⟨hzero, -⟩) <;> omega
        exact (if_neg hnot).trans he
      obtain ⟨hcalm', D', h', hmem⟩ := delayed_mail ho hpos hcalm h (hl (fun _ => nofun) e hgiven)
      refine ⟨hcalm', D', ?_, fun x hx => (hmem x hx).imp id ?_⟩
      · rw [posted_of_not fun p => ?_]
        · exact h'
        · have hne : toInt delay ≠ 0 := Int.ne_of_gt hpos
          simp [Call.sendsTo, hne]
      · rintro rfl
        exact ⟨decide_eq_true hpos, hgiven⟩
  | releaseMemoryBlock memoryBlock =>
    obtain ⟨b, -, rfl⟩ := hs
    exact mailed_of_not (fun _ => rfl) (hcalm.congr (fun _ => rfl) (fun _ => rfl) hcalm.inIProcess) (h.congr rfl rfl rfl)
  | requestMemoryBlock => exact hs.elim
  | receiveMessage senderID => exact hs.elim
  | releaseProcessor =>
    cases hs
    exact mailed_of_not (fun _ => rfl) hcalm h
  | setProcessPriority processID priority =>
    cases hs
    exact mailed_of_not (fun _ => rfl) hcalm h
  | getProcessPriority processID =>
    cases hs
    exact mailed_of_not (fun _ => rfl) hcalm h

/-- What the calls other than a receive do to the messages. -/
theorem call_mailed (hc : ∀ senderID, c ≠ .receiveMessage senderID) (hcalm : Calm k) (h : Mail k M D)
    (hl : (∀ b, c ≠ .releaseMemoryBlock b) → ∀ e, c.gives k = some e → Loose M D e)
    (hs : (swiTrapHandler (c.enter k)).kernel? = some k') : Mailed k c M D k' := by
  have hcalm₁ := hcalm.rescheduled (enter_rescheduled c k)
  have h₁ := h.rescheduled (enter_rescheduled c k)
  by_cases hr : c = .requestMemoryBlock
  · subst hr
    obtain ⟨hcalm', h'⟩ := requestMemoryBlock_mail rfl hcalm₁ h₁ hs
    exact mailed_of_not (fun _ => rfl) hcalm' h'
  · obtain ⟨k₁, hstores, hres⟩ := call_stores hc hr hs
    obtain ⟨hcalm₂, D', h₂, hmem⟩ := hstores.mailed hcalm₁ h₁ hl
    exact ⟨hcalm₂.rescheduled hres, D', h₂.rescheduled hres, hmem⟩

/-! ### The state that `start_scheduler` builds -/

theorem Booted.calm {img : Layout} (h : Booted img k) : Calm k where
  tableOk := h.tableOk
  mailbox p mq hp := by
    by_cases hc : k.Created p
    · rw [h.mailbox p hc] at hp
      cases hp
      exact ⟨rfl, hc⟩
    · rw [(h.unused p hc).1] at hp
      cases hp
  inIProcess := h.started.inIProcess

/-- The mailboxes and the list of delayed messages are empty at first. -/
theorem Booted.mail {img : Layout} (h : Booted img k) : Mail k (fun _ => []) [] where
  mailboxes := HoldsAll.empty _ fun p => by
    by_cases hc : k.Created p
    · rw [h.started.mailbox p (h.started.created_iff.mp hc)]
      rfl
    · rw [(h.unused p hc).2.2]
  delayed := by
    rw [h.started.delayed]
    rfl
  apart _ _ hx := absurd hx List.not_mem_nil

end
end DoorRtos
