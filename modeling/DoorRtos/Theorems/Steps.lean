import DoorRtos.Theorems.Endings
import DoorRtos.Theorems.Mail

/-! One step of the processes: a trap, or the return of a wrapper; and what it does to the messages. -/

namespace DoorRtos

/-- Only the loop of `receive_message` does not return behind its trap. -/
theorem Call.leave_eq_none {c : Call} {k : Kernel} (h : c.leave k = none) :
    (∃ senderID, c = .receiveMessage senderID) ∧ k.msgReturn = false := by
  cases c with
  | receiveMessage senderID =>
    refine ⟨⟨senderID, rfl⟩, ?_⟩
    simpa [leave] using h
  | _ => cases h

namespace Sys

/-- The running process traps with the kernel's data `k`, and `left` tells how the trap ends. -/
structure Traps (s : Sys) (c : Call) (k : Kernel) (left : Bool) (s' : Sys) : Prop where
  outcome : swiTrapHandler k = if left then .switched s'.kernel else .returned s'.kernel
  pc : s'.pc = Function.update s.pc s.kernel.currentPcb (.trapped c left)

/-- The state in which a wrapper has returned to the running process. -/
def left (s : Sys) (c : Call) (value : Nat) : Sys :=
  { s with
    pc := Function.update s.pc s.kernel.currentPcb .user
    log := s.log ++ [.returned s.kernel.currentPcb c value] }

section
variable {s s' : Sys} {c : Call} {k : Kernel} {left : Bool} {p : PcbRef} {value : Nat}

theorem trap_inv (hs : trap c s = some s') : s'.log = s.log ∧ ∃ left, s.Traps c s.kernel left s' := by
  unfold trap at hs
  cases ho : swiTrapHandler s.kernel with
  | returned k =>
    rw [ho] at hs
    cases hs
    exact ⟨rfl, false, ho, rfl⟩
  | switched k =>
    rw [ho] at hs
    cases hs
    exact ⟨rfl, true, ho, rfl⟩
  | stuck =>
    rw [ho] at hs
    cases hs

/-- A process that makes a call has been in its own code. -/
theorem step_call (hs : s.step (.call c) = some s') :
    s.pc s.kernel.currentPcb = .user ∧
      s'.log = s.log ++ [.called s.kernel.currentPcb c (c.gives s.kernel)] ∧
      ∃ left, s.Traps c (c.enter s.kernel) left s' := by
  unfold step at hs
  cases hpc : s.pc s.kernel.currentPcb with
  | user =>
    simp only [hpc] at hs
    obtain ⟨hlog, left, ho, hpc'⟩ := trap_inv hs
    exact ⟨rfl, hlog, left, ho, hpc'.trans (by rw [enter_currentPcb])⟩
  | trapped c' left =>
    simp only [hpc] at hs
    cases hs

/-- A process that goes on leaves the wrapper, or goes round the loop of `receive_message`. -/
theorem step_resume (hs : s.step .resume = some s') :
    ∃ c left, s.pc s.kernel.currentPcb = .trapped c left ∧
      ((∃ value, c.leave s.kernel = some value ∧ s' = s.left c value) ∨
        (∃ senderID, c = .receiveMessage senderID) ∧ s.kernel.msgReturn = false ∧ s'.log = s.log ∧
          ∃ left', s.Traps c { s.kernel with kernelCode := KernelCode.receiveMessage } left' s') := by
  unfold step at hs
  cases hpc : s.pc s.kernel.currentPcb with
  | user =>
    simp only [hpc] at hs
    cases hs
  | trapped c left =>
    simp only [hpc] at hs
    refine ⟨c, left, rfl, ?_⟩
    cases hv : c.leave s.kernel with
    | some value =>
      rw [hv] at hs
      cases hs
      exact Or.inl ⟨value, rfl, rfl⟩
    | none =>
      rw [hv] at hs
      obtain ⟨hlog, left', ho, hpc'⟩ := trap_inv hs
      obtain ⟨hc, hflag⟩ := Call.leave_eq_none hv
      exact Or.inr ⟨hc, hflag, hlog, left', ho, hpc'⟩

/-- A process is behind a trap that has returned only while it runs. -/
def Behind (s : Sys) : Prop := ∀ p c, s.pc p = .trapped c false → p = s.kernel.currentPcb

/-- After a trap only the process that trapped can be behind a trap that has returned. -/
theorem Traps.inv {c' : Call} (ht : s.Traps c k left s') (hb : s.Behind) (hp : s'.pc p = .trapped c' false) :
    p = s.kernel.currentPcb ∧ c' = c ∧ left = false := by
  rw [ht.pc] at hp
  by_cases hpc : p = s.kernel.currentPcb
  · subst hpc
    rw [Function.update_self] at hp
    cases hp
    exact ⟨rfl, rfl, rfl⟩
  · rw [Function.update_of_ne hpc] at hp
    exact absurd (hb p c' hp) hpc

theorem Behind.traps (h : s.Behind) (ht : s.Traps c k left s')
    (hcur : left = false → s'.kernel.currentPcb = s.kernel.currentPcb) : s'.Behind := by
  intro p c' hp
  obtain ⟨rfl, -, hleft⟩ := ht.inv h hp
  exact (hcur hleft).symm

theorem Behind.leaves (h : s.Behind) : (s.left c value).Behind := by
  intro p c' hp
  by_cases hpc : p = s.kernel.currentPcb
  · exact hpc
  · exact absurd (h p c' ((Function.update_of_ne hpc _ _).symm.trans hp)) hpc

/-- A call that returns has not changed the running process. -/
theorem Traps.current (ht : s.Traps c (c.enter s.kernel) left s') (hleft : left = false) :
    s'.kernel.currentPcb = s.kernel.currentPcb := by
  subst hleft
  have hends := call_ends c s.kernel
  rw [ht.outcome] at hends
  exact hends.1.trans (enter_currentPcb c s.kernel)

theorem Traps.kernel? (ht : s.Traps c k left s') : (swiTrapHandler k).kernel? = some s'.kernel := by
  rw [ht.outcome]
  cases left <;> rfl

end
end Sys

/-- An envelope that the running process has taken out of its mailbox is waiting for it in `ret_code_recv`. -/
structure Orderly (s : Sys) (M : PcbRef → List Addr) (D : List Addr) : Prop where
  behind : s.Behind
  hand : ∀ senderID, s.pc s.kernel.currentPcb = .trapped (.receiveMessage senderID) false → s.kernel.msgReturn = true
  calm : Calm s.kernel
  mail : Mail s.kernel M D

/-- No process is behind a receive that has returned. -/
def Idle (s : Sys) : Prop := ∀ p senderID, s.pc p ≠ .trapped (.receiveMessage senderID) false

/-- A receiver that has blocked finds `msg_return` cleared when it runs again, so that it looks into its mailbox. -/
def LooksAgain (s : Sys) : Prop :=
  ∀ senderID, s.pc s.kernel.currentPcb = .trapped (.receiveMessage senderID) true → s.kernel.msgReturn = false

/-- The process is behind a receive that has blocked. -/
def Pc.blockedReceive : Pc → Bool
  | .trapped (.receiveMessage _) true => true
  | _ => false

theorem looksAgain_iff {s : Sys} :
    LooksAgain s ↔ ((s.pc s.kernel.currentPcb).blockedReceive = true → s.kernel.msgReturn = false) := by
  unfold LooksAgain Pc.blockedReceive
  constructor
  · intro h hb
    split at hb
    next senderID hpc => exact h senderID hpc
    next => cases hb
  · intro h senderID hpc
    rw [hpc] at h
    exact h rfl

instance (s : Sys) : Decidable (LooksAgain s) := decidable_of_iff _ looksAgain_iff.symm

section
variable {s s' : Sys} {c : Call} {k : Kernel} {left : Bool} {M : PcbRef → List Addr} {D : List Addr} {value : Nat}

/-- Only the running process can be behind a trap that has returned. -/
theorem Sys.Behind.idle (h : s.Behind)
    (hidle : ∀ senderID, s.pc s.kernel.currentPcb ≠ .trapped (.receiveMessage senderID) false) : Idle s := by
  intro p senderID hpc
  have hp := h p _ hpc
  subst hp
  exact hidle senderID hpc

/-- After a trap that is not a receive that returns, no process is behind such a receive. -/
theorem Sys.Traps.idle (ht : s.Traps c k left s')
    (hc : ∀ senderID, Pc.trapped c left ≠ .trapped (.receiveMessage senderID) false) (hb : s.Behind) : Idle s' := by
  intro p senderID hpc
  obtain ⟨-, rfl, rfl⟩ := ht.inv hb hpc
  exact hc senderID rfl

/-- A trap of another call than a receive puts the message that is sent into the mailbox. -/
theorem Orderly.call (h : Orderly s M D) (hc : ∀ senderID, c ≠ .receiveMessage senderID)
    (hl : (∀ b, c ≠ .releaseMemoryBlock b) → ∀ e, c.gives s.kernel = some e → Loose M D e)
    (ht : s.Traps c (c.enter s.kernel) left s') :
    Idle s' ∧ ∃ D', Orderly s' (c.posted (c.gives s.kernel) M) D' ∧
      ∀ x ∈ D', x ∈ D ∨ c.delays = true ∧ c.gives s.kernel = some x := by
  obtain ⟨hcalm, D', hmail, hmem⟩ := call_mailed hc h.calm h.mail hl ht.kernel?
  have hidle := ht.idle (fun senderID he => hc senderID (Pc.trapped.inj he).1) h.behind
  exact ⟨hidle, D', ⟨h.behind.traps ht ht.current, fun senderID hpc => absurd hpc (hidle _ senderID), hcalm, hmail⟩, hmem⟩

/-- A trap of a receive takes the oldest message out of the mailbox of the running process, or blocks the process. -/
theorem Orderly.receive {senderID : Nat} (h : Orderly s M D) (hcode : k.kernelCode = KernelCode.receiveMessage)
    (hr : Rescheduled s.kernel k) (hcur : k.currentPcb = s.kernel.currentPcb)
    (ht : s.Traps (.receiveMessage senderID) k left s') :
    (left = true ∧ Rescheduled s.kernel s'.kernel ∧ Idle s' ∧ Orderly s' M D) ∨
      (left = false ∧ s'.kernel.currentPcb = s.kernel.currentPcb ∧ s'.kernel.blockNext = s.kernel.blockNext ∧
        s'.kernel.freeMemQ = s.kernel.freeMemQ ∧ ∃ l e, M s.kernel.currentPcb = l ++ [e] ∧
          s'.kernel.retCodeRecv = e.val ∧ Orderly s' (Function.update M s.kernel.currentPcb l) D) := by
  have hcalm := h.calm.rescheduled hr
  have hmail := h.mail.rescheduled hr
  have ho := ht.outcome
  cases left with
  | true =>
    have hres := receiveMessage_switched hcode ho
    have hidle := ht.idle (fun _ => nofun) h.behind
    exact Or.inl ⟨rfl, hr.trans hres, hidle, h.behind.traps ht nofun, fun senderID hpc => absurd hpc (hidle _ senderID),
      hcalm.rescheduled hres, hmail.rescheduled hres⟩
  | false =>
    obtain ⟨l, e, hl, hmail', next, q, hk⟩ := receiveMessage_mail hcode hcalm hmail ho
    have hcur' : s'.kernel.currentPcb = s.kernel.currentPcb := (congrArg Kernel.currentPcb hk).trans hcur
    refine Or.inr ⟨rfl, hcur', (congrArg Kernel.blockNext hk).trans hr.blockNext,
      (congrArg Kernel.freeMemQ hk).trans hr.freeMemQ, l, e, hcur ▸ hl, congrArg Kernel.retCodeRecv hk,
      h.behind.traps ht fun _ => hcur', fun _ _ => congrArg Kernel.msgReturn hk, ?_, hcur ▸ hmail'⟩
    rw [hk]
    exact hcalm.congr (fun _ => rfl) (fun _ => rfl) hcalm.inIProcess

theorem Orderly.idle_left (h : Orderly s M D) : Idle (s.left c value) := by
  intro p senderID
  show Function.update s.pc s.kernel.currentPcb Pc.user p ≠ _
  by_cases hp : p = s.kernel.currentPcb
  · subst hp
    rw [Function.update_self]
    exact nofun
  · rw [Function.update_of_ne hp]
    exact fun hpc => hp (h.behind p _ hpc)

theorem Orderly.leave (h : Orderly s M D) : Orderly (s.left c value) M D :=
  ⟨h.behind.leaves, fun senderID hpc => absurd hpc (h.idle_left _ senderID), h.calm, h.mail⟩

/-- A receiver that has looked into its mailbox is given the message that it found there. -/
theorem Orderly.received {senderID : Nat} (hok : LooksAgain s)
    (hpc : s.pc s.kernel.currentPcb = .trapped (.receiveMessage senderID) left)
    (hv : (Call.receiveMessage senderID).leave s.kernel = some value) : left = false ∧ s.kernel.retCodeRecv = value := by
  have hflag : s.kernel.msgReturn = true := by
    cases hm : s.kernel.msgReturn with
    | true => rfl
    | false => simp [Call.leave, hm] at hv
  refine ⟨?_, by simpa [Call.leave, hflag] using hv⟩
  cases left with
  | true => exact absurd ((hok senderID hpc).symm.trans hflag) Bool.false_ne_true
  | false => rfl

theorem Booted.orderly {img : Layout} (h : Booted img k) : Orderly (.start k) (fun _ => []) [] :=
  ⟨fun _ _ => nofun, fun _ => nofun, h.calm, h.mail⟩

end
end DoorRtos
