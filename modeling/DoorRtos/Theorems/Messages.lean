import DoorRtos.Theorems.Steps
import DoorRtos.Runs

/-! The messages that the processes send and receive, in any order of system calls. A receiver that has blocked goes on
    inside the loop of `receive_message`, after other processes have used its global cells. -/

namespace DoorRtos
open Linked

/-- The message that a call sends to process `p`. -/
def Obs.sent (p : PcbRef) : Obs → Option Addr
  | called _ c given => if c.sendsTo p then given else none
  | returned _ _ _ => none

/-- The value that `receive_message` returns to process `p`. -/
def Obs.received (p : PcbRef) : Obs → Option Nat
  | returned q (.receiveMessage _) value => if q = p then some value else none
  | _ => none

def sentTo (p : PcbRef) (log : List Obs) : List Addr := log.filterMap (Obs.sent p)

def receivedBy (p : PcbRef) (log : List Obs) : List Nat := log.filterMap (Obs.received p)

/-- Every process has received what was sent to it first, in the order of sending, and nothing else. -/
def InOrder (s : Sys) : Prop := ∀ p, receivedBy p s.log <+: (sentTo p s.log).map Addr.val

/-- The envelope is linked in a mailbox or in the list of delayed messages. -/
def Posted (k : Kernel) (e : Addr) : Prop :=
  ∃ q l, (q = k.delayedSendQueue ∨ ∃ p, q = k.mQueues p) ∧ IsList k.messNext q.head l ∧ e ∈ l

/-- A process sends only envelopes that are not linked already, and a receiver that has blocked looks into its mailbox
    again. -/
def InTurn (s : Sys) : Act → Prop
  | .call c => (∀ b, c ≠ .releaseMemoryBlock b) → ∀ e, c.gives s.kernel = some e → ¬Posted s.kernel e
  | .resume => LooksAgain s

/-- The message that the running process has taken out of its mailbox and has not been given yet. -/
def Sys.inHand (s : Sys) (p : PcbRef) : List Nat :=
  match s.pc p with
  | .trapped (.receiveMessage _) false => [s.kernel.retCodeRecv]
  | _ => []

section
variable {s s' : Sys} {k : Kernel} {M : PcbRef → List Addr} {D : List Addr} {c : Call} {e : Addr} {p q : PcbRef}
  {log : List Obs} {left : Bool} {value : Nat} {given : Option Addr} {a : Act}

theorem Mail.loose (h : Mail k M D) (he : ¬Posted k e) : Loose M D e := by
  refine ⟨fun p hp => he ⟨_, M p, Or.inr ⟨p, rfl⟩, (h.mailboxes.holds p).list, hp⟩, fun hD => ?_⟩
  exact he ⟨_, D, Or.inl rfl, h.delayed, hD⟩

/-! ### The history -/

theorem filterMap_concat {α β : Type} (f : α → Option β) (l : List α) (x : α) :
    (l ++ [x]).filterMap f = l.filterMap f ++ (f x).toList := by
  rw [List.filterMap_append]
  cases hx : f x <;> simp [hx]

theorem sentTo_called :
    sentTo p (log ++ [.called q c given]) = sentTo p log ++ if c.sendsTo p then given.toList else [] := by
  unfold sentTo
  rw [filterMap_concat]
  show _ ++ (if c.sendsTo p then given else none).toList = _
  split <;> rfl

theorem receivedBy_called : receivedBy p (log ++ [.called q c given]) = receivedBy p log := by
  unfold receivedBy
  rw [filterMap_concat]
  exact List.append_nil _

theorem sentTo_returned : sentTo p (log ++ [.returned q c value]) = sentTo p log := by
  unfold sentTo
  rw [filterMap_concat]
  exact List.append_nil _

theorem receivedBy_message {senderID : Nat} : receivedBy p (log ++ [.returned q (.receiveMessage senderID) value]) =
    receivedBy p log ++ if q = p then [value] else [] := by
  unfold receivedBy
  rw [filterMap_concat]
  show _ ++ (if q = p then some value else none).toList = _
  split <;> rfl

theorem receivedBy_other (hc : ∀ senderID, c ≠ .receiveMessage senderID) :
    receivedBy p (log ++ [.returned q c value]) = receivedBy p log := by
  unfold receivedBy
  rw [filterMap_concat]
  cases c with
  | receiveMessage senderID => exact absurd rfl (hc senderID)
  | _ => exact List.append_nil _

/-! ### The invariant -/

/-- What was sent to a process it has received, or it is about to be given it, or it is in its mailbox. -/
structure Fifo (s : Sys) (M : PcbRef → List Addr) (D : List Addr) : Prop extends Orderly s M D where
  order : ∀ p, (sentTo p s.log).map Addr.val = receivedBy p s.log ++ s.inHand p ++ ((M p).reverse).map Addr.val

theorem Fifo.inOrder (h : Fifo s M D) : InOrder s := fun p => by
  rw [h.order p, List.append_assoc]
  exact List.prefix_append _ _

/-- Behind a trap that is not a receive, and in its own code, a process has no message in hand. -/
theorem Idle.inHand (h : Idle s) (p : PcbRef) : s.inHand p = [] := by
  unfold Sys.inHand
  split
  next senderID hp => exact absurd hp (h p senderID)
  next => rfl

theorem Sys.Behind.inHand_of_ne (h : s.Behind) (hp : p ≠ s.kernel.currentPcb) : s.inHand p = [] := by
  unfold Sys.inHand
  split
  next senderID hpc => exact absurd (h p _ hpc) hp
  next => rfl

theorem inHand_eq {senderID : Nat} (h : s.pc p = .trapped (.receiveMessage senderID) false) :
    s.inHand p = [s.kernel.retCodeRecv] := by
  unfold Sys.inHand
  rw [h]

/-! ### The steps -/

theorem Fifo.call (h : Fifo s M D) (hc : ∀ senderID, c ≠ .receiveMessage senderID) (hok : InTurn s (.call c))
    (huser : s.pc s.kernel.currentPcb = .user)
    (hlog : s'.log = s.log ++ [.called s.kernel.currentPcb c (c.gives s.kernel)])
    (ht : s.Traps c (c.enter s.kernel) left s') : ∃ M' D', Fifo s' M' D' := by
  obtain ⟨hidle', D', hord, -⟩ := h.toOrderly.call hc (fun hrel e he => h.mail.loose (hok hrel e he)) ht
  have hidle : Idle s := h.behind.idle fun _ => by rw [huser]; exact nofun
  refine ⟨_, D', hord, fun p => ?_⟩
  have horder := h.order p
  rw [hidle.inHand] at horder
  rw [hidle'.inHand, hlog, sentTo_called, receivedBy_called]
  unfold Call.posted
  split
  · rw [List.map_append, horder]
    cases c.gives s.kernel <;> simp
  · simpa using horder

theorem Fifo.receive {senderID : Nat} (h : Fifo s M D) (hcode : k.kernelCode = KernelCode.receiveMessage)
    (hr : Rescheduled s.kernel k) (hcur : k.currentPcb = s.kernel.currentPcb) (hidle : Idle s)
    (hsent : ∀ p, sentTo p s'.log = sentTo p s.log) (hreceived : ∀ p, receivedBy p s'.log = receivedBy p s.log)
    (ht : s.Traps (.receiveMessage senderID) k left s') : ∃ M' D', Fifo s' M' D' := by
  rcases h.toOrderly.receive hcode hr hcur ht with ⟨-, -, hidle', hord⟩ | ⟨rfl, hcur', -, -, l, e, hl, he, hord⟩
  · refine ⟨M, D, hord, fun p => ?_⟩
    rw [hsent, hreceived, h.order p, hidle.inHand, hidle'.inHand]
  · refine ⟨_, D, hord, fun p => ?_⟩
    rw [hsent, hreceived, h.order p, hidle.inHand]
    by_cases hp : p = s.kernel.currentPcb
    · subst hp
      have hpc : s'.pc s.kernel.currentPcb = .trapped (.receiveMessage senderID) false := by
        rw [ht.pc, Function.update_self]
      rw [inHand_eq hpc, he, hl, Function.update_self]
      simp
    · rw [hord.behind.inHand_of_ne fun h => hp (h.trans hcur'), Function.update_of_ne hp]

theorem Fifo.leave (h : Fifo s M D) (hok : LooksAgain s) (hpc : s.pc s.kernel.currentPcb = .trapped c left)
    (hv : c.leave s.kernel = some value) : Fifo (s.left c value) M D := by
  refine ⟨h.toOrderly.leave, fun p => ?_⟩
  have horder := h.order p
  rw [h.idle_left.inHand]
  unfold Sys.left
  rw [sentTo_returned, List.append_nil]
  by_cases hc : ∃ senderID, c = .receiveMessage senderID
  · obtain ⟨senderID, rfl⟩ := hc
    obtain ⟨rfl, rfl⟩ := Orderly.received hok hpc hv
    rw [receivedBy_message]
    by_cases hp : s.kernel.currentPcb = p
    · subst hp
      rwa [if_pos rfl, ← inHand_eq hpc]
    · rw [h.behind.inHand_of_ne fun he => hp he.symm] at horder
      rwa [if_neg hp]
  · have hother : ∀ senderID, c ≠ .receiveMessage senderID := fun senderID he => hc ⟨senderID, he⟩
    have hidle : Idle s := h.behind.idle fun senderID he => hother senderID (Pc.trapped.inj (hpc.symm.trans he)).1
    rw [receivedBy_other hother]
    rwa [hidle.inHand, List.append_nil] at horder

theorem Fifo.step (h : Fifo s M D) (hok : InTurn s a) (hs : s.step a = some s') : ∃ M' D', Fifo s' M' D' := by
  cases a with
  | call c =>
    obtain ⟨huser, hlog, left, ht⟩ := Sys.step_call hs
    by_cases hc : ∃ senderID, c = .receiveMessage senderID
    · obtain ⟨senderID, rfl⟩ := hc
      have hidle : Idle s := h.behind.idle fun _ => by rw [huser]; exact nofun
      refine h.receive rfl (enter_rescheduled _ _) (enter_currentPcb _ _) hidle (fun p => ?_) (fun p => ?_) ht
      · rw [hlog, sentTo_called]
        exact List.append_nil _
      · rw [hlog, receivedBy_called]
    · exact h.call (fun senderID he => hc ⟨senderID, he⟩) hok huser hlog ht
  | resume =>
    obtain ⟨c, left, hpc, ⟨value, hv, rfl⟩ | ⟨⟨senderID, rfl⟩, hflag, hlog, left', ht⟩⟩ := Sys.step_resume hs
    · exact ⟨M, D, h.leave hok hpc hv⟩
    · have hidle : Idle s := h.behind.idle fun senderID he =>
        absurd (hflag.symm.trans (h.hand senderID he)) Bool.false_ne_true
      exact h.receive (k := { s.kernel with kernelCode := KernelCode.receiveMessage }) rfl
        ⟨fun _ => rfl, fun _ => rfl, rfl, rfl, rfl, rfl, rfl, rfl, id⟩ rfl hidle (fun p => by rw [hlog])
        (fun p => by rw [hlog]) ht

theorem Booted.fifo {img : Layout} (h : Booted img k) : Fifo (.start k) (fun _ => []) [] :=
  ⟨h.orderly, fun _ => rfl⟩

end

/-- In every run from the booted state in which a receiver that has blocked always looks into its mailbox again, every
    process receives exactly the messages sent to it, once each and in the order of sending. -/
theorem messages_inOrder (img : Layout) :
    ∃ k, boot img = .switched k ∧ ∀ acts : List Act, Runs.Along Sys.step InTurn (.start k) acts →
      Runs.Throughout Sys.step InOrder (.start k) acts := by
  obtain ⟨k, hboot, h⟩ := boot_spec img
  refine ⟨k, hboot, fun acts hacts => ?_⟩
  have hinv := Runs.throughout_of_invariant (I := fun s => ∃ M D, Fifo s M D) (fun s a s' hI hok hs => by
    obtain ⟨M, D, hfifo⟩ := hI
    exact hfifo.step hok hs) ⟨_, _, h.fifo⟩ hacts
  exact hinv.imp fun s hI => by
    obtain ⟨M, D, hfifo⟩ := hI
    exact hfifo.inOrder

/-- Nothing is in a mailbox or delayed. -/
def Kernel.Unposted (k : Kernel) : Prop := k.delayedSendQueue.head = none ∧ ∀ p, (k.mQueues p).head = none

instance (k : Kernel) : Decidable k.Unposted := inferInstanceAs (Decidable (_ ∧ _))

theorem Kernel.Unposted.not_posted {k : Kernel} (h : k.Unposted) (e : Addr) : ¬Posted k e := by
  rintro ⟨q, l, hq, hl, he⟩
  have hhead : q.head = none := by
    rcases hq with rfl | ⟨p, rfl⟩
    · exact h.1
    · exact h.2 p
  rw [hhead] at hl
  cases he <;> cases hl.1

/-- The wall clock process sends a message to itself and receives it. -/
def letterToSelf : List Act :=
  [.call .requestMemoryBlock, .resume, .call (.sendMessage wcPid.val firstBlock.val), .resume,
    .call (.receiveMessage 0), .resume]

theorem messages_inOrder_self :
    ∃ k, boot rtosMap = .switched k ∧ Runs.Throughout Sys.step InOrder (.start k) letterToSelf ∧
      ((Runs.exec Sys.step (.start k) letterToSelf).map fun s => receivedBy wcPid s.log) = some [firstBlock.val] := by
  obtain ⟨k, hboot, h⟩ := messages_inOrder rtosMap
  have hrun : (((boot rtosMap).kernel?.bind fun k => Runs.exec (Runs.guarded Sys.step fun s a =>
      a = .resume ∧ LooksAgain s ∨ a ≠ .resume ∧ (a = .call (.receiveMessage 0) ∨ s.kernel.Unposted))
      (.start k) letterToSelf).any fun s => decide (receivedBy wcPid s.log = [firstBlock.val])) = true := by decide +kernel
  rw [hboot] at hrun
  obtain ⟨s, hs, hreceived⟩ := Option.any_eq_true _ _ |>.mp hrun
  obtain ⟨halong, hs⟩ := Runs.along_of_guarded hs
  refine ⟨k, hboot, h _ (halong.imp fun s a hok => ?_), by rw [hs]; exact congrArg some (of_decide_eq_true hreceived)⟩
  rcases hok with ⟨rfl, hlooks⟩ | ⟨hcall, hempty⟩
  · exact hlooks
  · cases a with
    | resume => exact absurd rfl hcall
    | call c =>
      intro _ e he
      rcases hempty with ⟨⟨⟩⟩ | hempty
      · cases he
      · exact hempty.not_posted e

/-- The wall clock process blocks in a receive. The CRT process sends itself a message, receives it, and then sends one
    to the wall clock process. -/
def crossedReceives : List Act :=
  [.call (.receiveMessage 0), .call .requestMemoryBlock, .resume,
    .call (.sendMessage crtPid.val firstBlock.val), .resume, .call (.receiveMessage 0), .resume,
    .call .requestMemoryBlock, .resume,
    .call (.sendMessage wcPid.val secondBlock.val), .resume, .call .releaseProcessor,
    .call .releaseProcessor, .resume]

/-- When it runs again, the wall clock process is given the message that the CRT process has received before. -/
theorem message_of_another :
    ∃ s, ((boot rtosMap).kernel?.bind fun k =>
        Runs.exec Sys.step (.start k) crossedReceives) = some s ∧
      receivedBy wcPid s.log = [firstBlock.val] ∧
      (sentTo wcPid s.log).map Addr.val = [secondBlock.val] ∧ ¬InOrder s := by
  have hrun : (((boot rtosMap).kernel?.bind fun k =>
      Runs.exec Sys.step (.start k) crossedReceives).any fun s =>
        decide (receivedBy wcPid s.log = [firstBlock.val] ∧
          (sentTo wcPid s.log).map Addr.val = [secondBlock.val])) = true := by decide +kernel
  obtain ⟨s, hs, hall⟩ := Option.any_eq_true _ _ |>.mp hrun
  obtain ⟨hreceived, hsent⟩ := of_decide_eq_true hall
  refine ⟨s, hs, hreceived, hsent, fun horder => ?_⟩
  have hstart := horder wcPid
  rw [hreceived, hsent] at hstart
  exact absurd hstart (by decide)

end DoorRtos
