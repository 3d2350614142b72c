import DoorRtos.Theorems.Ensemble
import DoorRtos.Theorems.Statements

/-! Whole runs of the processes: the network takes part in every run, and the block that a process works on is nowhere
    else. -/

namespace DoorRtos
open Interaction Linked Network Runs

/-- The pids of the process table. -/
def Kernel.pids (k : Kernel) (p : PcbRef) : Nat := (k.pcbs p).pid

/-- The block has been given to process `p`, and is nowhere else. -/
structure Sys.Exclusive (img : Layout) (s : Sys) (p : PcbRef) (b : Addr) : Prop where
  pool : b ∈ img.pool
  hand : b ∈ hands p s.log
  others : ∀ q, q ≠ p → b ∉ hands q s.log
  mailbox : ∀ q l, IsList s.kernel.messNext (s.kernel.mQueues q).head l → b ∉ l
  delayed : ∀ l, IsList s.kernel.messNext s.kernel.delayedSendQueue.head l → b ∉ l
  free : ∀ l, IsList s.kernel.blockNext s.kernel.freeMemQ.head l → b ∉ l

namespace Ensemble

/-- The messages that wait for process `p`, the oldest first, with the one that it has taken out of its mailbox and has not
    been given yet. -/
def Waiting (s : Ensemble) (p : PcbRef) (w : List Envelope) : Prop :=
  ∃ l, IsList s.sys.kernel.messNext (s.sys.kernel.mQueues p).head l ∧ w = (s.sys.carried p ++ l.reverse).map s.envelope

/-- What the network shows is what is found on the kernel: the messages that have been received, those that wait in the
    mailboxes, with their contents, the code of the processes that run it, and the blocks that they hold. -/
structure Shows (s : Ensemble) (log : Log PcbRef Envelope) (c : Config PcbRef Node Envelope) : Prop where
  received : ∀ p, s.receivedBy p = Network.received (actionsOf p log)
  waiting : ∀ p, s.Waiting p (c.mail p)
  code : ∀ p, s.sys.pc p = .user → (c.nodes p).1 = s.rest p
  blocks : ∀ p, ∀ b ∈ (c.nodes p).2.held, b ∈ hands p s.sys.log ∧ (c.nodes p).2.memory b = s.contents b

/-- The network has come from `c₀` to the state of the processes. -/
structure Follows (img : Layout) (pids : PcbRef → Nat) (c₀ : Config PcbRef Node Envelope) (s : Ensemble)
    (log : Log PcbRef Envelope) (c : Config PcbRef Node Envelope) : Prop where
  path : Path (Network.Step (nodeStep pids)) c₀ log c
  received : ∀ p, s.receivedBy p = Network.received (actionsOf p log)
  mirrors : ∃ F M D, Accounted img s.sys F M D ∧ Mirrors pids s M c

section
variable {img : Layout} {pids : PcbRef → Nat} {s s' : Ensemble} {F : List Addr} {M : PcbRef → List Addr} {D : List Addr}
  {c c₀ : Config PcbRef Node Envelope} {log : Log PcbRef Envelope} {p q : PcbRef} {op : ClockOp}
  {next : ClockAns op → ClockProc Unit} {b e : Addr} {k : Kernel}

theorem Follows.step (h : Follows img pids c₀ s log c) (hok : s.Sound) (hs : s.step p = some s') :
    ∃ log' c', Follows img pids c₀ s' log' c' := by
  obtain ⟨F, M, D, hacc, hmirrors⟩ := h.mirrors
  obtain ⟨F', M', D', log', c', hacc', hmirrors', hpath, hreceived⟩ := hmirrors.step hacc hok hs
  refine ⟨log ++ log', c', h.path.append hpath, fun q => ?_, F', M', D', hacc', hmirrors'⟩
  rw [hreceived, h.received, actionsOf_append, Network.received_append]

theorem Follows.shows (h : Follows img pids c₀ s log c) : s.Shows log c := by
  obtain ⟨F, M, D, hacc, hmirrors⟩ := h.mirrors
  refine ⟨h.received, fun p => ⟨M p, (hacc.mail.mailboxes.holds p).list, hmirrors.mail p⟩, fun p hpc => ?_,
    fun p b hb => ⟨hmirrors.held p b hb, hmirrors.memory p b hb⟩⟩
  rw [hmirrors.code, Ensemble.code, hpc]

/-- At first no process has done anything. -/
theorem start_follows (h : Booted img k) (contents : Addr → Content) (program : PcbRef → ClockProc Unit)
    (hcareful : ∀ p, Careful k.pids p (program p)) :
    Follows img k.pids (network contents program) (.start k contents program) [] (network contents program) where
  path := .nil _
  received _ := rfl
  mirrors := ⟨_, _, _, h.accounted, {
    table := fun _ => rfl
    trapped := nofun
    message := nofun
    code := fun _ => rfl
    held := fun _ _ hb => absurd hb List.not_mem_nil
    memory := fun _ _ hb => absurd hb List.not_mem_nil
    mail := fun _ => rfl
    careful := fun p => hcareful p contents }⟩

theorem Follows.run {turns : List PcbRef} (h : Follows img pids c₀ s log c)
    (hok : Along Ensemble.step (fun s _ => s.Sound) s turns) (hs : exec Ensemble.step s turns = some s') :
    ∃ log' c', Follows img pids c₀ s' log' c' :=
  exec_invariant (I := fun s => ∃ log c, Follows img pids c₀ s log c)
    (fun _ _ _ ⟨_, _, h⟩ hok hs => h.step hok hs) ⟨log, c, h⟩ hok hs

/-- What a process holds is nowhere else. -/
theorem exclusive_of_hand (h : Accounted img s.sys F M D) (hb : b ∈ hands p s.sys.log) : s.sys.Exclusive img p b where
  pool := h.custody.within (.hand p) b hb
  hand := hb
  others q hq hb' := by
    cases h.custody.apart (.hand q) (.hand p) b hb' hb
    exact hq rfl
  mailbox q l hl hmem := (h.loose hb).1 q (hl.det (h.mail.mailboxes.holds q).list ▸ hmem)
  delayed l hl hmem := (h.loose hb).2 (hl.det h.mail.delayed ▸ hmem)
  free l hl hmem := by
    cases h.custody.apart .free (.hand p) b (hl.det h.free.list ▸ hmem) hb

/-- A process holds the block that its next statement stores to or hands over. -/
theorem Mirrors.owns (h : Mirrors pids s M c) (hpc : s.sys.pc p = .user) (hrest : s.rest p = .call op next)
    (he : op.operand = some e) : e ∈ hands p s.sys.log := by
  have hspec := h.careful p
  rw [h.user hpc hrest] at hspec
  exact h.held p e (hspec.2.1.1 e he)

/-- A turn of another process leaves the blocks that a process holds alone. -/
theorem Follows.isolated (h : Follows img pids c₀ s log c) (hs : s.step q = some s') (hq : q ≠ p)
    (hb : b ∈ hands p s.sys.log) : b ∈ hands p s'.sys.log ∧ s'.contents b = s.contents b := by
  obtain ⟨F, M, D, hacc, hmirrors⟩ := h.mirrors
  obtain ⟨rfl, op, next, hrest, ⟨hcall, x, s₁, hplain, hs₁, rfl⟩ | ⟨call, hcall, ⟨huser, sys, hsys, rfl⟩ |
    ⟨call', left, sys, hpc, hsys, hcases⟩⟩⟩ := step_inv hs
  · have huser : s.sys.pc s.sys.kernel.currentPcb = .user := by
      cases hpc : s.sys.pc s.sys.kernel.currentPcb with
      | user => rfl
      | trapped call left => exact absurd (hcall.symm.trans (hmirrors.behind hpc hrest).1) nofun
    obtain ⟨l, -, -, -, hframe⟩ := assign_inv (p := s.sys.kernel.currentPcb) pids hcall hplain hs₁
      (hmirrors.memory s.sys.kernel.currentPcb)
    refine ⟨?_, hframe.contents b fun huses => hq ?_⟩
    · show b ∈ hands p s₁.sys.log
      rw [hframe.sys]
      exact hb
    · cases hacc.custody.apart (.hand s.sys.kernel.currentPcb) (.hand p) b (hmirrors.owns huser hrest huses) hb
      rfl
  · obtain ⟨-, hlog, -⟩ := Sys.step_call hsys
    refine ⟨?_, rfl⟩
    show b ∈ hands p sys.log
    rw [hlog]
    exact mem_hands_called.mpr ⟨hb, fun he => absurd he.symm hq⟩
  · have hkept : b ∈ hands p sys.log := by
      obtain ⟨c', left', -, ⟨value, -, rfl⟩ | ⟨-, -, hlog, -⟩⟩ := Sys.step_resume hsys
      · exact mem_hands_returned.mpr (Or.inr hb)
      · rw [hlog]
        exact hb
    rcases hcases with ⟨-, rfl⟩ | ⟨value, x, -, -, rfl⟩
    · exact ⟨hkept, rfl⟩
    · exact ⟨hkept, rfl⟩

end
end Ensemble

/-- In every run of careful processes in which a receiver that has blocked always looks into its mailbox again and no
    request that has blocked runs again, the processes do what they can do as a network with mailboxes, in which messages
    are sent by value: every message is received as it has been sent, once, and in the order of sending. -/
theorem processes_as_network (img : Layout) (contents : Addr → Content) (program : PcbRef → ClockProc Unit) :
    ∃ k, boot img = .switched k ∧ ∀ turns s, (∀ p, Careful k.pids p (program p)) →
      Along Ensemble.step (fun s _ => s.Sound) (.start k contents program) turns →
      exec Ensemble.step (.start k contents program) turns = some s →
      ∃ log c, Path (Network.Step (nodeStep k.pids)) (Ensemble.network contents program) log c ∧ s.Shows log c := by
  obtain ⟨k, hboot, h⟩ := boot_spec img
  refine ⟨k, hboot, fun turns s hcareful hok hs => ?_⟩
  obtain ⟨log, c, hfollows⟩ := (Ensemble.start_follows h contents program hcareful).run hok hs
  exact ⟨log, c, hfollows.path, hfollows.shows⟩

/-- A process that sends itself a message of this type and receives it, and then gives up the processor. -/
def diarist (p : PcbRef) (type : Nat) : Proc Unit := do
  let b ← requestMemoryBlock
  store b .type type
  sendMessage p b
  let _ ← receiveMessage
  releaseProcessor

theorem diarist_careful (pids : PcbRef → Nat) (q p : PcbRef) (type : Nat) : Careful pids q (diarist p type).code := by
  refine careful_of_spec fun l => ?_
  refine Spec.quietly spec_requestMemoryBlock unseen_const (fun _ _ => unseen_const) trivial ?_
  rintro _ b ⟨-, content, rfl⟩
  refine Spec.quietly (spec_store (by simp) trivial) unseen_const (fun _ _ => unseen_const) trivial ?_
  rintro _ _ rfl
  refine .bind ((spec_sendMessage (by simp [Local.store_eq])).imp (fun _ _ => trivial) fun _ _ _ h => h) fun _ _ _ _ => ?_
  refine .bind (spec_receiveMessage.imp (fun _ _ => trivial) fun _ _ _ h => h) fun _ _ _ _ => ?_
  exact spec_releaseProcessor.imp (fun _ _ => trivial) fun _ _ _ _ => trivial

/-- The wall clock process runs, and is given its own message. -/
theorem processes_as_network_self :
    ∃ k s log c, boot rtosMap = .switched k ∧
      exec Ensemble.step (.start k (fun _ => ⟨0, fun _ => 0⟩) fun p => (diarist p 7).code)
        (List.replicate 7 wcPid) = some s ∧
      (s.receivedBy wcPid).map Envelope.type = [7] ∧
      Path (Network.Step (nodeStep k.pids))
        (Ensemble.network (fun _ => ⟨0, fun _ => 0⟩) fun p => (diarist p 7).code) log c ∧
      s.Shows log c := by
  obtain ⟨k, hboot, h⟩ := processes_as_network rtosMap (fun _ => ⟨0, fun _ => 0⟩) fun p => (diarist p 7).code
  have hrun : (((boot rtosMap).kernel?.bind fun k => exec (guarded Ensemble.step fun s _ => s.Sound)
      (.start k (fun _ => ⟨0, fun _ => 0⟩) fun p => (diarist p 7).code) (List.replicate 7 wcPid)).any fun s =>
        decide ((s.receivedBy wcPid).map Envelope.type = [7])) = true := by decide +kernel
  rw [hboot] at hrun
  obtain ⟨s, hs, htype⟩ := Option.any_eq_true _ _ |>.mp hrun
  obtain ⟨hok, hs⟩ := along_of_guarded hs
  obtain ⟨log, c, hpath, hshows⟩ := h _ s (fun p => diarist_careful k.pids p p 7) hok hs
  exact ⟨k, s, log, c, hboot, hs, of_decide_eq_true htype, hpath, hshows⟩

/-- In every such run, the block that the running process stores to or hands over next has been given to it, and is in
    no other process' hands, in no mailbox, not delayed and not free. -/
theorem processes_without_races (img : Layout) (contents : Addr → Content) (program : PcbRef → ClockProc Unit) :
    ∃ k, boot img = .switched k ∧ ∀ turns s, (∀ p, Careful k.pids p (program p)) →
      Along Ensemble.step (fun s _ => s.Sound) (.start k contents program) turns →
      exec Ensemble.step (.start k contents program) turns = some s →
      ∀ p op next e, s.sys.pc p = .user → s.rest p = .call op next → op.operand = some e → s.sys.Exclusive img p e := by
  obtain ⟨k, hboot, h⟩ := boot_spec img
  refine ⟨k, hboot, fun turns s hcareful hok hs p op next e hpc hrest he => ?_⟩
  obtain ⟨log, c, hfollows⟩ := (Ensemble.start_follows h contents program hcareful).run hok hs
  obtain ⟨F, M, D, hacc, hmirrors⟩ := hfollows.mirrors
  exact Ensemble.exclusive_of_hand hacc (hmirrors.owns hpc hrest he)

/-- The block that the wall clock process has requested, before the first store to it. -/
theorem processes_without_races_store :
    ∃ k s, boot rtosMap = .switched k ∧
      exec Ensemble.step (.start k (fun _ => ⟨0, fun _ => 0⟩) fun p => (diarist p 7).code)
        (List.replicate 2 wcPid) = some s ∧
      s.sys.Exclusive rtosMap wcPid firstBlock := by
  obtain ⟨k, hboot, h⟩ := processes_without_races rtosMap (fun _ => ⟨0, fun _ => 0⟩) fun p => (diarist p 7).code
  have hrun : (((boot rtosMap).kernel?.bind fun k => exec (guarded Ensemble.step fun s _ => s.Sound)
      (.start k (fun _ => ⟨0, fun _ => 0⟩) fun p => (diarist p 7).code) (List.replicate 2 wcPid)).any fun s =>
        decide (s.sys.pc wcPid = .user) && match s.rest wcPid with
          | .call op _ => decide (op.operand = some firstBlock)
          | .ret _ => false) = true := by decide +kernel
  rw [hboot] at hrun
  obtain ⟨s, hs, hnext⟩ := Option.any_eq_true _ _ |>.mp hrun
  obtain ⟨hok, hs⟩ := along_of_guarded hs
  obtain ⟨hpc, hnext⟩ := Bool.and_eq_true_iff.mp hnext
  split at hnext
  next op next hrest =>
    exact ⟨k, s, hboot, hs, h _ s (fun p => diarist_careful k.pids p p 7) hok hs wcPid op next firstBlock
      (of_decide_eq_true hpc)
      hrest (of_decide_eq_true hnext)⟩
  next => cases hnext

/-- In every such run, the blocks that a process holds stay in its hands and keep their contents for as long as only other
    processes have their turns. -/
theorem processes_isolated (img : Layout) (contents : Addr → Content) (program : PcbRef → ClockProc Unit) :
    ∃ k, boot img = .switched k ∧ ∀ turns s turns' s', (∀ p, Careful k.pids p (program p)) →
      Along Ensemble.step (fun s _ => s.Sound) (.start k contents program) (turns ++ turns') →
      exec Ensemble.step (.start k contents program) turns = some s → exec Ensemble.step s turns' = some s' →
      ∀ p, p ∉ turns' → ∀ b ∈ hands p s.sys.log, b ∈ hands p s'.sys.log ∧ s'.contents b = s.contents b := by
  obtain ⟨k, hboot, h⟩ := boot_spec img
  refine ⟨k, hboot, fun turns s turns' s' hcareful hok hs hs' p hp b hb => ?_⟩
  obtain ⟨log, c, hfollows⟩ := (Ensemble.start_follows h contents program hcareful).run hok.left hs
  have hwhole := (hok.right hs).and_forall (p := fun q => q ≠ p) fun q hq he => hp (he ▸ hq)
  have hinv := exec_invariant
    (I := fun t => (∃ log c, Ensemble.Follows img k.pids (Ensemble.network contents program) t log c) ∧
      b ∈ hands p t.sys.log ∧ t.contents b = s.contents b)
    (fun t q t' hI hC ht => by
      obtain ⟨⟨log, c, hfollows⟩, hhand, hcontents⟩ := hI
      obtain ⟨hhand', hcontents'⟩ := hfollows.isolated ht hC.2 hhand
      exact ⟨hfollows.step hC.1 ht, hhand', hcontents'.trans hcontents⟩)
    ⟨⟨log, c, hfollows⟩, hb, rfl⟩ hwhole hs'
  exact hinv.2

/-- The wall clock process holds its block and has given up the processor, and the CRT process requests one for itself. -/
theorem processes_isolated_crt :
    ∃ k s s', boot rtosMap = .switched k ∧
      exec Ensemble.step (.start k (fun _ => ⟨0, fun _ => 0⟩) fun p => (diarist p 7).code)
        (List.replicate 8 wcPid) = some s ∧
      exec Ensemble.step s (List.replicate 2 crtPid) = some s' ∧
      firstBlock ∈ hands wcPid s'.sys.log ∧ s'.contents firstBlock = s.contents firstBlock := by
  obtain ⟨k, hboot, h⟩ := processes_isolated rtosMap (fun _ => ⟨0, fun _ => 0⟩) fun p => (diarist p 7).code
  have hrun : (((boot rtosMap).kernel?.bind fun k => exec (guarded Ensemble.step fun s _ => s.Sound)
      (.start k (fun _ => ⟨0, fun _ => 0⟩) fun p => (diarist p 7).code)
      (List.replicate 8 wcPid ++ List.replicate 2 crtPid)).isSome &&
        ((boot rtosMap).kernel?.bind fun k => exec Ensemble.step
          (.start k (fun _ => ⟨0, fun _ => 0⟩) fun p => (diarist p 7).code) (List.replicate 8 wcPid)).any fun s =>
            decide (firstBlock ∈ hands wcPid s.sys.log)) = true := by decide +kernel
  rw [hboot] at hrun
  obtain ⟨hwhole, hheld⟩ := Bool.and_eq_true_iff.mp hrun
  obtain ⟨s', hs'⟩ := Option.isSome_iff_exists.mp hwhole
  obtain ⟨s, hs, hheld⟩ := Option.any_eq_true _ _ |>.mp hheld
  replace hs : exec Ensemble.step (.start k _ _) _ = some s := hs
  obtain ⟨hok, hs'⟩ := along_of_guarded hs'
  rw [exec_append, hs] at hs'
  obtain ⟨hhand, hcontents⟩ := h _ s _ s' (fun p => diarist_careful k.pids p p 7) hok hs hs' wcPid (by decide) firstBlock
    (of_decide_eq_true hheld)
  exact ⟨k, s, s', hboot, hs, hs', hhand, hcontents⟩

end DoorRtos
