import DoorRtos.Runs
import DoorRtos.Theorems.Damage
import DoorRtos.Theorems.WellScheduled
import DoorRtos.Traps

/-! What sending a message does to the sender and to the processes that wait. `kernel_send_message` compares
    the two priorities the wrong way round: it switches when the receiver's priority number is the larger
    one, and it does not put the sender into the ready queue. -/

namespace DoorRtos
open Linked

section
variable {k k' k₁ : Kernel} {L L' : Slot → List PcbRef} {d mq : PcbRef} {e : Addr} {pid : Nat}

/-! ### Sending to a process that waits for a message -/

/-- A receiver whose priority has no subqueue is put past the end of the array. -/
theorem sendMessage_past_levels (hd : getPcb k pid = some d) (hmq : (k.pcbs d).messQueue = some mq)
    (hst : (k.pcbs d).state = .messageWait) (hprio : numPrio < (k.pcbs d).priority) :
    kernelSendMessage pid e k = .stuck := by
  rw [kernelSendMessage_wake hd hmq hst, enqueuePCBByPriority_eq_none (by rw [Kernel.setState_priority]; exact hprio)]
  rfl

/-- The receiver is put into the ready queue; a larger priority number makes the sender leave. -/
theorem sendMessage_waiting (ht : k.TableOk) (hc : k.Created k.currentPcb) (hi : k.inIProcess = false)
    (hd : getPcb k pid = some d) (hmq : (k.pcbs d).messQueue = some mq) (hst : (k.pcbs d).state = .messageWait)
    (hput : enqueuePCBByPriority .ready d ((k.delivered pid e mq).setState d .ready) = some k₁) :
    kernelSendMessage pid e k =
      if k.current.priority < (k.pcbs d).priority then
        liftM (dequeuePCBFIFOByPriority .ready k₁) >>= fun r => contextSwitch r.1 r.2
      else .returned (rtxSuccess, k₁) := by
  obtain ⟨-, next, c, rfl⟩ := enqueuePCBByPriority_inv hput
  have hsrc : getPcb (((k.delivered pid e mq).setState d .ready).setQueue .ready next c) k.current.pid =
      some k.currentPcb := by
    rw [getPcb_congr (k := k) fun x => by simp]
    exact getPcb_of_created ht hc
  rw [kernelSendMessage_woken hd hmq hst hput hsrc]
  simp only [Kernel.setQueue_pcbs, Kernel.setState_priority, delivered_pcbs, Kernel.setQueue_inIProcess,
    Kernel.setState_inIProcess, delivered_inIProcess, hi]
  by_cases hlt : k.current.priority < (k.pcbs d).priority
  · rw [if_pos hlt, if_pos ⟨hlt, Bool.false_ne_true⟩]
  · rw [if_neg hlt, if_neg fun h => hlt h.1]

/-- The sender that leaves is neither run nor linked. -/
theorem sendMessage_lost (hrep : Rep k L) (ht : k.TableOk) (hc : k.Created k.currentPcb) (hi : k.inIProcess = false)
    (hun : Unlinked L k.currentPcb) (hd : getPcb k pid = some d) (hmq : (k.pcbs d).messQueue = some mq)
    (hst : (k.pcbs d).state = .messageWait) (hdc : d ≠ k.currentPcb)
    (hlt : k.current.priority < (k.pcbs d).priority) (hlast : (kernelSendMessage pid e k).last = some k') :
    k'.currentPcb ≠ k.currentPcb ∧ (k'.pcbs k.currentPcb) = k.current ∧ ∀ L', Rep k' L' → Unlinked L' k.currentPcb := by
  by_cases hle : numPrio < (k.pcbs d).priority
  · rw [sendMessage_past_levels hd hmq hst hle] at hlast
    cases hlast
  have hi' : (((k.delivered pid e mq).setState d .ready).pcbs d).priority =
      (⟨(k.pcbs d).priority, Nat.lt_succ_of_le (Nat.le_of_not_lt hle)⟩ : Level).val := by simp
  have hput := enqueuePCBByPriority_eq (w := .ready) hi'
  rw [sendMessage_waiting ht hc hi hd hmq hst hput, if_pos hlt] at hlast
  have hrep₀ : Rep ((k.delivered pid e mq).setState d .ready) L := hrep.congr rfl rfl
  rcases htake : dequeuePCBFIFOByPriority .ready _ with _ | ⟨_ | x, k₂⟩ <;> rw [htake] at hlast
  · cases hlast
  · cases hlast
  · cases hlast
    obtain ⟨hx, hout⟩ := out_of_reach hrep₀ hun hdc.symm hput htake
    refine ⟨hx, ?_, fun L' hrep' => hout L' (hrep'.congr rfl rfl)⟩
    obtain ⟨-, next, c, n', -, -, rfl⟩ := dequeuePCBFIFOByPriority_inv htake
    simp only [Kernel.setQueue_pcbs, Kernel.setState_pcbs_of_ne _ _ _ _ hdc.symm]
    rfl

/-- A receiver that is linked already is linked twice. -/
theorem sendMessage_linked {s : Slot} (hrep : Rep k L) (ht : k.TableOk) (hc : k.Created k.currentPcb)
    (hi : k.inIProcess = false) (hd : getPcb k pid = some d) (hmq : (k.pcbs d).messQueue = some mq)
    (hst : (k.pcbs d).state = .messageWait) (hin : d ∈ L s) (hle : (k.pcbs d).priority ≤ k.current.priority)
    (hlast : (kernelSendMessage pid e k).last = some k') : ¬Rep k' L' := by
  by_cases hpast : numPrio < (k.pcbs d).priority
  · rw [sendMessage_past_levels hd hmq hst hpast] at hlast
    cases hlast
  have hi' : (((k.delivered pid e mq).setState d .ready).pcbs d).priority =
      (⟨(k.pcbs d).priority, Nat.lt_succ_of_le (Nat.le_of_not_lt hpast)⟩ : Level).val := by simp
  have hput := enqueuePCBByPriority_eq (w := .ready) hi'
  rw [sendMessage_waiting ht hc hi hd hmq hst hput, if_neg (Nat.not_lt_of_le hle)] at hlast
  cases hlast
  have hrep₀ : Rep ((k.delivered pid e mq).setState d .ready) L := hrep.congr rfl rfl
  exact not_rep_of_enqueue_linked hrep₀ hin hput

/-! ### Where every process is -/

/-- The places of a process. -/
inductive Place where
  | running
  | linked (w : QueueId)
  | waiting
  deriving DecidableEq

instance : Fintype Place := ⟨{.running, .linked .ready, .linked .memoryWait, .waiting}, fun c => by
  rcases c with _ | ⟨_ | _⟩ | _ <;> decide⟩

def At (k : Kernel) (L : Slot → List PcbRef) (p : PcbRef) : Place → Prop
  | .running => k.currentPcb = p
  | .linked w => InQueue L w p
  | .waiting => (k.pcbs p).state = .messageWait ∧ Unlinked L p

instance (k : Kernel) (L : Slot → List PcbRef) (p : PcbRef) : DecidablePred (At k L p)
  | .running => inferInstanceAs (Decidable (k.currentPcb = p))
  | .linked w => inferInstanceAs (Decidable (InQueue L w p))
  | .waiting => inferInstanceAs (Decidable (_ ∧ _))

/-- The queues hold the PCBs of `L`, and every process but the interrupt processes is in exactly one place. -/
structure Partition (k : Kernel) (L : Slot → List PcbRef) : Prop where
  rep : Rep k L
  place : ∀ p, k.Created p → ¬IProcess p → ∃! c, At k L p c

instance (k : Kernel) (L : Slot → List PcbRef) : Decidable (Partition k L) :=
  decidable_of_iff
    (Rep k L ∧ ∀ p, k.Created p → ¬IProcess p → ∃ c, At k L p c ∧ ∀ c', At k L p c' → c' = c)
    ⟨fun h => ⟨h.1, h.2⟩, fun h => ⟨h.rep, h.place⟩⟩

/-- The running process is linked nowhere and waits for no message. -/
theorem Partition.current (h : Partition k L) (hc : k.Created k.currentPcb) (hip : ¬IProcess k.currentPcb) :
    Unlinked L k.currentPcb ∧ k.current.state ≠ .messageWait := by
  obtain ⟨c, -, hc⟩ := h.place _ hc hip
  have hrun : Place.running = c := hc .running rfl
  have hun : Unlinked L k.currentPcb := unlinked_iff.mpr fun w hw => by cases hrun.trans (hc (.linked w) hw).symm
  exact ⟨hun, fun hst => by cases hrun.trans (hc .waiting ⟨hst, hun⟩).symm⟩

theorem At.congr {p : PcbRef} (hcur : k'.currentPcb = k.currentPcb) (hin : ∀ w, InQueue L' w p ↔ InQueue L w p)
    (hst : (k'.pcbs p).state = (k.pcbs p).state) (c : Place) : At k' L' p c ↔ At k L p c := by
  cases c with
  | running => simp only [At, hcur]
  | linked w => exact hin w
  | waiting => simp only [At, hst, unlinked_iff, hin]

/-- A process keeps its place when nothing is done to it. -/
theorem place_congr {p : PcbRef} (hcur : k'.currentPcb = k.currentPcb) (hin : ∀ w, InQueue L' w p ↔ InQueue L w p)
    (hst : (k'.pcbs p).state = (k.pcbs p).state) (h : ∃! c, At k L p c) : ∃! c, At k' L' p c := by
  obtain ⟨c, hat, huniq⟩ := h
  exact ⟨c, (At.congr hcur hin hst c).mpr hat, fun c' hat' => huniq c' ((At.congr hcur hin hst c').mp hat')⟩

theorem Partition.congr (h : Partition k L) (hpcbs : k'.pcbs = k.pcbs) (hnext : k'.pcbNext = k.pcbNext)
    (hq : k'.queue = k.queue) (hcur : k'.currentPcb = k.currentPcb) : Partition k' L where
  rep := h.rep.congr hnext hq
  place p hc hi := by
    have hc' : k.Created p := by unfold Kernel.Created at hc ⊢; rwa [hpcbs] at hc
    exact place_congr hcur (fun _ => Iff.rfl) (by rw [hpcbs]) (h.place p hc' hi)

/-- A waiting receiver that is linked nowhere becomes ready, and the sender goes on. -/
theorem Partition.send (pid : Nat) (e : Addr) (mq : PcbRef) (h : Partition k L) (hdc : d ≠ k.currentPcb)
    (hund : Unlinked L d) (hprio : (k.pcbs d).priority ≤ numPrio) :
    ∃ k₁ L₁, enqueuePCBByPriority .ready d ((k.delivered pid e mq).setState d .ready) = some k₁ ∧
      k₁.currentPcb = k.currentPcb ∧ Partition k₁ L₁ := by
  have hrep₀ : Rep ((k.delivered pid e mq).setState d .ready) L := h.rep.congr rfl rfl
  obtain ⟨next, c, hput, hrep₁⟩ := enqueuePCBByPriority_spec (w := .ready) (p := d)
    (i := ⟨(k.pcbs d).priority, Nat.lt_succ_of_le hprio⟩) hrep₀ hund (by simp)
  refine ⟨_, _, hput, by simp, hrep₁, fun p hc hi => ?_⟩
  have hc' : k.Created p := by simpa [Kernel.Created] using hc
  by_cases hpd : p = d
  · subst hpd
    refine ⟨.linked .ready, inQueue_insertAt.mpr (Or.inr ⟨rfl, rfl⟩), fun c' hat => ?_⟩
    cases c' with
    | running => exact absurd (by simpa [At] using hat) hdc.symm
    | linked w =>
      rcases inQueue_insertAt.mp hat with hin | ⟨rfl, -⟩
      · exact absurd hin (unlinked_iff.mp hund w)
      · rfl
    | waiting => exact absurd hat.1 (by simp)
  · refine place_congr (by simp) (fun w => ?_) (by simp [hpd]) (h.place p hc' hi)
    rw [inQueue_insertAt]
    exact ⟨fun hor => hor.resolve_right fun hand => hpd hand.2, Or.inl⟩

theorem WellScheduled.partition (h : WellScheduled k L) : Partition k L where
  rep := h.rep
  place p hc hi := by
    cases h.placed p hc hi with
    | running hcur hun hmem hmess =>
      refine ⟨.running, hcur, fun c hat => ?_⟩
      cases c with
      | running => rfl
      | linked w => exact absurd hat (unlinked_iff.mp hun w)
      | waiting => exact absurd hat.1 hmess
    | ready hcur hin hst =>
      refine ⟨.linked .ready, hin, fun c hat => ?_⟩
      cases c with
      | running => exact absurd hat hcur
      | linked w => rw [h.rep.queue_unique hat hin]
      | waiting => exact absurd (hst.symm.trans hat.1) (by decide)
    | memoryWait hcur hin hst =>
      refine ⟨.linked .memoryWait, hin, fun c hat => ?_⟩
      cases c with
      | running => exact absurd hat hcur
      | linked w => rw [h.rep.queue_unique hat hin]
      | waiting => exact absurd (hst.symm.trans hat.1) (by decide)
    | messageWait hcur hun hst =>
      refine ⟨.waiting, ⟨hst, hun⟩, fun c hat => ?_⟩
      cases c with
      | running => exact absurd hat hcur
      | linked w => exact absurd hat (unlinked_iff.mp hun w)
      | waiting => rfl

/-- A receiver of a larger priority number costs the sender its place. -/
theorem sendMessage_loses (h : Partition k L) (ht : k.TableOk) (hc : k.Created k.currentPcb)
    (hip : ¬IProcess k.currentPcb) (hi : k.inIProcess = false) (hd : getPcb k pid = some d)
    (hmq : (k.pcbs d).messQueue = some mq) (hst : (k.pcbs d).state = .messageWait)
    (hlt : k.current.priority < (k.pcbs d).priority) (hlast : (kernelSendMessage pid e k).last = some k') :
    ¬Partition k' L' := fun hpart => by
  obtain ⟨hun, hmess⟩ := h.current hc hip
  have hdc : d ≠ k.currentPcb := fun he => hmess (by rw [he] at hst; exact hst)
  obtain ⟨hcur, hpcb, hout⟩ := sendMessage_lost h.rep ht hc hi hun hd hmq hst hdc hlt hlast
  have hc' : k'.Created k.currentPcb := by
    unfold Kernel.Created
    rw [hpcb]
    exact hc
  obtain ⟨c, hat, -⟩ := hpart.place _ hc' hip
  cases c with
  | running => exact hcur hat
  | linked w => exact unlinked_iff.mp (hout L' hpart.rep) w hat
  | waiting => exact hmess (hpcb ▸ hat.1)

/-- Exactly when a call of `kernel_send_message` loses no process: a receiver that waits is linked nowhere and
    has a priority with a subqueue, no lower than the sender's. -/
theorem sendMessage_partition (h : Partition k L) (ht : k.TableOk) (hc : k.Created k.currentPcb)
    (hip : ¬IProcess k.currentPcb) (hi : k.inIProcess = false) (hd : getPcb k pid = some d)
    (hmq : (k.pcbs d).messQueue = some mq) :
    (∃ k' L', (kernelSendMessage pid e k).last = some k' ∧ Partition k' L' ∧
        (k'.currentPcb ≠ k.currentPcb → InQueue L' .ready k.currentPcb)) ↔
      ((k.pcbs d).state = .messageWait →
        Unlinked L d ∧ (k.pcbs d).priority ≤ numPrio ∧ (k.pcbs d).priority ≤ k.current.priority) := by
  by_cases hst : (k.pcbs d).state = .messageWait
  · constructor
    · rintro ⟨k', L', hlast, hpart, -⟩ -
      have hpast : (k.pcbs d).priority ≤ numPrio := by
        by_contra hpast
        rw [sendMessage_past_levels hd hmq hst (Nat.lt_of_not_le hpast)] at hlast
        cases hlast
      have hle : (k.pcbs d).priority ≤ k.current.priority := by
        by_contra hlt
        exact sendMessage_loses h ht hc hip hi hd hmq hst (Nat.lt_of_not_le hlt) hlast hpart
      exact ⟨fun s hs => sendMessage_linked h.rep ht hc hi hd hmq hst hs hle hlast hpart.rep, hpast, hle⟩
    · intro hcond
      obtain ⟨hund, hprio, hle⟩ := hcond hst
      have hdc : d ≠ k.currentPcb := fun he => (h.current hc hip).2 (by rw [he] at hst; exact hst)
      obtain ⟨k₁, L₁, hput, hcur, hpart⟩ := h.send pid e mq hdc hund hprio
      refine ⟨k₁, L₁, ?_, hpart, fun hne => absurd hcur hne⟩
      rw [sendMessage_waiting ht hc hi hd hmq hst hput, if_neg (Nat.not_lt_of_le hle)]
      rfl
  · refine ⟨fun _ hst' => absurd hst' hst, fun _ => ⟨_, L, by rw [kernelSendMessage_deliver hd hmq hst]; rfl, ?_⟩⟩
    exact ⟨h.congr rfl rfl rfl rfl, fun hne => absurd rfl hne⟩

/-- The first process after the start, which sends to a ready process. -/
theorem sendMessage_partition_at_boot :
    ∃ k k' L', boot rtosMap = .switched k ∧
      (kernelSendMessage crtPid.val firstBlock k).last = some k' ∧ Partition k' L' := by
  obtain ⟨k, hboot, h⟩ := boot_spec rtosMap
  have hcrt : k.pcbs crtPid = ⟨crtPid.val, .ready, Priority.high, some crtPid⟩ :=
    h.started.pcb (crtPid, Priority.high) (by decide)
  have hget : getPcb k crtPid.val = some crtPid := h.getPcb (x := (crtPid, Priority.high)) (by decide)
  obtain ⟨k', L', hlast, hpart, -⟩ := (sendMessage_partition (e := firstBlock)
    h.started.wellScheduled.partition h.tableOk h.started.created_current (by rw [h.started.current]; decide)
    h.started.inIProcess hget (by rw [hcrt])).mpr fun hst => by rw [hcrt] at hst; cases hst
  exact ⟨k, k', L', hboot, hlast, hpart⟩

/-- Process 1 waits for a message at priority `MEDIUM`, and process 2, at priority `HIGH`, sends it a block that it
    has requested. -/
theorem sendMessage_to_lower_priority :
    ∃ s L, ((boot rtosMap).kernel?.bind fun k => Runs.exec Sys.step (Sys.start k)
        [.call (.receiveMessage 0), .call (.receiveMessage 0), .call (.receiveMessage 0), .call (.receiveMessage 0),
          .call (.setProcessPriority 2 Priority.high), .resume, .call .requestMemoryBlock, .resume]) = some s ∧
      s.log.getLast? = some (.returned 2 .requestMemoryBlock firstBlock.val) ∧
      s.kernel.currentPcb = 2 ∧ Partition s.kernel L ∧ s.kernel.TableOk ∧ s.kernel.Created 2 ∧
      s.kernel.inIProcess = false ∧ getPcb s.kernel 1 = some 1 ∧ (s.kernel.pcbs 1).messQueue = some 1 ∧
      ¬∃ k' L', (kernelSendMessage 1 firstBlock s.kernel).last = some k' ∧ Partition k' L' ∧
        (k'.currentPcb ≠ 2 → InQueue L' .ready 2) := by
  have hrun : (((boot rtosMap).kernel?.bind fun k => Runs.exec Sys.step (Sys.start k)
      [.call (.receiveMessage 0), .call (.receiveMessage 0), .call (.receiveMessage 0), .call (.receiveMessage 0),
        .call (.setProcessPriority 2 Priority.high), .resume, .call .requestMemoryBlock, .resume]).any fun s =>
      decide (s.log.getLast? = some (.returned 2 .requestMemoryBlock firstBlock.val) ∧ s.kernel.currentPcb = 2 ∧
        Partition s.kernel (fun s => if s = (.ready, 1) then [kcdPid, 13, 12, 11, 10, 9, 8, 7, 3]
          else if s = (.ready, 4) then [nullPid] else []) ∧
        s.kernel.TableOk ∧ s.kernel.Created 2 ∧ s.kernel.inIProcess = false ∧ getPcb s.kernel 1 = some 1 ∧
        (s.kernel.pcbs 1).messQueue = some 1 ∧ (s.kernel.pcbs 1).state = .messageWait ∧
        s.kernel.current.priority < (s.kernel.pcbs 1).priority)) = true := by decide +kernel
  obtain ⟨s, hs, hall⟩ := Option.any_eq_true _ _ |>.mp hrun
  obtain ⟨hlog, hcur, hpart, ht, hc, hi, hd, hmq, hst, hlt⟩ := of_decide_eq_true hall
  refine ⟨s, _, hs, hlog, hcur, hpart, ht, hc, hi, hd, hmq, ?_⟩
  rintro ⟨k', L', hlast, hpart', -⟩
  exact sendMessage_loses hpart ht (hcur ▸ hc) (hcur ▸ (by decide)) hi hd hmq hst hlt hlast hpart'

end
end DoorRtos
