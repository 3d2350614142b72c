import DoorRtos.Theorems.Blocks
import DoorRtos.Theorems.Destinations
import DoorRtos.Theorems.OneQueue
import DoorRtos.Theorems.Priorities
import DoorRtos.Theorems.SystemCalls

/-! The schedule over whole runs: which processes can ever run, and what keeps every state well-scheduled. -/

namespace DoorRtos
open Linked

/-- Only processes of `S` run, wait for a message or are linked in a queue. -/
structure Confined (k : Kernel) (S : PcbRef → Prop) : Prop where
  within : Within k S
  current : S k.currentPcb
  waits : ∀ p, (k.pcbs p).state = .messageWait → S p

/-- The state is well-scheduled, and one of the created processes runs that are not interrupt processes. -/
structure Scheduled (s : Sys) : Prop where
  wellScheduled : ∃ L, WellScheduled s.kernel L
  created : s.kernel.Created s.kernel.currentPcb
  process : ¬IProcess s.kernel.currentPcb

/-- The processes hand over only blocks that they hold, a receiver that has blocked looks into its mailbox again, no request
    that has blocked runs again, and the null process makes no calls. -/
def NullIdles (s : Sys) (a : Act) : Prop := HandsOverOwn s a ∧ s.kernel.currentPcb ≠ nullPid

/-- A call keeps the schedule; going on behind a trap always does. -/
def KeepsSchedule (s : Sys) : Act → Prop
  | .call c => ∀ L, WellScheduled s.kernel L → CallKeeps s.kernel L c
  | .resume => True

/-- The running process calls from its own code, and goes on from behind a trap. -/
def Sys.Turn (s : Sys) : Act → Prop
  | .call _ => s.pc s.kernel.currentPcb = .user
  | .resume => ∃ c left, s.pc s.kernel.currentPcb = .trapped c left

/-- What every state keeps that is reached by calls that keep the schedule, from the kernel `k₀` that has started. -/
structure Orchestrated (img : Layout) (k₀ : Kernel) (s : Sys) : Prop where
  wellScheduled : ∃ L, WellScheduled s.kernel L
  accounted : ∃ F M D, Accounted img s F M D
  confined : Confined s.kernel (· ∈ readyProcesses.map Prod.fst)
  table : SameTable k₀ s.kernel

section
variable {k k' k₁ : Kernel} {S : PcbRef → Prop} {w : QueueId} {p : PcbRef} {st : ProcState} {n r : Nat} {e : Addr}
  {pid : Nat} {α : Type} {c : Call}

/-! ### The queues -/

/-- The node before the one that the walk finds is one of `S`. -/
theorem seekElement_mem {next : Links PcbRef} {m : Nat} {prev ptr prev' : Option PcbRef} {o : Option PcbRef}
    (hnext : ∀ x y, S x → next x = some y → S y) (hprev : ∀ x, prev = some x → S x) (hptr : ∀ x, ptr = some x → S x)
    (hs : seekElement next p m prev ptr = some (prev', o)) : (∀ x, prev' = some x → S x) ∧ ∀ x, o = some x → S x := by
  induction m generalizing prev ptr with
  | zero => cases hs
  | succ m ih =>
    unfold seekElement at hs
    cases ptr with
    | none =>
      cases hs
      refine ⟨hprev, fun x hx => ?_⟩
      cases hx
    | some y =>
      have hy : S y := hptr y rfl
      simp only at hs
      split at hs
      · cases hs
        exact ⟨hprev, hptr⟩
      · exact ih (fun x hx => Option.some.inj hx ▸ hy) (fun x hx => hnext y x hy hx) hs

theorem Within.unlink {i : Level} {prev : Option PcbRef} (h : Within k S) (hprev : ∀ x, prev = some x → S x) (hp : S p)
    (hs : unlinkElement w i prev p k = some k') : Within k' S := by
  unfold unlinkElement at hs
  simp only at hs
  split at hs
  · cases hs
    exact h.setSub (fun x hx => nomatch hx) (fun x hne => absurd rfl hne) h.next
  split at hs
  next hhead =>
    cases hs
    refine h.setSub (fun x hx => h.next p x hp hx) (fun x _ hx => h.tail (w, i) x ?_ hx) h.next
    exact fun hnone => nomatch hhead.symm.trans hnone
  split at hs
  · cases hs
    exact h.setSub (h.head (w, i)) (fun x _ hx => hprev x hx) h.next
  · obtain ⟨y, hy, rfl⟩ := Option.map_eq_some_iff.mp hs
    have hsub : (k.setQueue w (Function.update k.pcbNext y (k.pcbNext p)) (k.queue w)).sub = k.sub := by
      funext s
      unfold Kernel.sub
      by_cases hw : s.1 = w
      · rw [hw, Kernel.setQueue_queue_self]
      · rw [Kernel.setQueue_queue_of_ne _ _ _ _ _ hw]
    refine ⟨by rw [hsub]; exact h.head, by rw [hsub]; exact h.tail, fun x z hx hz => ?_⟩
    rw [Kernel.setQueue_pcbNext] at hz
    by_cases hxy : x = y
    · rw [hxy, Function.update_self] at hz
      exact h.next p z hp hz
    · rw [Function.update_of_ne hxy] at hz
      exact h.next x z hx hz

/-- A PCB that is found is one of `S`, and nothing more comes into reach. -/
theorem Within.remove (h : Within k S) (hs : removeElementByPriority p w k = some (r, k')) (hr : r ≠ rtxError) :
    S p ∧ Within k' S := by
  unfold removeElementByPriority at hs
  split at hs
  next hlt =>
    unfold removeElement at hs
    split at hs
    · cases hs
    · cases hs
      exact absurd rfl hr
    next prev x hseek =>
      obtain ⟨k₁, hunlink, he⟩ := Option.map_eq_some_iff.mp hs
      cases he
      have hnone : ∀ y, (none : Option PcbRef) = some y → S y := fun y hy => nomatch hy
      obtain ⟨hprev, hx⟩ := seekElement_mem h.next hnone (h.head (w, ⟨_, hlt⟩)) hseek
      have hxp : x = p := by
        rcases seekElement_reaches hseek with ⟨ho, -⟩ | ⟨ho, -⟩
        · exact Option.some.inj ho
        · cases ho
      exact ⟨hxp ▸ hx x rfl, h.unlink hprev (hx x rfl) hunlink⟩
  · cases hs

/-! ### The updates -/

theorem Confined.congr (h : Confined k S) (hpcbs : k'.pcbs = k.pcbs) (hnext : k'.pcbNext = k.pcbNext)
    (hq : k'.queue = k.queue) (hcur : k'.currentPcb = k.currentPcb) : Confined k' S := by
  refine ⟨h.within.congr hnext hq, ?_, ?_⟩
  · rw [hcur]
    exact h.current
  · rw [hpcbs]
    exact h.waits

theorem Confined.setState (h : Confined k S) (hst : st = .messageWait → S p) : Confined (k.setState p st) S := by
  refine ⟨h.within.congr rfl rfl, h.current, fun x hx => ?_⟩
  rw [Kernel.setState_state] at hx
  split at hx
  next he => exact he ▸ hst hx
  next => exact h.waits x hx

/-- Every state but that of a receiver can be given to any process. -/
theorem Confined.mark (h : Confined k S) (p : PcbRef) (hst : st ≠ .messageWait) : Confined (k.setState p st) S :=
  h.setState fun he => absurd he hst

theorem Confined.setPriority (h : Confined k S) : Confined (k.setPriority p n) S := by
  refine ⟨h.within.congr rfl rfl, h.current, fun x hx => ?_⟩
  rw [Kernel.setPriority_state] at hx
  exact h.waits x hx

theorem Confined.switchTo (h : Confined k S) (hp : S p) : Confined { k with currentPcb := p } S :=
  ⟨h.within.congr rfl rfl, hp, h.waits⟩

theorem Confined.put (h : Confined k S) (hp : S p) (hs : enqueuePCBByPriority w p k = some k') : Confined k' S := by
  have hwithin := h.within.enqueue hs
  obtain ⟨-, next, c, rfl⟩ := enqueuePCBByPriority_inv hs
  have hS : (fun x => x = p ∨ S x) = S := by
    funext x
    exact propext ⟨fun hx => hx.elim (fun he => he ▸ hp) id, Or.inr⟩
  refine ⟨hS ▸ hwithin, ?_, ?_⟩
  · rw [Kernel.setQueue_currentPcb]
    exact h.current
  · rw [Kernel.setQueue_pcbs]
    exact h.waits

theorem Confined.take (h : Confined k S) (hs : dequeuePCBFIFOByPriority w k = some (some p, k')) :
    S p ∧ Confined k' S := by
  obtain ⟨hp, hwithin⟩ := h.within.dequeue hs
  obtain ⟨i, next, c, m, -, -, rfl⟩ := dequeuePCBFIFOByPriority_inv hs
  refine ⟨hp, hwithin, ?_, ?_⟩
  · rw [Kernel.setQueue_currentPcb]
    exact h.current
  · rw [Kernel.setQueue_pcbs]
    exact h.waits

theorem Confined.remove (h : Confined k S) (hs : removeElementByPriority p w k = some (r, k')) (hr : r ≠ rtxError) :
    S p ∧ Confined k' S := by
  obtain ⟨hp, hwithin⟩ := h.within.remove hs hr
  rcases removeElementByPriority_inv hs with ⟨he, -⟩ | ⟨-, next, q, rfl⟩
  · exact absurd he hr
  · refine ⟨hp, hwithin, ?_, ?_⟩
    · rw [Kernel.setQueue_currentPcb]
      exact h.current
    · rw [Kernel.setQueue_pcbs]
      exact h.waits

/-! ### The primitives -/

theorem Confined.runNext (h : Confined k S) (hs : (runNext k : Outcome α) = .switched k') : Confined k' S := by
  obtain ⟨p, k₁, htake, rfl⟩ := runNext_inv hs
  obtain ⟨hp, h₁⟩ := h.take htake
  exact (h₁.mark p (by decide)).switchTo hp

theorem Confined.processSwitch (h : Confined k S) (hs : (processSwitch k).kernel? = some k') : Confined k' S := by
  rcases Outcome.kernel?_eq_some.mp hs with ho | ho
  · rwa [(processSwitch_returned ho).2]
  · obtain ⟨-, p, k₁, k₂, htake, hput, rfl⟩ := processSwitch_inv ho
    obtain ⟨hp, h₁⟩ := h.take htake
    have h₂ := ((h₁.mark p (by decide)).mark k.currentPcb (by decide)).put
      h.current hput
    have h₃ : Confined { k₂ with inIProcess := false } S := h₂.congr rfl rfl rfl rfl
    exact h₃.switchTo hp

theorem Confined.sendMessage (h : Confined k S) (hs : (kernelSendMessage pid e k).last = some k') : Confined k' S := by
  rcases kernelSendMessage_cases pid e k with ⟨-, ho⟩ | ⟨d, mq, -, -, ⟨-, ho⟩ | ⟨hst, k₁, source, hput, -, ho⟩⟩ | ho <;>
    rw [ho] at hs
  · cases hs
    exact h.congr rfl rfl rfl rfl
  · cases hs
    exact h.congr rfl rfl rfl rfl
  · -- A receiver that waits is one of `S`.
    have hdelivered : Confined (k.delivered pid e mq) S := h.congr rfl rfl rfl rfl
    have h₁ := (hdelivered.mark d (by decide)).put (h.waits d hst) hput
    split at hs
    · rcases htake : dequeuePCBFIFOByPriority .ready k₁ with _ | ⟨_ | p, k₂⟩ <;> rw [htake] at hs
      · cases hs
      · cases hs
      · cases hs
        obtain ⟨hp, h₂⟩ := h₁.take htake
        exact h₂.switchTo hp
    · cases hs
      exact h₁
  · cases hs

theorem Confined.receiveMessage (h : Confined k S) (hs : (kernelReceiveMessage k).last = some k') : Confined k' S := by
  rcases Outcome.last_eq_some.mp hs with ⟨o, ho⟩ | ho
  · obtain ⟨mq, -, ⟨-, -, rfl⟩ | ⟨-, next, q, -, rfl⟩⟩ := kernelReceiveMessage_returned ho
    · exact h.congr rfl rfl rfl rfl
    · exact h.congr rfl rfl rfl rfl
  · obtain ⟨mq, -, -, hrun⟩ := kernelReceiveMessage_switched ho
    have hcleared : Confined { k with msgReturn := false } S := h.congr rfl rfl rfl rfl
    exact (hcleared.setState fun _ => h.current).runNext hrun

theorem Confined.requestMemoryBlock (h : Confined k S) (hs : (kernelRequestMemoryBlock k).last = some k') :
    Confined k' S := by
  rcases Outcome.last_eq_some.mp hs with ⟨o, ho⟩ | ho
  · obtain ⟨next, q, -, rfl, -⟩ := kernelRequestMemoryBlock_returned ho
    exact h.congr rfl rfl rfl rfl
  · obtain ⟨next, q, k₁, -, hput, hrun⟩ := kernelRequestMemoryBlock_switched ho
    have hempty : Confined { k with blockNext := next, freeMemQ := q } S := h.congr rfl rfl rfl rfl
    exact ((hempty.mark k.currentPcb (by decide)).put h.current hput).runNext hrun

theorem Confined.releaseMemoryBlock (h : Confined k S) (hs : (kernelReleaseMemoryBlock e k).last = some k') :
    Confined k' S := by
  have hfreed : Confined (k.freed e) S := h.congr rfl rfl rfl rfl
  rcases kernelReleaseMemoryBlock_cases e k with ho | ⟨p, k₁, k₂, htake, hput, ho⟩ | ho <;> rw [ho] at hs
  · cases hs
    exact hfreed
  · obtain ⟨hp, h₁⟩ := hfreed.take htake
    have h₂ := (h₁.mark p (by decide)).put hp hput
    split at hs
    · rw [Outcome.last_bind] at hs
      exact h₂.processSwitch hs
    · cases hs
      exact h₂
  · cases hs

theorem Confined.delayedSend {delay : Int} (h : Confined k S) (hs : (kernelDelayedSend pid e delay k).last = some k') :
    Confined k' S := by
  have hmarked : Confined (k.marked pid e) S := h.congr rfl rfl rfl rfl
  rcases kernelDelayedSend_cases pid e delay k with ⟨-, ho⟩ | ⟨-, ho⟩ | ⟨-, d, ptr, prev, -, ho⟩ | ho <;> rw [ho] at hs
  · cases hs
    exact hmarked
  · exact hmarked.sendMessage hs
  · cases hs
    obtain ⟨hpcbs, hnext, hq, hcur, -⟩ := linkDelayed_frame e d ptr prev (k.marked pid e)
    exact hmarked.congr hpcbs hnext hq hcur
  · cases hs

/-- Only a PCB that is found is put into a queue again. -/
theorem Confined.movePCB {f : Kernel → Outcome (Nat × Kernel)} (h : Confined k S)
    (hf : ∀ k₁, Confined k₁ S → (f k₁).last = some k' → Confined k' S) (hs : (movePCB p w n f k).last = some k') :
    Confined k' S := by
  rcases movePCB_cases p w n f k with ho | ⟨k₁, hremove, ho⟩ | ⟨r, k₁, k₂, hremove, hr, hput, ho⟩ <;> rw [ho] at hs
  · cases hs
  · cases hs
    rwa [removeElementByPriority_error hremove]
  · obtain ⟨hp, h₁⟩ := h.remove hremove hr
    exact hf k₂ (h₁.setPriority.put hp hput) hs

theorem Confined.setProcessPriority (h : Confined k S) (hs : (kernelSetProcessPriority pid n k).last = some k') :
    Confined k' S := by
  by_cases h₀ : pid = 0 ∨ n = 4
  · rw [kernelSetProcessPriority_refused h₀] at hs
    cases hs
    exact h
  cases hget : getPcb k pid with
  | none =>
    rw [kernelSetProcessPriority_unknown h₀ hget] at hs
    cases hs
    exact h
  | some p =>
    by_cases hp : p = k.currentPcb
    · subst hp
      rw [kernelSetProcessPriority_self h₀ hget] at hs
      split at hs
      · cases hs
        exact h.setPriority
      · rw [Outcome.last_bind] at hs
        exact h.setPriority.processSwitch hs
    by_cases hmem : (k.pcbs p).state = .memoryWait
    · rw [kernelSetProcessPriority_memoryWait h₀ hget hp hmem] at hs
      exact h.movePCB (fun k₁ h₁ hs => by cases hs; exact h₁) hs
    by_cases hmess : (k.pcbs p).state = .messageWait
    · rw [kernelSetProcessPriority_messageWait h₀ hget hp hmess] at hs
      cases hs
      exact h.setPriority
    · rw [kernelSetProcessPriority_ready h₀ hget hp hmem hmess] at hs
      refine h.movePCB (fun k₁ h₁ hs => ?_) hs
      split at hs
      · rw [Outcome.last_bind] at hs
        exact h₁.processSwitch hs
      · cases hs
        exact h₁

/-! ### The system calls -/

/-- Storing the result of a primitive. -/
theorem Confined.store {β : Type} {o : Outcome (β × Kernel)} {f : β → Kernel → Kernel}
    (hf : ∀ b k, Confined k S → Confined (f b k) S) (ho : ∀ k₁, o.last = some k₁ → Confined k₁ S)
    (hs : (o >>= fun r => .returned (f r.1 r.2)).kernel? = some k') : Confined k' S := by
  rw [Outcome.kernel?_bind] at hs
  cases o with
  | returned r =>
    cases hs
    exact hf _ _ (ho _ rfl)
  | switched k₁ =>
    cases hs
    exact ho _ rfl
  | stuck => cases hs

theorem Confined.retCode (b : Nat) (k : Kernel) (h : Confined k S) : Confined { k with retCode := b } S :=
  h.congr rfl rfl rfl rfl

/-- A pointer argument that is `NULL` is followed. -/
theorem pointer_inv {o : Addr → Outcome Kernel} {v : Nat} (hs : (liftM (toPtr v) >>= o).kernel? = some k') :
    ∃ b, (o b).kernel? = some k' := by
  cases hv : toPtr v with
  | none =>
    rw [hv] at hs
    cases hs
  | some b =>
    rw [hv] at hs
    exact ⟨b, hs⟩

theorem Confined.receiveTrap (h : Confined k S) (hcode : k.kernelCode = KernelCode.receiveMessage)
    (hs : (swiTrapHandler k).kernel? = some k') : Confined k' S := by
  rw [swiTrapHandler_receiveMessage hcode, Outcome.kernel?_bind_snd] at hs
  exact h.receiveMessage hs

/-- Whatever the running process calls, it brings no process into play that was not. -/
theorem Confined.call (h : Confined k S) (hs : (swiTrapHandler (c.enter k)).kernel? = some k') : Confined k' S := by
  have henter : Confined (c.enter k) S := by cases c <;> exact h.congr rfl rfl rfl rfl
  cases c with
  | releaseProcessor =>
    rw [swiTrapHandler_releaseProcessor rfl] at hs
    exact henter.processSwitch hs
  | sendMessage processID envelope =>
    rw [swiTrapHandler_sendMessage rfl] at hs
    obtain ⟨b, hs⟩ := pointer_inv hs
    exact .store Confined.retCode (fun k₁ ho => henter.sendMessage ho) hs
  | receiveMessage senderID => exact henter.receiveTrap rfl hs
  | requestMemoryBlock =>
    rw [swiTrapHandler_requestMemory rfl] at hs
    exact .store (fun b => Confined.retCode (toWord b)) (fun k₁ ho => henter.requestMemoryBlock ho) hs
  | releaseMemoryBlock memoryBlock =>
    rw [swiTrapHandler_releaseMemory rfl] at hs
    obtain ⟨b, hs⟩ := pointer_inv hs
    exact .store Confined.retCode (fun k₁ ho => henter.releaseMemoryBlock ho) hs
  | delayedSend processID envelope delay =>
    rw [swiTrapHandler_delayedSend rfl] at hs
    obtain ⟨b, hs⟩ := pointer_inv hs
    exact .store Confined.retCode (fun k₁ ho => henter.delayedSend ho) hs
  | setProcessPriority processID priority =>
    rw [swiTrapHandler_setPrio rfl] at hs
    exact .store Confined.retCode (fun k₁ ho => henter.setProcessPriority ho) hs
  | getProcessPriority processID =>
    rw [swiTrapHandler_getPrio rfl] at hs
    cases hs
    unfold kernelGetProcessPriority
    split
    · exact henter
    · exact henter.congr rfl rfl rfl rfl

/-! ### Runs -/

variable {img : Layout} {k₀ : Kernel} {s s' : Sys} {a : Act}

theorem Orchestrated.scheduled (h : Orchestrated img k₀ s) (hk₀ : Booted img k₀) : Scheduled s where
  wellScheduled := h.wellScheduled
  created := h.table.created_iff.mpr (hk₀.started.created_iff.mpr (Or.inr h.confined.current))
  process := not_iProcess_of_ready h.confined.current

theorem Orchestrated.wellFormed (h : Orchestrated img k₀ s) (hk₀ : Booted img k₀) : WellFormed s.kernel := by
  obtain ⟨F, M, D, hacc⟩ := h.accounted
  exact ⟨fun p hp => ⟨p, (hk₀.started.tableSet.congr h.table).messQueue p hp⟩,
    fun p q _ => ⟨M q, hacc.mail.mailboxes.holds q⟩, ⟨D, hacc.mail.delayed⟩, ⟨F, hacc.free⟩⟩

theorem Confined.step (h : Confined s.kernel S) (hs : s.step a = some s') : Confined s'.kernel S := by
  cases a with
  | call c =>
    obtain ⟨-, -, left, ht⟩ := Sys.step_call hs
    exact h.call ht.kernel?
  | resume =>
    obtain ⟨c, left, -, ⟨value, -, rfl⟩ | ⟨-, -, -, left', ht⟩⟩ := Sys.step_resume hs
    · exact h
    · have hagain : Confined { s.kernel with kernelCode := KernelCode.receiveMessage } S := h.congr rfl rfl rfl rfl
      exact hagain.receiveTrap rfl ht.kernel?

theorem Sys.step_sameTable (hs : s.step a = some s') : SameTable s.kernel s'.kernel := by
  cases a with
  | call c =>
    obtain ⟨-, -, left, ht⟩ := Sys.step_call hs
    exact call_sameTable ht.kernel?
  | resume =>
    obtain ⟨c, left, -, ⟨value, -, rfl⟩ | ⟨-, -, -, left', ht⟩⟩ := Sys.step_resume hs
    · exact .of_pcbs rfl
    · exact (SameTable.of_pcbs (k := s.kernel) (by rfl)).trans (receiveMessage_sameTable rfl ht.kernel?)

/-- The next state is orchestrated as soon as it is well-scheduled. -/
theorem Orchestrated.step (h : Orchestrated img k₀ s) (hown : HandsOverOwn s a) (hs : s.step a = some s')
    (hws : ∃ L, WellScheduled s'.kernel L) : Orchestrated img k₀ s' := by
  obtain ⟨F, M, D, hacc⟩ := h.accounted
  exact ⟨hws, hacc.step hown hs, h.confined.step hs, h.table.trans (Sys.step_sameTable hs)⟩

/-- The loop of `receive_message` can always trap again. -/
theorem Orchestrated.receiveAgain (h : Orchestrated img k₀ s) (hk₀ : Booted img k₀)
    (hnull : s.kernel.currentPcb ≠ nullPid) :
    ∃ k' L', (swiTrapHandler { s.kernel with kernelCode := KernelCode.receiveMessage }).kernel? = some k' ∧
      WellScheduled k' L' := by
  obtain ⟨L, hws⟩ := h.wellScheduled
  obtain ⟨F, M, D, hacc⟩ := h.accounted
  have hw := h.wellFormed hk₀
  have hsched := h.scheduled hk₀
  rw [swiTrapHandler_receiveMessage rfl, Outcome.kernel?_bind_snd]
  exact receiveMessage_keeps (k := { s.kernel with kernelCode := KernelCode.receiveMessage }) (hws.congr rfl rfl rfl rfl)
    ⟨hw.mailbox, hw.messages, hw.delayed, hw.free⟩ hacc.calm.inIProcess hsched.created hsched.process hnull

theorem Orchestrated.call_iff (h : Orchestrated img k₀ s) (hk₀ : Booted img k₀) (hnull : s.kernel.currentPcb ≠ nullPid) :
    (∃ k' L', (swiTrapHandler (c.enter s.kernel)).kernel? = some k' ∧ WellScheduled k' L') ↔ KeepsSchedule s (.call c) := by
  obtain ⟨L, hws⟩ := h.wellScheduled
  obtain ⟨F, M, D, hacc⟩ := h.accounted
  have hsched := h.scheduled hk₀
  rw [call_keeps_iff hws (h.wellFormed hk₀) hacc.calm.tableOk hacc.calm.inIProcess hsched.created hsched.process hnull c]
  constructor
  · intro hk L' hL'
    rwa [hL'.rep.det hws.rep]
  · exact fun hk => hk L hws

/-- A step leads to a well-scheduled state exactly when it keeps the schedule. -/
theorem Orchestrated.keeps_iff (h : Orchestrated img k₀ s) (hk₀ : Booted img k₀) (hnull : s.kernel.currentPcb ≠ nullPid)
    (hs : s.step a = some s') : (∃ L, WellScheduled s'.kernel L) ↔ KeepsSchedule s a := by
  cases a with
  | call c =>
    obtain ⟨-, -, left, ht⟩ := Sys.step_call hs
    rw [← h.call_iff hk₀ hnull, ht.kernel?]
    constructor
    · exact fun ⟨L, hL⟩ => ⟨_, L, rfl, hL⟩
    · rintro ⟨k', L, hk', hL⟩
      cases hk'
      exact ⟨L, hL⟩
  | resume =>
    refine iff_of_true ?_ trivial
    obtain ⟨c, left, -, ⟨value, -, rfl⟩ | ⟨-, -, -, left', ht⟩⟩ := Sys.step_resume hs
    · exact h.wellScheduled
    · obtain ⟨k', L', hk', hL'⟩ := h.receiveAgain hk₀ hnull
      cases ht.kernel?.symm.trans hk'
      exact ⟨L', hL'⟩

theorem Sys.exists_trap (h : (swiTrapHandler s.kernel).kernel? = some k') : ∃ s', Sys.trap c s = some s' := by
  unfold Sys.trap
  rcases Outcome.kernel?_eq_some.mp h with ho | ho
  · rw [ho]
    exact ⟨_, rfl⟩
  · rw [ho]
    exact ⟨_, rfl⟩

/-- A process whose turn it is can do what keeps the schedule. -/
theorem Orchestrated.progress (h : Orchestrated img k₀ s) (hk₀ : Booted img k₀) (hnull : s.kernel.currentPcb ≠ nullPid)
    (hturn : s.Turn a) (hkeeps : KeepsSchedule s a) : ∃ s', s.step a = some s' := by
  unfold Sys.step
  cases a with
  | call c =>
    have huser : s.pc s.kernel.currentPcb = .user := hturn
    obtain ⟨k', L', hk', -⟩ := (h.call_iff hk₀ hnull).mpr hkeeps
    simp only [huser]
    exact Sys.exists_trap hk'
  | resume =>
    obtain ⟨c, left, htrapped⟩ := hturn
    simp only [htrapped]
    cases c.leave s.kernel with
    | some value => exact ⟨_, rfl⟩
    | none =>
      obtain ⟨k', L', hk', -⟩ := h.receiveAgain hk₀ hnull
      exact Sys.exists_trap hk'

/-! ### The state that `start_scheduler` builds -/

theorem exists_mem_contentsOf (x : PcbRef) :
    (∃ s, x ∈ contentsOf readyProcesses s) ↔ x ∈ readyProcesses.map Prod.fst := by
  have hsub : ∀ s, ∀ x ∈ contentsOf readyProcesses s, x ∈ readyProcesses.map Prod.fst := by decide
  have hall : ∀ x ∈ readyProcesses.map Prod.fst, ∃ s, x ∈ contentsOf readyProcesses s := by decide
  exact ⟨fun ⟨s, hs⟩ => hsub s x hs, hall x⟩

theorem startScheduler_within (hs : startScheduler k₀ = .switched k) :
    Within k (· ∈ readyProcesses.map Prod.fst) := by
  obtain ⟨k₃, next, c, hmade, htake, -, hs'⟩ := startScheduler_made k₀
  cases hs'.symm.trans hs
  have hrep : Rep (initIProcesses k₃) (contentsOf readyProcesses) := hmade.rep.congr rfl rfl
  have hS : (fun x => ∃ s, x ∈ contentsOf readyProcesses s) = (· ∈ readyProcesses.map Prod.fst) :=
    funext fun x => propext (exists_mem_contentsOf x)
  exact hS ▸ (hrep.within.dequeue htake).2.congr rfl rfl

theorem Booted.confined (h : Booted img k) (hboot : boot img = .switched k) :
    Confined k (· ∈ readyProcesses.map Prod.fst) where
  within := startScheduler_within hboot
  current := by
    rw [h.started.current]
    decide
  waits p hp := by
    by_contra hnew
    by_cases hi : IProcess p
    · rw [h.started.iProcess p hi] at hp
      cases hp
    · rw [(h.started.unused p hi hnew).1, (initFreeMemory_frame img zeroed).1] at hp
      cases hp

theorem Booted.orchestrated (h : Booted img k) (hboot : boot img = .switched k) : Orchestrated img k (.start k) where
  wellScheduled := ⟨bootContents, h.started.wellScheduled⟩
  accounted := ⟨_, _, _, h.accounted⟩
  confined := h.confined hboot
  table := .of_pcbs rfl

end

/-- In every run from the booted state, whatever the processes call, only processes that `start_scheduler` has put into
    the ready queue run, wait for a message or are linked in a queue. The pointers are meant to be to blocks of the
    pool: what the kernel stores through others may come upon its own data, which is kept apart from the blocks here. -/
theorem ready_processes_only (img : Layout) :
    ∃ k, boot img = .switched k ∧ ∀ acts : List Act, Runs.Throughout Sys.step (fun s =>
      s.kernel.currentPcb ∈ readyProcesses.map Prod.fst ∧ ∀ p,
        (s.kernel.pcbs p).state = .messageWait ∨ (∃ w, s.kernel.LinkedIn w p) → p ∈ readyProcesses.map Prod.fst)
      (.start k) acts := by
  obtain ⟨k, hboot, h⟩ := boot_spec img
  refine ⟨k, hboot, fun acts => ?_⟩
  have hinv : Runs.Throughout Sys.step (fun s => Confined s.kernel (· ∈ readyProcesses.map Prod.fst)) (.start k) acts :=
    Runs.throughout_of_preserved (fun s a s' hI hs => hI.step hs) (h.confined hboot)
  refine hinv.imp fun s hI => ⟨hI.current, fun p hp => ?_⟩
  rcases hp with hp | ⟨w, i, hp⟩
  · exact hI.waits p hp
  · exact hp.subset hI.within.next (hI.within.head (w, i))

/-- In every run from the booted state in which the processes hand over only blocks that they hold, a receiver that has
    blocked always looks into its mailbox again, no request that has blocked runs again and the null process makes no calls,
    every state is well-scheduled and runs a process other than the interrupt processes exactly when every call keeps the
    schedule. -/
theorem schedule_kept (img : Layout) :
    ∃ k, boot img = .switched k ∧ ∀ acts : List Act, Runs.Along Sys.step NullIdles (.start k) acts →
      (Runs.Throughout Sys.step Scheduled (.start k) acts ↔ Runs.Along Sys.step KeepsSchedule (.start k) acts) := by
  obtain ⟨k, hboot, h⟩ := boot_spec img
  refine ⟨k, hboot, fun acts hacts => ?_⟩
  refine Runs.throughout_iff_along_within (I := Orchestrated img k) (fun s hI => hI.scheduled h) ?_ ?_
    (h.orchestrated hboot) hacts
  · intro s a s' hI hidles hkeeps hs
    exact hI.step hidles.1 hs ((hI.keeps_iff h hidles.2 hs).mpr hkeeps)
  · intro s a s' hI hidles hkeeps hs hP
    exact hkeeps ((hI.keeps_iff h hidles.2 hs).mp hP.wellScheduled)

theorem Booted.nullIdles {img : Layout} {k : Kernel} (h : Booted img k) :
    NullIdles (.start k) (.call .releaseProcessor) := by
  refine ⟨(fun b hb => nomatch hb), ?_⟩
  show k.currentPcb ≠ nullPid
  rw [h.started.current]
  decide

/-- The first process gives up the processor and goes on later. -/
theorem schedule_kept_release :
    ∃ k, boot rtosMap = .switched k ∧ Runs.Throughout Sys.step Scheduled (.start k) [.call .releaseProcessor] := by
  obtain ⟨k, hboot, hiff⟩ := schedule_kept rtosMap
  obtain ⟨k', hboot', h⟩ := boot_spec rtosMap
  cases hboot.symm.trans hboot'
  have hacts : Runs.Along Sys.step NullIdles (.start k) [.call .releaseProcessor] := fun s hs => ⟨h.nullIdles, trivial⟩
  exact ⟨k, hboot, (hiff _ hacts).mpr fun s hs => ⟨fun L hL => trivial, trivial⟩⟩

/-- In such a run in which every call keeps the schedule no call fails: the kernel follows no `NULL`, enters no PCB outside
    of the subqueues, walks no list for ever and always finds a process to run. -/
theorem calls_go_through (img : Layout) :
    ∃ k, boot img = .switched k ∧ ∀ acts : List Act,
      Runs.Meets Sys.step (fun s a => NullIdles s a ∧ s.Turn a ∧ KeepsSchedule s a) (.start k) acts →
        ∃ s, Runs.exec Sys.step (.start k) acts = some s ∧ Scheduled s := by
  obtain ⟨k, hboot, h⟩ := boot_spec img
  refine ⟨k, hboot, fun acts hacts => ?_⟩
  obtain ⟨s, hs, hI⟩ := Runs.exec_of_progress (I := Orchestrated img k) (fun s a hI ⟨hidles, hturn, hkeeps⟩ => by
    obtain ⟨s', hs⟩ := hI.progress h hidles.2 hturn hkeeps
    exact ⟨s', hs, hI.step hidles.1 hs ((hI.keeps_iff h hidles.2 hs).mpr hkeeps)⟩) (h.orchestrated hboot) hacts
  exact ⟨s, hs, hI.scheduled h⟩

/-- The call of the first process goes through. -/
theorem calls_go_through_release :
    ∃ k s, boot rtosMap = .switched k ∧ Runs.exec Sys.step (.start k) [.call .releaseProcessor] = some s ∧ Scheduled s := by
  obtain ⟨k, hboot, hgoes⟩ := calls_go_through rtosMap
  obtain ⟨k', hboot', h⟩ := boot_spec rtosMap
  cases hboot.symm.trans hboot'
  have hacts : Runs.Meets Sys.step (fun s a => NullIdles s a ∧ s.Turn a ∧ KeepsSchedule s a) (.start k)
      [.call .releaseProcessor] := ⟨⟨h.nullIdles, rfl, fun L hL => trivial⟩, fun _ _ => trivial⟩
  obtain ⟨s, hs, hscheduled⟩ := hgoes _ hacts
  exact ⟨k, s, hboot, hs, hscheduled⟩

end DoorRtos
