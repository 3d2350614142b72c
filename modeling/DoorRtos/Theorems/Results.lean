import DoorRtos.Results
import DoorRtos.Runs
import DoorRtos.Theorems.Inversion
import DoorRtos.Theorems.Priorities

/-! Which results reach the caller. Every wrapper reads the cell that the trap handler has stored its result in, but
    for the two of the priorities, which read `ret_code_get_prio`. -/

namespace DoorRtos
open Linked

/-- What is left in `ret_code_get_prio` happens to be the result of the call. -/
def Service.Fresh (s : Service) : Call → Prop
  | .setProcessPriority processID priority =>
    (s.kernel.Changes processID (priority % 2 ^ 8) → s.kernel.retCodeGetPrio = rtxSuccess) ∧
      (¬s.kernel.Changes processID (priority % 2 ^ 8) → s.kernel.retCodeGetPrio = rtxError)
  | .getProcessPriority processID =>
    (getPcb s.kernel processID = none → s.kernel.retCodeGetPrio = rtxError) ∧ ∀ p, getPcb s.kernel processID = some p →
      (∃ q, s.kernel.Created q ∧ q.val = processID) ∨ (s.kernel.pcbs p).priority = rtxError
  | _ => True

section
variable {k k' k₁ : Kernel} {s s' : Service} {c : Call} {v value pid prio : Nat}

/-! ### Behind the trap -/

/-- What the trap handler does with the value that a primitive has computed. -/
def Call.store (c : Call) (v : Nat) (k : Kernel) : Kernel :=
  match c with
  | sendMessage _ _ | requestMemoryBlock | releaseMemoryBlock _ | delayedSend _ _ _ | setProcessPriority _ _ =>
    { k with retCode := v }
  | releaseProcessor | receiveMessage _ | getProcessPriority _ => k

theorem swiTrapHandler_enter (c : Call) (k : Kernel) :
    swiTrapHandler (c.enter k) = c.computes (c.enter k) >>= fun r => Outcome.returned (c.store r.1 r.2) := by
  unfold Call.computes
  cases c with
  | releaseProcessor =>
    rw [swiTrapHandler_releaseProcessor rfl]
    cases processSwitch (Call.releaseProcessor.enter k) <;> rfl
  | sendMessage processID envelope =>
    rw [swiTrapHandler_sendMessage rfl]
    exact (Outcome.bind_assoc ..).symm
  | receiveMessage senderID =>
    rw [swiTrapHandler_receiveMessage rfl]
    cases kernelReceiveMessage ((Call.receiveMessage senderID).enter k) <;> rfl
  | requestMemoryBlock =>
    rw [swiTrapHandler_requestMemory rfl]
    cases kernelRequestMemoryBlock (Call.requestMemoryBlock.enter k) <;> rfl
  | releaseMemoryBlock memoryBlock =>
    rw [swiTrapHandler_releaseMemory rfl]
    exact (Outcome.bind_assoc ..).symm
  | delayedSend processID envelope delay =>
    rw [swiTrapHandler_delayedSend rfl]
    exact (Outcome.bind_assoc ..).symm
  | setProcessPriority processID priority => exact swiTrapHandler_setPrio rfl
  | getProcessPriority processID => exact swiTrapHandler_getPrio rfl

/-- A call of the run: its primitive has returned, and so has the wrapper. -/
theorem Service.step_eq (hs : s.step c = some s') :
    ∃ v k₁ value, c.computes (c.enter s.kernel) = .returned (v, k₁) ∧ c.leave (c.store v k₁) = some value ∧
      s' = ⟨c.store v k₁, s.results ++ [⟨c, s.kernel, c.store v k₁, value⟩]⟩ := by
  unfold Service.step at hs
  rw [swiTrapHandler_enter] at hs
  cases ho : c.computes (c.enter s.kernel) with
  | returned r =>
    rw [ho] at hs
    obtain ⟨value, hvalue, hs⟩ := Option.map_eq_some_iff.mp hs
    exact ⟨r.1, r.2, value, rfl, hvalue, hs.symm⟩
  | switched k₁ =>
    rw [ho] at hs
    cases hs
  | stuck =>
    rw [ho] at hs
    cases hs

/-! ### What the wrappers return -/

/-- Is this one of the two calls that read `ret_code_get_prio`? -/
def Call.ofPriority : Call → Bool
  | setProcessPriority _ _ | getProcessPriority _ => true
  | _ => false

theorem faithful_of_computed (hc : c.ofPriority = false) (ho : c.computes (c.enter k) = .returned (value, k₁)) :
    Result.Faithful ⟨c, k, k', value⟩ where
  computed := ⟨k₁, ho⟩
  setPriority processID priority he := by
    cases he
    cases hc
  getPriority processID he := by
    cases he
    cases hc

/-- The other wrappers return what their primitives compute. -/
theorem leave_store (hc : c.ofPriority = false) (ho : c.computes (c.enter k) = .returned (v, k₁))
    (hl : c.leave (c.store v k₁) = some value) : value = v := by
  cases c with
  | releaseProcessor =>
    unfold Call.computes at ho
    obtain ⟨k₂, -, ho⟩ := Outcome.bind_eq_returned.mp ho
    cases ho
    exact (Option.some.inj hl).symm
  | receiveMessage senderID =>
    unfold Call.computes at ho
    obtain ⟨⟨e, k₂⟩, hreceive, ho⟩ := Outcome.bind_eq_returned.mp ho
    cases ho
    obtain ⟨mq, -, ⟨-, rfl, he⟩ | ⟨-, next, q, -, he⟩⟩ := kernelReceiveMessage_returned hreceive
    · unfold Call.leave Call.store at hl
      rw [he] at hl
      exact (Option.some.inj hl).symm
    · unfold Call.leave Call.store at hl
      rw [he] at hl
      exact (Option.some.inj hl).symm
  | setProcessPriority processID priority => cases hc
  | getProcessPriority processID => cases hc
  | sendMessage processID envelope => exact (Option.some.inj hl).symm
  | requestMemoryBlock => exact (Option.some.inj hl).symm
  | releaseMemoryBlock memoryBlock => exact (Option.some.inj hl).symm
  | delayedSend processID envelope delay => exact (Option.some.inj hl).symm

/-- `set_process_priority` returns what was in the cell before. -/
theorem setProcessPriority_faithful_iff
    (ho : (Call.setProcessPriority pid prio).computes ((Call.setProcessPriority pid prio).enter s.kernel) =
      .returned (v, k₁))
    (hl : (Call.setProcessPriority pid prio).leave ((Call.setProcessPriority pid prio).store v k₁) = some value) :
    Result.Faithful ⟨.setProcessPriority pid prio, s.kernel, (Call.setProcessPriority pid prio).store v k₁, value⟩ ↔
      s.Fresh (.setProcessPriority pid prio) := by
  have hvalue : value = k₁.retCodeGetPrio := (Option.some.inj hl).symm
  have huniq : (∃ k, (Call.setProcessPriority pid prio).computes ((Call.setProcessPriority pid prio).enter s.kernel) =
      .returned (value, k)) ↔ value = v := by
    rw [ho]
    constructor
    · rintro ⟨k, he⟩
      cases he
      rfl
    · rintro rfl
      exact ⟨k₁, rfl⟩
  rcases kernelSetProcessPriority_returned ho with ⟨hch, rfl, hset⟩ | ⟨hch, rfl, rfl⟩
  · rw [changes_enter] at hch
    have hcell : value = s.kernel.retCodeGetPrio := hvalue.trans hset.retCodeGetPrio
    constructor
    · intro hf
      refine ⟨fun _ => hcell.symm.trans (huniq.mp hf.computed), fun hno => absurd hch hno⟩
    · intro hf
      have hv : value = rtxSuccess := hcell.trans (hf.1 hch)
      refine ⟨huniq.mpr hv, fun processID priority he => ?_, fun processID he => nomatch he⟩
      cases he
      obtain ⟨p, hp, hpcbs⟩ := hset.pcbs
      refine Or.inl ⟨hv, p, hp, ?_⟩
      show (k₁.pcbs p).priority = _
      rw [hpcbs]
      simp
  · rw [changes_enter] at hch
    have hcell : value = s.kernel.retCodeGetPrio := hvalue
    constructor
    · intro hf
      exact ⟨fun hno => absurd hno hch, fun _ => hcell.symm.trans (huniq.mp hf.computed)⟩
    · intro hf
      have hv : value = rtxError := hcell.trans (hf.2 hch)
      refine ⟨huniq.mpr hv, fun processID priority he => ?_, fun processID he => nomatch he⟩
      cases he
      exact Or.inr ⟨hv, rfl, rfl, rfl⟩

/-- `get_process_priority` returns what was in the cell before when its pid is found nowhere. -/
theorem getProcessPriority_faithful_iff
    (ho : (Call.getProcessPriority pid).computes ((Call.getProcessPriority pid).enter s.kernel) = .returned (v, k₁))
    (hl : (Call.getProcessPriority pid).leave ((Call.getProcessPriority pid).store v k₁) = some value) :
    Result.Faithful ⟨.getProcessPriority pid, s.kernel, (Call.getProcessPriority pid).store v k₁, value⟩ ↔
      s.Fresh (.getProcessPriority pid) := by
  have hvalue : value = k₁.retCodeGetPrio := (Option.some.inj hl).symm
  cases hp : getPcb s.kernel pid with
  | none =>
    have hcomp : (Call.getProcessPriority pid).computes ((Call.getProcessPriority pid).enter s.kernel) =
        .returned (rtxError, (Call.getProcessPriority pid).enter s.kernel) :=
      congrArg Outcome.returned (kernelGetProcessPriority_unknown hp)
    cases hcomp.symm.trans ho
    constructor
    · intro hf
      obtain ⟨k, he⟩ := hf.computed
      cases hcomp.symm.trans he
      exact ⟨fun _ => hvalue.symm, fun p hp' => by cases hp.symm.trans hp'⟩
    · intro hcell
      have hv : value = rtxError := hvalue.trans (hcell.1 hp)
      exact ⟨⟨_, hv ▸ hcomp⟩, (fun _ _ he => nomatch he), fun _ _ _ => hv⟩
  | some p =>
    have hcomp : (Call.getProcessPriority pid).computes ((Call.getProcessPriority pid).enter s.kernel) =
        .returned ((s.kernel.pcbs p).priority,
          { (Call.getProcessPriority pid).enter s.kernel with retCodeGetPrio := (s.kernel.pcbs p).priority }) :=
      congrArg Outcome.returned (kernelGetProcessPriority_found hp)
    cases hcomp.symm.trans ho
    have hv : value = (s.kernel.pcbs p).priority := hvalue
    constructor
    · intro hf
      refine ⟨fun hp' => (by cases hp.symm.trans hp'), fun q hq => ?_⟩
      cases hp.symm.trans hq
      by_contra hno
      obtain ⟨hnone, hne⟩ := not_or.mp hno
      exact hne (hv.symm.trans (hf.getPriority pid rfl fun q hq he => hnone ⟨q, hq, he⟩))
    · intro hcond
      refine ⟨⟨_, hv ▸ hcomp⟩, (fun _ _ he => nomatch he), fun processID he hno => ?_⟩
      cases he
      rcases hcond.2 p hp with ⟨q, hq, he⟩ | he
      · exact absurd he (hno q hq)
      · exact hv.trans he

/-- A result reaches the caller exactly when the call is fresh. -/
theorem Service.faithful_iff (ho : c.computes (c.enter s.kernel) = .returned (v, k₁))
    (hl : c.leave (c.store v k₁) = some value) : Result.Faithful ⟨c, s.kernel, c.store v k₁, value⟩ ↔ s.Fresh c := by
  cases hc : c.ofPriority with
  | false =>
    cases leave_store hc ho hl
    refine iff_of_true (faithful_of_computed hc ho) ?_
    cases c with
    | setProcessPriority processID priority => cases hc
    | getProcessPriority processID => cases hc
    | _ => trivial
  | true =>
    cases c with
    | setProcessPriority processID priority => exact setProcessPriority_faithful_iff ho hl
    | getProcessPriority processID => exact getProcessPriority_faithful_iff ho hl
    | _ => cases hc

/-- In a run of calls that switch to no other process every result reaches the caller exactly when every call is
    fresh in its turn. -/
theorem results_faithful_iff (k : Kernel) (calls : List Call) :
    Runs.Throughout Service.step (fun s => ∀ r ∈ s.results, r.Faithful) (Service.start k) calls ↔
      Runs.Along Service.step Service.Fresh (Service.start k) calls := by
  refine Runs.throughout_iff_along (fun _ h => h) (fun s c s' h hf hs => ?_) (fun s c s' _ hf hs => ?_)
    (fun r hr => absurd hr List.not_mem_nil)
  · obtain ⟨v, k₁, value, ho, hl, rfl⟩ := Service.step_eq hs
    intro r hr
    rcases List.mem_append.mp hr with hr | hr
    · exact h r hr
    · rw [List.mem_singleton.mp hr]
      exact (Service.faithful_iff ho hl).mpr hf
  · obtain ⟨v, k₁, value, ho, hl, rfl⟩ := Service.step_eq hs
    intro hall
    exact hf ((Service.faithful_iff ho hl).mp (hall _ (List.mem_append_right _ (List.mem_singleton_self _))))

end

/-- The first process to run asks for the priority of the null process, which is refused, and is told success. -/
theorem setProcessPriority_of_null :
    ∃ k, boot rtosMap = .switched k ∧
      ¬Runs.Throughout Service.step (fun s => ∀ r ∈ s.results, r.Faithful) (Service.start k)
        [.setProcessPriority nullPid.val Priority.high] := by
  have hcell : ((boot rtosMap).kernel?.any fun k => decide (k.retCodeGetPrio = rtxSuccess)) = true := by decide +kernel
  obtain ⟨k, hboot, -⟩ := boot_spec rtosMap
  rw [hboot] at hcell
  refine ⟨k, hboot, fun h => ?_⟩
  have hrefused : ¬k.Changes nullPid.val (Priority.high % 2 ^ 8) := fun hch => hch.1 (Or.inl rfl)
  obtain ⟨hfresh, -⟩ := (results_faithful_iff k _).mp h _ rfl
  exact absurd ((of_decide_eq_true hcell).symm.trans (hfresh.2 hrefused)) (by decide)

end DoorRtos
