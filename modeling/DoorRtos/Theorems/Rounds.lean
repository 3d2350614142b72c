import DoorRtos.Theorems.Endings
import DoorRtos.Theorems.Preemption

/-! Which process runs after a step of the machine. Only an interrupt should run an interrupt process; but the
    scheduler finds its PCB in the ready queue, where `process_switch` has put it, and picks it like any other. -/

namespace DoorRtos
open Linked

/-- An interrupt process runs only while the flag is set, and it has finished a round for every interrupt of its
    kind but the one it is serving. -/
structure Served (m : Machine) : Prop where
  flag : IProcess m.kernel.currentPcb → m.kernel.inIProcess = true
  rounds : ∀ i : Interrupt, m.interrupts i.pid = m.rounds i.pid + if m.kernel.currentPcb = i.pid then 1 else 0

/-- Before a step that may take the processor away from the running process, the PCB that stands first in the ready queue is
    not that of an interrupt process, and before an interrupt process gives up the processor `highest_prio` is no larger
    than its priority. -/
def FindsOrdinary (m : Machine) : Event → Prop
  | .interrupt _ => True
  | .iRelease =>
    m.kernel.readyQueue.highestPrio ≤ m.kernel.current.priority ∧ ∀ p, m.kernel.top .ready = some p → ¬IProcess p
  | .call c => ∀ p, First m.kernel c p → ¬IProcess p

section
variable {m m' : Machine} {e : Event} {k : Kernel}

/-- The flag tells whether an interrupt process runs. -/
structure Serving (m : Machine) : Prop extends Served m where
  only : m.kernel.inIProcess = true → IProcess m.kernel.currentPcb

theorem ne_pid {p : PcbRef} (hp : ¬IProcess p) (i : Interrupt) : p ≠ i.pid := fun e => hp (e ▸ iProcess_pid i)

/-- An ordinary process runs, and every interrupt process has finished its rounds. -/
theorem Serving.ordinary (hi : m'.kernel.inIProcess = false) (hip : ¬IProcess m'.kernel.currentPcb)
    (hrounds : ∀ i : Interrupt, m'.interrupts i.pid = m'.rounds i.pid) : Serving m' where
  flag h := absurd h hip
  rounds i := by rw [hrounds, if_neg (ne_pid hip i), Nat.add_zero]
  only h := absurd (hi.symm.trans h) Bool.false_ne_true

theorem Serving.interrupt {i : Interrupt} (h : Serving m) (hs : m.step (.interrupt i) = some m') : Serving m' := by
  obtain ⟨hip, hk, hint, hround⟩ := Machine.step_interrupt hs
  obtain ⟨k₁, hput, hk'⟩ := interruptHandler_inv hk
  have hcur : m'.kernel.currentPcb = i.pid := congrArg Kernel.currentPcb hk'
  have hi : m'.kernel.inIProcess = true := (congrArg Kernel.inIProcess hk').trans (enqueuePCBByPriority_current hput).2
  refine ⟨⟨fun _ => hi, fun j => ?_⟩, fun _ => hcur ▸ iProcess_pid i⟩
  have hj := h.rounds j
  rw [if_neg (ne_pid hip j), Nat.add_zero] at hj
  rw [hint, hround, hcur]
  by_cases hji : j = i
  · subst hji
    rw [Function.update_self, if_pos rfl, hj]
  · have hne : j.pid ≠ i.pid := by
      cases i <;> cases j <;> first | exact absurd rfl hji | decide
    rw [Function.update_of_ne hne, if_neg hne.symm, Nat.add_zero, hj]

theorem Serving.iRelease (h : Serving m) (hfind : FindsOrdinary m .iRelease) (hs : m.step .iRelease = some m') :
    Serving m' := by
  obtain ⟨hip, hk, hint, hround⟩ := Machine.step_iRelease hs
  rcases Outcome.kernel?_eq_some.mp hk with ho | ho
  · exact absurd (processSwitch_returned ho).1 (Nat.not_lt_of_le hfind.1)
  · obtain ⟨-, p, k₁, k₂, htake, -, hk'⟩ := processSwitch_inv ho
    have hcur : m'.kernel.currentPcb = p := congrArg Kernel.currentPcb hk'
    have hp : ¬IProcess p := hfind.2 p (top_of_dequeue (k := Call.releaseProcessor.enter m.kernel) htake)
    refine .ordinary (congrArg Kernel.inIProcess hk') (hcur ▸ hp) fun j => ?_
    have hj := h.rounds j
    rw [hint, hround]
    by_cases hcj : m.kernel.currentPcb = j.pid
    · rw [hcj, Function.update_self, hj, if_pos hcj]
    · rw [Function.update_of_ne fun e => hcj e.symm, hj, if_neg hcj, Nat.add_zero]

theorem Serving.call {c : Call} (h : Serving m) (hfind : FindsOrdinary m (.call c)) (hs : m.step (.call c) = some m') :
    Serving m' := by
  obtain ⟨hip, hk, hint, hround⟩ := Machine.step_call hs
  have hi : (c.enter m.kernel).inIProcess = false := by
    rw [enter_inIProcess]
    exact Bool.eq_false_iff.mpr fun hi => hip (h.only hi)
  have hrounds : ∀ j : Interrupt, m'.interrupts j.pid = m'.rounds j.pid := fun j => by
    have hj := h.rounds j
    rwa [if_neg (ne_pid hip j), Nat.add_zero, ← hint, ← hround] at hj
  have hends := call_ends c m.kernel
  rcases Outcome.kernel?_eq_some.mp hk with ho | ho
  · rw [ho] at hends
    refine .ordinary (hends.2.trans hi) ?_ hrounds
    rw [show m'.kernel.currentPcb = (c.enter m.kernel).currentPcb from hends.1, enter_currentPcb]
    exact hip
  · rw [ho] at hends
    exact .ordinary (hends.1 hi) (hfind _ hends.2) hrounds

theorem Serving.step (h : Serving m) (hfind : FindsOrdinary m e) (hs : m.step e = some m') : Serving m' := by
  cases e with
  | interrupt i => exact h.interrupt hs
  | iRelease => exact h.iRelease hfind hs
  | call c => exact h.call hfind hs

theorem Booted.serving {img : Layout} (h : Booted img k) : Serving (Machine.start k) :=
  .ordinary h.started.inIProcess (by
    show ¬IProcess k.currentPcb
    rw [h.started.current]
    decide) fun _ => rfl

end

/-- In every run from the booted state whose steps all find an ordinary process on top of the ready queue when they
    take one, an interrupt process runs only while the flag is set, once for each of its interrupts. -/
theorem interrupts_served (img : Layout) :
    ∃ k, boot img = .switched k ∧ ∀ es : List Event, Runs.Along Machine.step FindsOrdinary (Machine.start k) es →
      Runs.Throughout Machine.step Served (Machine.start k) es := by
  obtain ⟨k, hboot, h⟩ := boot_spec img
  refine ⟨k, hboot, fun es hes => ?_⟩
  refine (Runs.throughout_of_invariant (I := Serving) ?_ h.serving hes).imp fun m hm => hm.toServed
  intro m e m' hm hfind hs
  exact hm.step hfind hs

/-- The timer interrupts the first process, which goes on after one round of the timer process. -/
theorem interrupts_served_once :
    ∃ k m, boot rtosMap = .switched k ∧ Runs.exec Machine.step (.start k) [.interrupt .timer, .iRelease] = some m ∧
      m.rounds timerPid = 1 ∧ Runs.Throughout Machine.step Served (.start k) [.interrupt .timer, .iRelease] := by
  obtain ⟨k, hboot, hserved⟩ := interrupts_served rtosMap
  have hrun : (((boot rtosMap).kernel?.bind fun k => Runs.exec (Runs.guarded Machine.step fun m e =>
      e = .interrupt .timer ∨ e = .iRelease ∧ m.kernel.readyQueue.highestPrio ≤ m.kernel.current.priority ∧
        ∀ p ∈ m.kernel.top .ready, ¬IProcess p) (.start k) [.interrupt .timer, .iRelease]).any fun m =>
          decide (m.rounds timerPid = 1)) = true := by decide +kernel
  rw [hboot] at hrun
  obtain ⟨m, hm, hrounds⟩ := Option.any_eq_true _ _ |>.mp hrun
  obtain ⟨hfinds, hm⟩ := Runs.along_of_guarded hm
  refine ⟨k, m, hboot, hm, of_decide_eq_true hrounds, hserved _ (hfinds.imp fun m e he => ?_)⟩
  rcases he with rfl | ⟨rfl, hle, htop⟩
  · trivial
  · exact ⟨hle, htop⟩

/-- After one round of the timer process every other process waits for a message: the scheduler runs the timer process
    again, without an interrupt. -/
theorem timer_without_interrupt :
    ∃ m, ((boot rtosMap).kernel?.bind fun k =>
        Runs.exec Machine.step (Machine.start k)
          ([.interrupt .timer, .iRelease] ++ List.replicate 14 (.call (.receiveMessage 0)))) = some m ∧
      m.kernel.currentPcb = timerPid ∧ m.kernel.inIProcess = false ∧ ¬Served m := by
  have hrun : (((boot rtosMap).kernel?.bind fun k =>
      Runs.exec Machine.step (Machine.start k)
        ([.interrupt .timer, .iRelease] ++ List.replicate 14 (.call (.receiveMessage 0)))).any fun m =>
      decide (m.kernel.currentPcb = timerPid ∧ m.kernel.inIProcess = false)) = true := by decide +kernel
  obtain ⟨m, hm, hall⟩ := Option.any_eq_true _ _ |>.mp hrun
  obtain ⟨hcur, hi⟩ := of_decide_eq_true hall
  refine ⟨m, hm, hcur, hi, fun hserved => ?_⟩
  have hflag := hserved.flag (by rw [hcur]; decide)
  rw [hi] at hflag
  exact absurd hflag Bool.false_ne_true

end DoorRtos
