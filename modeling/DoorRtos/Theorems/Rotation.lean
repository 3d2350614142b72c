import DoorRtos.Runs
import DoorRtos.Theorems.WellScheduled
import DoorRtos.Traps
import Mathlib.Data.List.Rotate

/-! Processes of equal priority that give up the processor one after the other. `release_processor` takes the oldest of
    them out of the ready queue and adds the running one, so that they take turns. -/

namespace DoorRtos
open Linked

def releaseStep (k : Kernel) (_ : Unit) : Option Kernel :=
  (swiTrapHandler (Call.releaseProcessor.enter k)).kernel?

/-- The processes of `ps`, all of priority `i`, take turns: the first of them runs, the others are ready in this order,
    and no ready process has a smaller priority number. -/
structure InRotation (k : Kernel) (L : Slot → List PcbRef) (i : Level) (ps : List PcbRef) : Prop where
  rep : Rep k L
  own : Own k L
  running : ps.head? = some k.currentPcb
  unlinked : Unlinked L k.currentPcb
  ready : L (.ready, i) = ps.tail.reverse
  states : ∀ p ∈ ps.tail, (k.pcbs p).state = .ready
  priority : k.current.priority = i.val
  first : ∀ j : Level, j.val < i.val → L (.ready, j) = []
  inIProcess : k.inIProcess = false

/-- The kernel `k'` is `k` after turns of the processes of `ps`. -/
structure Turned (k : Kernel) (ps : List PcbRef) (k' : Kernel) : Prop where
  priority : ∀ p, (k'.pcbs p).priority = (k.pcbs p).priority
  others : ∀ p, p ∉ ps → k'.pcbs p = k.pcbs p
  state : k.current.state = .running → k'.current.state = .running

section
variable {k k' k₁ : Kernel} {L : Slot → List PcbRef} {i : Level} {ps : List PcbRef} {n : Nat}

theorem Turned.refl (k : Kernel) (ps : List PcbRef) : Turned k ps k := ⟨fun _ => rfl, fun _ _ => rfl, id⟩

theorem Turned.trans {ps' : List PcbRef} (h : Turned k ps k₁) (h' : Turned k₁ ps' k') (hps : ∀ p, p ∈ ps' ↔ p ∈ ps) :
    Turned k ps k' where
  priority p := (h'.priority p).trans (h.priority p)
  others p hp := (h'.others p (mt (hps p).mp hp)).trans (h.others p hp)
  state hst := h'.state (h.state hst)

/-! ### One call -/

/-- Alone of its priority, the running process goes on. -/
theorem InRotation.alone {p : PcbRef} (h : InRotation k L i [p]) :
    releaseStep k () = some (Call.releaseProcessor.enter k) := by
  have hlt : k.current.priority < k.readyQueue.highestPrio := by
    refine Nat.lt_of_not_le fun hle => ?_
    have hhigh := h.rep.highest .ready
    have hle' : k.readyQueue.highestPrio ≤ i.val := h.priority ▸ hle
    refine hhigh.here ⟨k.readyQueue.highestPrio, Nat.lt_of_le_of_lt hle' i.isLt⟩ rfl ?_
    rcases Nat.lt_or_eq_of_le hle' with hlt | heq
    · exact h.first _ hlt
    · rw [show (⟨k.readyQueue.highestPrio, Nat.lt_of_le_of_lt hle' i.isLt⟩ : Level) = i from Fin.ext heq]
      exact h.ready
  unfold releaseStep
  rw [swiTrapHandler_releaseProcessor rfl, processSwitch_stay (k := Call.releaseProcessor.enter k) hlt]
  rfl

theorem InRotation.enter (h : InRotation k L i ps) : InRotation (Call.releaseProcessor.enter k) L i ps :=
  ⟨h.rep.congr rfl rfl, h.own, h.running, h.unlinked, h.ready, h.states, h.priority, h.first, h.inIProcess⟩

/-- Otherwise the oldest of the others runs, and the process that has run is the newest of them. -/
theorem InRotation.next {p q : PcbRef} {rest : List PcbRef} (h : InRotation k L i (p :: q :: rest)) :
    ∃ k', processSwitch k = .switched k' ∧
      InRotation k' (Function.update L (.ready, i) (p :: rest.reverse)) i (q :: (rest ++ [p])) ∧
      Turned k (p :: q :: rest) k' := by
  obtain ⟨hrep, hown, hrun, hun, hready, hstates, hprio, hfirst, hi⟩ := h
  cases hrun
  have hl : L (.ready, i) = rest.reverse ++ [q] := by rw [hready, List.tail_cons, List.reverse_cons]
  have hmem : q ∈ L (.ready, i) := by
    rw [hl]
    exact List.mem_append_right _ List.mem_cons_self
  have hle : k.readyQueue.highestPrio ≤ k.current.priority := by
    have hhigh := (hrep.highest .ready).le_of_mem hmem
    rw [hprio]
    exact hhigh
  obtain ⟨next, c, htake, hrep₁⟩ := dequeuePCBFIFOByPriority_spec hrep hl hfirst
  have htaken : Taken L .ready q (Function.update L (.ready, i) rest.reverse) :=
    taken_update hrep hmem (mem_dropLast_iff hrep hl)
  -- The PCB that was running goes to the head of the subqueue, which the other one has left.
  have hrep₂ : Rep (((k.setQueue .ready next c).setState q .running).setState k.currentPcb .ready)
      (Function.update L (.ready, i) rest.reverse) := hrep₁.congr rfl rfl
  have hun₂ : Unlinked (Function.update L (.ready, i) rest.reverse) k.currentPcb := fun s hs => hun s (htaken.sub s _ hs)
  obtain ⟨next', c', hput, hrep₃⟩ := enqueuePCBByPriority_spec (w := .ready) (i := i) hrep₂ hun₂
    (by simpa [Kernel.current] using hprio)
  have hinsert : insertAt (Function.update L (.ready, i) rest.reverse) .ready i k.currentPcb =
      Function.update L (.ready, i) (k.currentPcb :: rest.reverse) := by
    unfold insertAt
    rw [Function.update_self, Function.update_idem]
  rw [hinsert] at hrep₃
  have hpq : q ≠ k.currentPcb := fun e => hun _ (e ▸ hmem)
  have hown₃ : ∀ k₃ : Kernel, (∀ x, (k₃.pcbs x).priority = (k.pcbs x).priority) →
      Own k₃ (Function.update L (.ready, i) (k.currentPcb :: rest.reverse)) := fun k₃ hk₃ => by
    have hown₁ : Own k (Function.update L (.ready, i) rest.reverse) := fun w j x hx => hown w j x (htaken.sub _ x hx)
    exact hinsert ▸ (hown₁.insertAt hprio).congr hk₃
  refine ⟨_, processSwitch_eq hle htake (Kernel.setQueue_currentPcb ..) hput, ?_, ?_⟩
  · refine ⟨hrep₃.congr rfl rfl, hown₃ _ fun x => by simp, rfl, ?_, ?_, fun x hx => ?_, ?_, fun j hj => ?_, rfl⟩
    · rw [← hinsert]
      exact unlinked_insertAt.mpr ⟨htaken.unlinked, hpq⟩
    · rw [Function.update_self, List.tail_cons, List.reverse_append]
      rfl
    · rw [List.tail_cons] at hx
      have hxq : x ≠ q := by
        rintro rfl
        rcases List.mem_append.mp hx with hx | hx
        · have hnd := (hrep.holds.holds (.ready, i)).nodup
          rw [hl] at hnd
          exact (List.nodup_append.mp hnd).2.2 x (List.mem_reverse.mpr hx) x List.mem_cons_self rfl
        · exact hpq (List.mem_singleton.mp hx)
      simp only [Kernel.setQueue_pcbs, Kernel.setState_state, if_neg hxq]
      split
      · rfl
      next hxp =>
        refine hstates x (List.mem_cons_of_mem q ?_)
        exact (List.mem_append.mp hx).resolve_right fun hx => hxp (List.mem_singleton.mp hx)
    · simp only [Kernel.current, Kernel.setQueue_pcbs, Kernel.setState_priority]
      exact hown _ _ _ hmem
    · rw [Function.update_of_ne (fun e => by cases e; omega)]
      exact hfirst j hj
  · refine ⟨fun x => by simp, fun x hx => ?_, fun _ => by simp [Kernel.current, hpq]⟩
    have hxp : x ≠ k.currentPcb := fun e => hx (e ▸ List.mem_cons_self)
    have hxq : x ≠ q := fun e => hx (e ▸ List.mem_cons_of_mem _ List.mem_cons_self)
    rw [show ∀ k₂ : Kernel, ({ k₂ with inIProcess := false, currentPcb := q } : Kernel).pcbs = k₂.pcbs from fun _ => rfl,
      Kernel.setQueue_pcbs, Kernel.setState_pcbs_of_ne _ _ _ _ hxp, Kernel.setState_pcbs_of_ne _ _ _ _ hxq,
      Kernel.setQueue_pcbs]

theorem InRotation.step (h : InRotation k L i ps) :
    ∃ k', releaseStep k () = some k' ∧
      InRotation k' (Function.update L (.ready, i) (ps.rotate 1).tail.reverse) i (ps.rotate 1) ∧ Turned k ps k' := by
  match ps, h with
  | [], h => cases h.running
  | [p], h =>
    refine ⟨_, h.alone, ?_, fun _ => rfl, fun _ _ => rfl, id⟩
    have hsame : Function.update L (.ready, i) ([p].rotate 1).tail.reverse = L := by
      rw [List.rotate_singleton, ← h.ready, Function.update_eq_self]
    rw [hsame, List.rotate_singleton]
    exact h.enter
  | p :: q :: rest, h =>
    obtain ⟨k', hs, h', hturned⟩ := h.enter.next
    refine ⟨k', ?_, ?_, hturned.priority, hturned.others, hturned.state⟩
    · unfold releaseStep
      rw [swiTrapHandler_releaseProcessor rfl, hs]
      rfl
    · rw [List.rotate_cons_succ, List.rotate_zero, List.cons_append, List.tail_cons, List.reverse_append]
      exact h'

/-! ### Many calls -/

/-- After `n` calls the processes are as they were, rotated by `n`. -/
theorem InRotation.run (h : InRotation k L i ps) (n : Nat) :
    ∃ k', Runs.exec releaseStep k (List.replicate n ()) = some k' ∧
      InRotation k' (Function.update L (.ready, i) (ps.rotate n).tail.reverse) i (ps.rotate n) ∧ Turned k ps k' := by
  induction n generalizing k L ps with
  | zero =>
    refine ⟨k, rfl, ?_, .refl k ps⟩
    rw [List.rotate_zero, ← h.ready, Function.update_eq_self]
    exact h
  | succ n ih =>
    obtain ⟨k₁, hs, h₁, ht₁⟩ := h.step
    obtain ⟨k₂, hexec, h₂, ht₂⟩ := ih h₁
    rw [List.rotate_rotate, Nat.add_comm 1 n, Function.update_idem] at h₂
    refine ⟨k₂, ?_, h₂, ht₁.trans ht₂ fun p => List.mem_rotate⟩
    rw [List.replicate_succ, Runs.exec_cons, hs]
    exact hexec

/-- After `n` calls process number `n` of the round runs, the others are ready in cyclic order after it, and every other
    process is left in its place. -/
theorem release_in_turn (h : InRotation k L i ps) (n : Nat) :
    ∃ k' L', Runs.exec releaseStep k (List.replicate n ()) = some k' ∧ ps[n % ps.length]? = some k'.currentPcb ∧
      InRotation k' L' i (ps.rotate n) ∧ (∀ s, s ≠ (.ready, i) → L' s = L s) ∧ Turned k ps k' := by
  obtain ⟨k', hexec, h', hturned⟩ := h.run n
  refine ⟨k', _, hexec, ?_, h', fun s hs => Function.update_of_ne hs _ _, hturned⟩
  have hpos : 0 < ps.length := List.length_pos_of_ne_nil fun hnil => by
    subst hnil
    cases h.running
  rw [← List.head?_rotate (Nat.mod_lt n hpos), List.rotate_mod]
  exact h'.running

/-! ### After the start -/

theorem Booted.inRotation {img : Layout} (h : Booted img k) : InRotation k bootContents 0 [wcPid, crtPid, setPrioPid] := by
  have hwell := h.started.wellScheduled
  have hready : ∀ p ∈ [crtPid, setPrioPid], (k.pcbs p).state = .ready := fun p hp => by
    have hmem : (p, Priority.high) ∈ readyProcesses :=
      (show ∀ p ∈ [crtPid, setPrioPid], (p, Priority.high) ∈ readyProcesses by decide) p hp
    rw [h.started.pcb _ hmem]
  refine ⟨hwell.rep, hwell.own, by rw [h.started.current]; rfl, ?_, by decide, hready, ?_, fun j hj => ?_,
    h.started.inIProcess⟩
  · rw [h.started.current]
    decide
  · unfold Kernel.current
    rw [h.started.current, h.started.pcb (wcPid, Priority.high) (by decide)]
    rfl
  · exact absurd hj (Nat.not_lt_zero _)

/-- Five calls just after the start. -/
theorem release_in_turn_at_boot :
    ∃ k k' L', boot rtosMap = .switched k ∧ Runs.exec releaseStep k (List.replicate 5 ()) = some k' ∧
      some setPrioPid = some k'.currentPcb ∧ InRotation k' L' 0 [setPrioPid, wcPid, crtPid] ∧
      (∀ s, s ≠ (.ready, 0) → L' s = bootContents s) ∧ Turned k [wcPid, crtPid, setPrioPid] k' := by
  obtain ⟨k, hboot, h⟩ := boot_spec rtosMap
  obtain ⟨k', L', hrest⟩ := release_in_turn h.inRotation 5
  exact ⟨k, k', L', hboot, hrest⟩

end
end DoorRtos
