import DoorRtos.Runs
import DoorRtos.Theorems.Iterations

/-! The list of delayed messages when nothing is inserted any more: the iterations of the timer process empty it, in
    its order, each message in an iteration that the deltas and `timer_count` tell. -/

namespace DoorRtos
open Linked

section
variable {s : Timing} {D : List Addr}

/-- The message `x.1`, passed on `x.2` iterations after the state `s`. -/
def Timing.passIn (s : Timing) (x : Addr × Nat) : Pass := ⟨s.iterations + x.2, (s.kernel.mess x.1).destPid, x.1⟩

/-- After `n` iterations the messages that are scheduled for them have been passed on. -/
theorem drain_passed (hr : TimerReady s.kernel) (hD : Pending s.kernel D) (hlt : ∀ e ∈ D, (s.kernel.mess e).delay < 2 ^ 32)
    (ht : s.timerCount < 2 ^ 32) (n : Nat) :
    ∃ s', Runs.exec Timing.step s (List.replicate n .iteration) = some s' ∧
      s'.passed = s.passed ++
        ((Delta.schedule s.timerCount (entries s.kernel D)).filter fun x => x.2 ≤ n).map s.passIn := by
  induction n generalizing s D with
  | zero =>
    refine ⟨s, rfl, ?_⟩
    rw [List.filter_eq_nil_iff.mpr fun x hx => by simpa using Nat.ne_of_gt (Delta.schedule_pos hx)]
    exact (List.append_nil _).symm
  | succ n ih =>
    have hhead : ∀ x ∈ (entries s.kernel D).head?, x.2 < 2 ^ 32 := fun x hx => by
      obtain ⟨e, he, rfl⟩ := List.mem_map.mp (List.mem_of_mem_head? hx)
      exact hlt e he
    obtain ⟨D₁, D₂, k', rfl, hout, hrest, hstep, hrem⟩ := Timing.iteration_spec hr hD
    have hsched := Delta.schedule_tick ht hhead
    rw [hout, hrest] at hsched
    have hentries : entries k' D₂ = entries s.kernel D₂ := entries_congr fun x _ => hrem.delay x
    obtain ⟨s', hs', hpassed⟩ := ih (s := { s with
        kernel := k'
        timerCount := (Delta.tick (2 ^ 32) s.timerCount (entries s.kernel (D₁ ++ D₂))).2.1
        iterations := s.iterations + 1
        passed := s.passed ++ D₁.map fun e => ⟨s.iterations + 1, (s.kernel.mess e).destPid, e⟩ })
      hrem.inTimer.toTimerReady hrem.pending
      (fun e he => by rw [hrem.delay]; exact hlt e (List.mem_append_right D₁ he)) (Delta.tick_count_lt (by decide))
    refine ⟨s', by rw [List.replicate_succ, Runs.exec_cons, hstep]; exact hs', ?_⟩
    have hnow : (D₁.map fun a => (a, 1)).filter (fun x => x.2 ≤ n + 1) = D₁.map fun a => (a, 1) :=
      List.filter_eq_self.mpr fun x hx => by
        obtain ⟨a, -, rfl⟩ := List.mem_map.mp hx
        exact decide_eq_true (Nat.succ_le_succ (Nat.zero_le n))
    rw [hpassed, hsched, List.filter_append, List.map_append, hentries, hnow, List.filter_map, List.map_map, List.map_map,
      List.append_assoc]
    have hlater : ((fun x : Addr × Nat => decide (x.2 ≤ n + 1)) ∘ fun x : Addr × Nat => (x.1, x.2 + 1)) =
        fun x => decide (x.2 ≤ n) :=
      funext fun x => decide_eq_decide.mpr Nat.succ_le_succ_iff
    rw [hlater]
    congr 2
    refine List.map_congr_left fun x _ => ?_
    show (⟨s.iterations + 1 + x.2, (k'.mess x.1).destPid, x.1⟩ : Pass) = ⟨s.iterations + (x.2 + 1), _, x.1⟩
    rw [hrem.destPid, Nat.add_assoc, Nat.add_comm 1]

/-- Without further insertions the pending messages are passed on in the order of the list, each in the iteration
    that it is scheduled for and in no other; that iteration is the one that its accumulated delay tells, or an
    earlier one, or the next. -/
theorem delayed_messages_drained (hr : TimerReady s.kernel) (hD : Pending s.kernel D)
    (hlt : ∀ e ∈ D, (s.kernel.mess e).delay < 2 ^ 32) (ht : s.timerCount < 2 ^ 32) :
    (∀ n, ∃ s', Runs.exec Timing.step s (List.replicate n .iteration) = some s' ∧
      s'.passed = s.passed ++
        ((Delta.schedule s.timerCount (entries s.kernel D)).filter fun x => x.2 ≤ n).map s.passIn) ∧
    (Delta.schedule s.timerCount (entries s.kernel D)).map Prod.fst = D ∧
    (Delta.schedule s.timerCount (entries s.kernel D)).Pairwise (fun x y => x.2 ≤ y.2) ∧
    List.Forall₂ (fun x y => x.1 = y.1 ∧ x.2 ≤ y.2 + 1) (Delta.schedule s.timerCount (entries s.kernel D))
      (Delta.times 0 (entries s.kernel D)) := by
  refine ⟨drain_passed hr hD hlt ht, ?_, Delta.schedule_sorted _ _, Delta.schedule_le ht fun x hx => ?_⟩
  · rw [Delta.schedule_fst, entries, List.map_map]
    exact List.map_id D
  · obtain ⟨e, he, rfl⟩ := List.mem_map.mp (List.mem_of_mem_head? hx)
    exact hlt e he

end

instance (k : Kernel) (pid : Nat) : Decidable (Sendable k pid) :=
  inferInstanceAs (Decidable (_ ∨ ∃ d, k.Created d ∧ d ≠ timerPid ∧ d.val = pid))

/-- Just after the start, with one message delayed by 2 and one by 5 and the counter at 3, the messages are passed on
    in the third and the sixth iteration. -/
theorem delayed_messages_drained_at_boot :
    ∃ k s s', boot rtosMap = .switched k ∧
      Runs.exec Timing.step { Timing.start k with timerCount := 3 }
        [.delayedSend wcPid crtPid.val firstBlock 2, .delayedSend wcPid kcdPid.val secondBlock 5] = some s ∧
      Runs.exec Timing.step s (List.replicate 6 .iteration) = some s' ∧
      s'.passed = [⟨3, crtPid.val, firstBlock⟩, ⟨6, kcdPid.val, secondBlock⟩] := by
  have hrun : ((boot rtosMap).kernel?.any fun k =>
      (Runs.exec Timing.step { Timing.start k with timerCount := 3 }
        [.delayedSend wcPid crtPid.val firstBlock 2, .delayedSend wcPid kcdPid.val secondBlock 5]).any fun s =>
        decide (s.kernel.TableOk ∧ s.kernel.Created timerPid ∧
          (∀ p, s.kernel.Created p → (s.kernel.pcbs p).messQueue = some p) ∧
          (∀ p, s.kernel.Created p → (s.kernel.pcbs p).priority ≤ numPrio) ∧
          isMsgqEmpty (s.kernel.mQueues timerPid) = true ∧
          IsList s.kernel.messNext s.kernel.delayedSendQueue.head [firstBlock, secondBlock] ∧
          (∀ e ∈ [firstBlock, secondBlock], Sendable s.kernel (s.kernel.mess e).destPid) ∧
          entries s.kernel [firstBlock, secondBlock] = [(firstBlock, 2), (secondBlock, 3)] ∧
          (s.kernel.mess firstBlock).destPid = crtPid.val ∧ (s.kernel.mess secondBlock).destPid = kcdPid.val ∧
          s.timerCount = 3 ∧ s.iterations = 0 ∧ s.passed = [])) = true := by decide +kernel
  obtain ⟨k, hboot, -⟩ := boot_spec rtosMap
  rw [hboot, Outcome.kernel?_switched, Option.any_some] at hrun
  obtain ⟨s, hs, hall⟩ := Option.any_eq_true _ _ |>.mp hrun
  obtain ⟨ht, htimer, hmail, hprio, hidle, hlist, hdest, hentries, hcrt, hkcd, hcount, hiter, hpassed⟩ :=
    of_decide_eq_true hall
  have hlt : ∀ e ∈ [firstBlock, secondBlock], (s.kernel.mess e).delay < 2 ^ 32 := fun e he => by
    have hmem : (e, (s.kernel.mess e).delay) ∈ entries s.kernel [firstBlock, secondBlock] := List.mem_map_of_mem he
    rw [hentries] at hmem
    rcases List.mem_cons.mp hmem with h | h
    · rw [(Prod.mk.inj h).2]
      decide
    · rw [(Prod.mk.inj (List.mem_singleton.mp h)).2]
      decide
  obtain ⟨s', hs', hpassed'⟩ := (delayed_messages_drained ⟨ht, htimer, hmail, hprio, hidle⟩ ⟨hlist, hdest⟩ hlt
    (hcount ▸ by decide)).1 6
  refine ⟨k, s, s', hboot, hs, hs', ?_⟩
  rw [hpassed', hpassed, hentries, hcount]
  simp [Delta.schedule, Delta.times, Timing.passIn, hiter, hcrt, hkcd]

end DoorRtos
