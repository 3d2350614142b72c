import DoorRtos.Runs
import DoorRtos.Theorems.Iterations

/-! When the timer process passes delayed messages on. The counter `timer_count` runs while messages wait, but
    `kernel_delayed_send` inserts as if it stood at 0: only then is the message passed on in its iteration. -/

namespace DoorRtos
open Linked

section
variable {k k' : Kernel} {e : Addr}

/-! ### The invariant -/

/-- The delayed messages of the kernel are those of `Q`, each with its destination. -/
structure Holding (k : Kernel) (Q : List Delayed) : Prop where
  list : IsList k.messNext k.delayedSendQueue.head (Q.map Delayed.envelope)
  dest : ∀ m ∈ Q, (k.mess m.envelope).destPid = m.destPid ∧ ∃ d, k.Created d ∧ d ≠ timerPid ∧ d.val = m.destPid

theorem Holding.pending {Q : List Delayed} (h : Holding k Q) : Pending k (Q.map Delayed.envelope) where
  list := h.list
  dest e he := by
    obtain ⟨m, hm, rfl⟩ := List.mem_map.mp he
    obtain ⟨hdest, hcreated⟩ := h.dest m hm
    rw [hdest]
    exact Or.inr hcreated

/-- The messages that an iteration leaves are held as before. -/
theorem Holding.remaining {Q Q₁ Q₂ : List Delayed} (h : Holding k Q) (hQ : Q = Q₁ ++ Q₂)
    (hrem : Remaining k (Q₂.map Delayed.envelope) k') : Holding k' Q₂ where
  list := hrem.pending.list
  dest m hm := by
    obtain ⟨hdest, d, hd, hne⟩ := h.dest m (hQ ▸ List.mem_append_right Q₁ hm)
    exact ⟨(hrem.destPid _).trans hdest, d, (hrem.pids d).trans hd, hne⟩

/-- An inserted message is held with the others. -/
theorem Holding.inserted {Qa Qb : List Delayed} {m : Delayed} (h : Holding k (Qa ++ Qb))
    (hins : Inserted k m.destPid m.envelope (Qa.map Delayed.envelope) (Qb.map Delayed.envelope) k')
    (hnew : m.envelope ∉ (Qa ++ Qb).map Delayed.envelope)
    (hdest : ∃ d, k.Created d ∧ d ≠ timerPid ∧ d.val = m.destPid) : Holding k' (Qa ++ m :: Qb) where
  list := by
    rw [List.map_append, List.map_cons]
    exact hins.list
  dest x hx := by
    have hcreated : ∀ p, k.Created p → k'.Created p := fun p hp => by
      unfold Kernel.Created
      rw [hins.pcbs]
      exact hp
    rcases List.mem_cons.mp (List.perm_middle.mem_iff.mp hx) with rfl | hx
    · obtain ⟨d, hd, hne⟩ := hdest
      exact ⟨(hins.destPid x.envelope).trans (if_pos rfl), d, hcreated d hd, hne⟩
    · have hxm : x.envelope ≠ m.envelope := fun he => hnew (he ▸ List.mem_map_of_mem hx)
      obtain ⟨hdest, d, hd, hne⟩ := h.dest x hx
      exact ⟨((hins.destPid x.envelope).trans (if_neg hxm)).trans hdest, d, hcreated d hd, hne⟩

/-- The messages passed on are those accepted that are due, each in its iteration and to its destination. -/
def Timing.OnTime (s : Timing) : Prop :=
  s.passed.Perm ((s.accepted.filter fun m => m.due ≤ s.iterations).map Delayed.pass)

/-- Messages pending in the order of `Q` have their due times as the times of the delta list, when its first delta
    counts from `base`; the others have been passed on. -/
structure Ticking (s : Timing) (Q : List Delayed) (base : Nat) : Prop where
  ready : TimerReady s.kernel
  holding : Holding s.kernel Q
  times : Delta.times base (entries s.kernel (Q.map Delayed.envelope)) = Q.map fun m => (m.envelope, m.due)
  ahead : Delta.Ahead s.timerCount (entries s.kernel (Q.map Delayed.envelope))
  clock : Q ≠ [] → base + s.timerCount = s.iterations
  bound : ∀ x ∈ entries s.kernel (Q.map Delayed.envelope), x.2 < 2 ^ 31
  done : ∃ done, s.accepted.Perm (done ++ Q) ∧ s.passed.Perm (done.map Delayed.pass) ∧ ∀ m ∈ done, m.due ≤ s.iterations

section
variable {s s' : Timing} {Q : List Delayed} {base : Nat}

/-- A pending message is not due yet. -/
theorem Ticking.lt_due (h : Ticking s Q base) {m : Delayed} (hm : m ∈ Q) : s.iterations < m.due := by
  have hmem : (m.envelope, m.due) ∈ Delta.times base (entries s.kernel (Q.map Delayed.envelope)) := by
    rw [h.times]
    exact List.mem_map_of_mem hm
  rw [← h.clock (List.ne_nil_of_mem hm)]
  exact h.ahead.lt_times hmem

theorem Ticking.onTime (h : Ticking s Q base) : s.OnTime := by
  obtain ⟨done, haccepted, hpassed, hdue⟩ := h.done
  have hdone : done.filter (fun m => m.due ≤ s.iterations) = done :=
    List.filter_eq_self.mpr fun m hm => decide_eq_true (hdue m hm)
  have hpending : Q.filter (fun m => m.due ≤ s.iterations) = [] :=
    List.filter_eq_nil_iff.mpr fun m hm hle => Nat.not_lt_of_le (of_decide_eq_true hle) (h.lt_due hm)
  have hall : (s.accepted.filter fun m => m.due ≤ s.iterations).Perm done := by
    have := haccepted.filter fun m => m.due ≤ s.iterations
    rwa [List.filter_append, hdone, hpending, List.append_nil] at this
  exact hpassed.trans (hall.map Delayed.pass).symm

theorem ticking_start (h : TimerReady k) (hempty : k.delayedSendQueue.head = none) : Ticking (.start k) [] 0 where
  ready := h
  holding := ⟨hempty, fun _ hm => absurd hm List.not_mem_nil⟩
  times := rfl
  ahead _ hx := by cases hx
  clock hne := absurd rfl hne
  bound _ hx := absurd hx List.not_mem_nil
  done := ⟨[], .nil, .nil, fun _ hm => absurd hm List.not_mem_nil⟩

/-- One iteration passes on exactly the messages that become due. -/
theorem Ticking.iteration (h : Ticking s Q base) :
    ∃ s', s.step .iteration = some s' ∧ ∃ Q' base', Ticking s' Q' base' := by
  -- While messages wait, the counter does not wrap round.
  have hcount : Q ≠ [] → (s.timerCount + 1) % 2 ^ 32 = s.timerCount + 1 := fun hne => by
    obtain ⟨m, Q, rfl⟩ := List.exists_cons_of_ne_nil hne
    have hlt : s.timerCount < (s.kernel.mess m.envelope).delay := h.ahead (m.envelope, _) rfl
    have hbound : (s.kernel.mess m.envelope).delay < 2 ^ 31 := h.bound (m.envelope, _) List.mem_cons_self
    omega
  have hle : ∀ x ∈ (entries s.kernel (Q.map Delayed.envelope)).head?, (s.timerCount + 1) % 2 ^ 32 ≤ x.2 := fun x hx => by
    have hne : Q ≠ [] := by
      rintro rfl
      cases hx
    rw [hcount hne]
    exact h.ahead x hx
  obtain ⟨D₁, D₂, k', hsplit, hout, hrest, hstep, hrem⟩ := Timing.iteration_spec h.ready h.holding.pending
  obtain ⟨Q₁, Q₂, rfl, rfl, rfl⟩ := List.map_eq_append_iff.mp hsplit
  rw [Delta.tick_eq hle] at hout hrest hstep
  obtain ⟨base', hbase', htimes, hahead⟩ := Delta.expire_spec hle base
  have hentries : entries k' (Q₂.map Delayed.envelope) = entries s.kernel (Q₂.map Delayed.envelope) :=
    entries_congr fun x _ => hrem.delay x
  -- The due times split as the messages do.
  have hsplit : ((Q₁ ++ Q₂).map fun m => (m.envelope, m.due)) =
      (Q₁.map Delayed.envelope).map (fun a => (a, base + (s.timerCount + 1) % 2 ^ 32)) ++
        Delta.times base' (entries s.kernel (Q₂.map Delayed.envelope)) := by
    rw [← h.times, htimes]
    exact congrArg₂ (fun a b => a.map (fun a => (a, base + (s.timerCount + 1) % 2 ^ 32)) ++ Delta.times base' b) hout hrest
  rw [List.map_append] at hsplit
  obtain ⟨hpassed, hpending⟩ := List.append_inj hsplit (by simp)
  have hdue : ∀ m ∈ Q₁, m.due = s.iterations + 1 := fun m hm => by
    have hne : Q₁ ++ Q₂ ≠ [] := List.ne_nil_of_mem (List.mem_append_left Q₂ hm)
    rw [List.map_map] at hpassed
    have hm' : m.due = base + (s.timerCount + 1) % 2 ^ 32 := congrArg Prod.snd (List.map_inj_left.mp hpassed m hm)
    have hclock := h.clock hne
    rw [hm', hcount hne]
    omega
  obtain ⟨done, haccepted, hdone, hdone'⟩ := h.done
  refine ⟨_, hstep, Q₂, base', hrem.inTimer.toTimerReady, h.holding.remaining rfl hrem, ?_, ?_, fun hne => ?_,
    fun x hx => ?_, done ++ Q₁, ?_, ?_, fun m hm => ?_⟩
  · rw [hentries]
    exact hpending.symm
  · rw [hentries]
    exact (show _ = entries s.kernel _ from hrest) ▸ hahead
  · have hclock := h.clock (List.append_ne_nil_of_right_ne_nil Q₁ hne)
    have hcount' := hcount (List.append_ne_nil_of_right_ne_nil Q₁ hne)
    show base' + (Delta.expire _ _).2.1 = s.iterations + 1
    rw [hbase', hcount']
    omega
  · rw [hentries] at hx
    exact h.bound x (by rw [List.map_append, entries_append]; exact List.mem_append_right _ hx)
  · rw [List.append_assoc]
    exact haccepted
  · have hmap : (Q₁.map Delayed.envelope).map (fun e => (⟨s.iterations + 1, (s.kernel.mess e).destPid, e⟩ : Pass)) =
        Q₁.map Delayed.pass := by
      rw [List.map_map]
      refine List.map_congr_left fun m hm => ?_
      unfold Delayed.pass
      rw [hdue m hm, ← (h.holding.dest m (List.mem_append_left Q₂ hm)).1]
      rfl
    show (s.passed ++ _).Perm _
    rw [hmap, List.map_append]
    exact hdone.append_right _
  · show m.due ≤ s.iterations + 1
    rcases List.mem_append.mp hm with hm | hm
    · exact Nat.le_succ_of_le (hdone' m hm)
    · exact Nat.le_of_eq (hdue m hm)

/-- A send as the system makes them: a positive `int` as the delay, an envelope that is not in the list already, and an
    existing destination other than the timer process. -/
structure ProperSend (s : Timing) (processID : Nat) (envelope : Addr) (delay : Int) : Prop where
  dest : ∃ d, s.kernel.Created d ∧ d ≠ timerPid ∧ d.val = processID
  pos : 0 < delay
  lt : delay < 2 ^ 31
  loose : ∀ D, IsList s.kernel.messNext s.kernel.delayedSendQueue.head D → envelope ∉ D

/-- A send while the counter stands at 0 puts the message in at its due time. -/
theorem Ticking.send {caller : PcbRef} {pid : Nat} {delay : Int} (h : Ticking s Q base) (hs : ProperSend s pid e delay)
    (hzero : s.timerCount = 0) :
    ∃ s', s.step (.delayedSend caller pid e delay) = some s' ∧ ∃ Q' base', Ticking s' Q' base' := by
  have hd : 0 < delay.toNat := by have := hs.pos; omega
  have hlt : delay.toNat < 2 ^ 31 := by have := hs.lt; omega
  have he : e ∉ Q.map Delayed.envelope := hs.loose _ h.holding.list
  obtain ⟨a, b, k', hab, hstep, hins, hbefore, hinsert⟩ := Timing.send_spec caller pid hs.pos h.holding.list he
  have hinsert := hinsert fun x hx => Nat.lt_trans (h.bound x hx) (by decide)
  obtain ⟨Qa, Qb, rfl, rfl, rfl⟩ := List.map_eq_append_iff.mp hab
  -- The list can be taken to count from now.
  have htimes : Delta.times s.iterations (entries s.kernel ((Qa ++ Qb).map Delayed.envelope)) =
      (Qa ++ Qb).map fun m => (m.envelope, m.due) := by
    by_cases hne : Qa ++ Qb = []
    · rw [hne]
      rfl
    · have hbase := h.clock hne
      rw [hzero, Nat.add_zero] at hbase
      rw [← hbase]
      exact h.times
  obtain ⟨hfirst, hrest⟩ := List.append_inj (by rw [← Delta.times_append, Delta.seek_append, htimes, List.map_append] :
    Delta.times s.iterations (Delta.seek delay.toNat (entries s.kernel ((Qa ++ Qb).map Delayed.envelope))).2.1 ++
      Delta.times _ (Delta.seek delay.toNat (entries s.kernel ((Qa ++ Qb).map Delayed.envelope))).2.2 =
        Qa.map (fun m => (m.envelope, m.due)) ++ Qb.map fun m => (m.envelope, m.due))
    (by rw [Delta.length_times, hbefore]; simp [entries])
  obtain ⟨done, haccepted, hdone, hdone'⟩ := h.done
  have henvelope : (Qa ++ ⟨e, pid, delay.toNat, s.iterations⟩ :: Qb).map Delayed.envelope =
      Qa.map Delayed.envelope ++ e :: Qb.map Delayed.envelope := by simp
  refine ⟨_, hstep, Qa ++ ⟨e, pid, delay.toNat, s.iterations⟩ :: Qb, s.iterations, h.ready.inserted hins,
    h.holding.inserted hins he hs.dest, ?_, ?_, fun _ => ?_, ?_, done, ?_, hdone, hdone'⟩
  · rw [henvelope, hinsert]
    refine (Delta.times_insert s.iterations e delay.toNat (entries s.kernel ((Qa ++ Qb).map Delayed.envelope))).trans ?_
    rw [hfirst, hrest, List.map_append]
    rfl
  · rw [henvelope, hinsert, hzero]
    exact Delta.ahead_insert hd (hzero ▸ h.ahead)
  · exact congrArg (s.iterations + ·) hzero
  · rw [henvelope, hinsert]
    exact fun x hx => Delta.lt_of_mem_insert hlt h.bound hx
  · show (s.accepted ++ [_]).Perm _
    refine (haccepted.append_right _).trans ?_
    rw [List.append_assoc, List.append_assoc]
    exact List.Perm.append_left done (List.Perm.append_left Qa (List.perm_append_singleton _ Qb))

/-- The sends are proper ones. -/
def Timing.Proper (s : Timing) : TimingEvent → Prop
  | .delayedSend _ processID envelope delay => ProperSend s processID envelope delay
  | .iteration => True

/-- A message is sent only while `timer_count` stands at 0. -/
def Timing.AtZero (s : Timing) : TimingEvent → Prop
  | .delayedSend _ _ _ _ => s.timerCount = 0
  | .iteration => True

end

/-- In a run in which every message is sent while `timer_count` stands at 0, no step gets stuck, and every message is
    passed on in the iteration that its delay tells. -/
theorem delayed_messages_onTime {k : Kernel} (h : TimerReady k) (hempty : k.delayedSendQueue.head = none)
    {es : List TimingEvent}
    (hes : Runs.Meets Timing.step (fun s e => s.Proper e ∧ s.AtZero e) (.start k) es) :
    ∃ s, Runs.exec Timing.step (.start k) es = some s ∧ s.OnTime := by
  obtain ⟨s, hs, Q, base, hticking⟩ := Runs.exec_of_progress (I := fun s => ∃ Q base, Ticking s Q base) (fun s e hI hC => by
    obtain ⟨Q, base, hticking⟩ := hI
    cases e with
    | delayedSend caller processID envelope delay => exact hticking.send hC.1 hC.2
    | iteration => exact hticking.iteration) ⟨[], 0, ticking_start h hempty⟩ hes
  exact ⟨s, hs, hticking.onTime⟩

/-- The first process sends to the CRT process with delay 2 just after the start, and the timer process runs twice. -/
theorem delayed_messages_onTime_at_boot :
    ∃ k s, boot rtosMap = .switched k ∧
      Runs.exec Timing.step (.start k)
        [.delayedSend wcPid crtPid.val firstBlock 2, .iteration, .iteration] = some s ∧
      s.OnTime := by
  obtain ⟨k, hboot, h⟩ := boot_spec rtosMap
  have hempty : k.delayedSendQueue.head = none := by rw [h.started.delayed]; rfl
  have hproper : ProperSend (.start k) crtPid.val firstBlock 2 := by
    refine ⟨⟨crtPid, h.started.created_iff.mpr (Or.inr (by decide)), by decide, rfl⟩, by decide, by decide, fun D hD => ?_⟩
    rw [hD.eq_nil_iff.mpr hempty]
    exact List.not_mem_nil
  obtain ⟨s, hs, hontime⟩ := delayed_messages_onTime h.timerReady hempty
    (show Runs.Meets Timing.step (fun s e => s.Proper e ∧ s.AtZero e) (.start k)
      [.delayedSend wcPid crtPid.val firstBlock 2, .iteration, .iteration] from
    ⟨⟨hproper, rfl⟩, fun _ _ => ⟨⟨trivial, trivial⟩, fun _ _ => ⟨⟨trivial, trivial⟩, fun _ _ => trivial⟩⟩⟩)
  exact ⟨k, s, hboot, hs, hontime⟩

/-- The timer process runs once before the first process sends with delay 2: the message is passed on in the first
    iteration after the call, not in the second. -/
theorem delayed_message_early :
    ∃ k s, boot rtosMap = .switched k ∧ TimerReady k ∧ k.delayedSendQueue.head = none ∧
      Runs.Meets Timing.step Timing.Proper (.start k)
        [.iteration, .delayedSend wcPid crtPid.val firstBlock 2, .iteration] ∧
      Runs.exec Timing.step (.start k)
        [.iteration, .delayedSend wcPid crtPid.val firstBlock 2, .iteration] = some s ∧
      ¬s.OnTime := by
  have hrun : ((boot rtosMap).kernel?.any fun k =>
      (Timing.step (.start k) .iteration).any fun s₁ =>
        decide (s₁.kernel.delayedSendQueue.head = none ∧ s₁.kernel.Created crtPid) &&
        (Runs.exec Timing.step s₁
          [.delayedSend wcPid crtPid.val firstBlock 2, .iteration]).any fun s =>
          decide (s.passed = [⟨2, crtPid.val, firstBlock⟩] ∧ s.iterations = 2 ∧
            s.accepted = [⟨firstBlock, crtPid.val, 2, 1⟩])) = true := by decide +kernel
  obtain ⟨k, hboot, h⟩ := boot_spec rtosMap
  have hempty : k.delayedSendQueue.head = none := by rw [h.started.delayed]; rfl
  rw [hboot, Outcome.kernel?_switched, Option.any_some] at hrun
  obtain ⟨s₁, hs₁, hrest⟩ := Option.any_eq_true _ _ |>.mp hrun
  obtain ⟨hstate, hrest⟩ := Bool.and_eq_true _ _ |>.mp hrest
  obtain ⟨s, hs, hall⟩ := Option.any_eq_true _ _ |>.mp hrest
  obtain ⟨hhead, hcrt⟩ := of_decide_eq_true hstate
  obtain ⟨hpassed, hiterations, haccepted⟩ := of_decide_eq_true hall
  have hproper : ProperSend s₁ crtPid.val firstBlock 2 := by
    refine ⟨⟨crtPid, hcrt, by decide, rfl⟩, by decide, by decide, fun D hD => ?_⟩
    rw [hD.eq_nil_iff.mpr hhead]
    exact List.not_mem_nil
  refine ⟨k, s, hboot, h.timerReady, hempty, ⟨trivial, fun t ht => ?_⟩, by rw [Runs.exec_cons, hs₁]; exact hs,
    fun hontime => ?_⟩
  · cases hs₁.symm.trans ht
    exact ⟨hproper, fun _ _ => ⟨trivial, fun _ _ => trivial⟩⟩
  · unfold Timing.OnTime at hontime
    rw [hpassed, hiterations, haccepted] at hontime
    exact absurd hontime.length_eq (by decide)

end
end DoorRtos
