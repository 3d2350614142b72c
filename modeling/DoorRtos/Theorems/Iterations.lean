import DoorRtos.Theorems.Boot
import DoorRtos.Theorems.Delayed
import DoorRtos.Theorems.Rescheduling
import DoorRtos.Timing

/-! One iteration of the timer process: it lets the counter tick, and passes on the messages that the tick takes off
    the delta list. -/

namespace DoorRtos
open Linked

/-- What the timer process needs to send: every process has its own mailbox and a priority with a subqueue, and
    the timer's own mailbox is empty. -/
structure TimerReady (k : Kernel) : Prop where
  table : k.TableOk
  timer : k.Created timerPid
  mailbox : ∀ p, k.Created p → (k.pcbs p).messQueue = some p
  priority : ∀ p, k.Created p → (k.pcbs p).priority ≤ numPrio
  idle : isMsgqEmpty (k.mQueues timerPid) = true

section
variable {k k' k₁ : Kernel} {d p : PcbRef} {e x : Addr} {n c : Nat}

theorem TimerReady.congr (h : TimerReady k) (hpid : ∀ p, (k'.pcbs p).pid = (k.pcbs p).pid)
    (hmq : ∀ p, (k'.pcbs p).messQueue = (k.pcbs p).messQueue) (hprio : ∀ p, (k'.pcbs p).priority = (k.pcbs p).priority)
    (hidle : k'.mQueues timerPid = k.mQueues timerPid) : TimerReady k' := by
  have hc : ∀ p, k'.Created p ↔ k.Created p := fun p => by unfold Kernel.Created; rw [hpid]
  refine ⟨fun p => ?_, (hc _).mpr h.timer, fun p hp => ?_, fun p hp => ?_, by rw [hidle]; exact h.idle⟩
  · rw [hc, hpid]
    exact h.table p
  · rw [hmq]
    exact h.mailbox p ((hc p).mp hp)
  · rw [hprio]
    exact h.priority p ((hc p).mp hp)

theorem TimerReady.getPcb (h : TimerReady k) (hp : k.Created p) : getPcb k p.val = some p := by
  have := getPcb_of_created h.table hp
  rwa [show (k.pcbs p).pid = p.val from hp] at this

theorem Booted.timerReady {img : Layout} (h : Booted img k) : TimerReady k where
  table := h.tableOk
  timer := h.started.created_iff.mpr (Or.inl (by decide))
  mailbox := h.mailbox
  priority p hc := by
    have hready : ∀ x ∈ readyProcesses, x.2 ≤ numPrio := by decide
    rcases h.started.created_iff.mp hc with hi | hp
    · rw [h.started.iProcess p hi]
      exact show Priority.low ≤ numPrio by decide
    · obtain ⟨x, hx, rfl⟩ := List.mem_map.mp hp
      rw [h.started.pcb x hx]
      exact hready x hx
  idle := by
    rw [h.started.mailbox timerPid (Or.inl (by decide))]
    rfl

/-! ### Sending by the timer process -/

/-- The timer process is running, as its interrupt handler leaves it. -/
structure InTimer (k : Kernel) : Prop extends TimerReady k where
  current : k.currentPcb = timerPid
  inIProcess : k.inIProcess = true

/-- A message may be passed on to `pid`: no process is found under it, or another process than the timer is. -/
def Sendable (k : Kernel) (pid : Nat) : Prop :=
  DoorRtos.getPcb k pid = none ∨ ∃ d, k.Created d ∧ d ≠ timerPid ∧ d.val = pid

theorem Sendable.congr {pid : Nat} (h : Sendable k pid) (hpid : ∀ p, (k'.pcbs p).pid = (k.pcbs p).pid) :
    Sendable k' pid := by
  rcases h with h | ⟨d, hd, hne⟩
  · exact Or.inl ((getPcb_congr hpid pid).trans h)
  · exact Or.inr ⟨d, (hpid d).trans hd, hne⟩

/-- What passing a message on leaves behind. -/
structure PassedOn (k : Kernel) (pid : Nat) (e : Addr) (k' : Kernel) : Prop where
  inTimer : InTimer k'
  delayed : k'.delayedSendQueue = k.delayedSendQueue
  messNext : ∀ x, x ≠ e → k'.messNext x = k.messNext x
  pids : ∀ p, (k'.pcbs p).pid = (k.pcbs p).pid
  delay : ∀ x, (k'.mess x).delay = (k.mess x).delay
  destPid : ∀ x, (k'.mess x).destPid = if x = e then pid else (k.mess x).destPid

theorem addressed_mess (pid : Nat) (e x : Addr) (n : Nat) :
    ((k.setMess e { k.mess e with senderPid := n, destPid := pid }).mess x).delay = (k.mess x).delay ∧
      ((k.setMess e { k.mess e with senderPid := n, destPid := pid }).mess x).destPid =
        if x = e then pid else (k.mess x).destPid := by
  rw [setMess_mess]
  by_cases hx : x = e
  · subst hx
    simp
  · simp [hx]

/-- A message to a process goes into its mailbox, and the timer process goes on. -/
theorem InTimer.deliver (h : InTimer k) (hd : k.Created d) (hne : d ≠ timerPid) (e : Addr) :
    ∃ k', kernelSendMessage d.val e k = .returned (rtxSuccess, k') ∧ PassedOn k d.val e k' := by
  have hget := h.getPcb hd
  have hmq := h.mailbox d hd
  have hmess := fun x => addressed_mess (k := k) d.val e x k.current.pid
  have hnext : ∀ x, x ≠ e → (k.delivered d.val e d).messNext x = k.messNext x := fun x hx => Queue.push_of_ne hx
  have hidle : (k.delivered d.val e d).mQueues timerPid = k.mQueues timerPid := Function.update_of_ne hne.symm _ _
  by_cases hst : (k.pcbs d).state = .messageWait
  · have hi : (((k.delivered d.val e d).setState d .ready).pcbs d).priority =
        (⟨(k.pcbs d).priority, Nat.lt_succ_of_le (h.priority d hd)⟩ : Level).val := by simp
    obtain ⟨k₁, hput⟩ : ∃ k₁, enqueuePCBByPriority .ready d ((k.delivered d.val e d).setState d .ready) = some k₁ :=
      ⟨_, enqueuePCBByPriority_eq hi⟩
    obtain ⟨-, next, q, rfl⟩ := enqueuePCBByPriority_inv hput
    have hsrc : DoorRtos.getPcb (((k.delivered d.val e d).setState d .ready).setQueue .ready next q) k.current.pid =
        some timerPid := by
      rw [getPcb_congr (k := k) fun p => by simp, Kernel.current, h.current]
      exact getPcb_of_created h.table h.timer
    have hstay : ¬((((k.delivered d.val e d).setState d .ready).setQueue .ready next q).inIProcess = false) := by
      simp [h.inIProcess]
    have hready : TimerReady (((k.delivered d.val e d).setState d .ready).setQueue .ready next q) :=
      h.toTimerReady.congr (fun _ => by simp) (fun _ => by simp) (fun _ => by simp) (by
        rw [Kernel.setQueue_mQueues]
        exact hidle)
    refine ⟨_, ?_, ⟨hready, by simp [h.current], by simp [h.inIProcess]⟩, ?_, ?_, fun p => by simp, fun x => ?_,
      fun x => ?_⟩
    · rw [kernelSendMessage_woken hget hmq hst hput hsrc, if_neg fun hand => hstay (Bool.eq_false_iff.mpr hand.2)]
    · simp only [Kernel.setQueue_delayedSendQueue]
      rfl
    · simp only [Kernel.setQueue_messNext]
      exact hnext
    · simp only [Kernel.setQueue_mess]
      exact (hmess x).1
    · simp only [Kernel.setQueue_mess]
      exact (hmess x).2
  · exact ⟨_, kernelSendMessage_deliver hget hmq hst,
      ⟨h.toTimerReady.congr (fun _ => rfl) (fun _ => rfl) (fun _ => rfl) hidle, h.current, h.inIProcess⟩, rfl, hnext,
      fun _ => rfl, fun x => (hmess x).1, fun x => (hmess x).2⟩

/-- A message to nobody is lost. -/
theorem InTimer.send {pid : Nat} (h : InTimer k) (hs : Sendable k pid) (e : Addr) :
    ∃ r k', kernelSendMessage pid e k = .returned (r, k') ∧ PassedOn k pid e k' := by
  rcases hs with hnone | ⟨d, hd, hne, rfl⟩
  · have hmess := fun x => addressed_mess (k := k) pid e x k.current.pid
    exact ⟨_, _, kernelSendMessage_unknown hnone,
      ⟨h.toTimerReady.congr (fun _ => rfl) (fun _ => rfl) (fun _ => rfl) rfl, h.current, h.inIProcess⟩, rfl,
      fun _ _ => rfl, fun _ => rfl, fun x => (hmess x).1, fun x => (hmess x).2⟩
  · obtain ⟨k', hsend, hpassed⟩ := h.deliver hd hne e
    exact ⟨_, k', hsend, hpassed⟩

/-! ### One iteration -/

/-- The envelopes of `D` are delayed, the next to be passed on first, and each may be passed on. -/
structure Pending (k : Kernel) (D : List Addr) : Prop where
  list : IsList k.messNext k.delayedSendQueue.head D
  dest : ∀ e ∈ D, Sendable k (k.mess e).destPid

/-- The messages of `D` with the processes that they are for. -/
def outgoing (k : Kernel) (D : List Addr) : List (Nat × Addr) := D.map fun e => ((k.mess e).destPid, e)

/-- What a round leaves behind once it has passed on what comes before `D`. -/
structure Remaining (k : Kernel) (D : List Addr) (k' : Kernel) : Prop where
  inTimer : InTimer k'
  pending : Pending k' D
  pids : ∀ p, (k'.pcbs p).pid = (k.pcbs p).pid
  delay : ∀ x, (k'.mess x).delay = (k.mess x).delay
  destPid : ∀ x, (k'.mess x).destPid = (k.mess x).destPid

/-- The second loop of a round passes on the messages that a delta list would let expire. -/
theorem timerExpire_spec {D : List Addr} (h : InTimer k) (hD : Pending k D) (hn : D.length < n) (c : Nat) :
    ∃ D₁ D₂ k', D = D₁ ++ D₂ ∧ (Delta.expire c (entries k D)).1 = D₁ ∧
      (Delta.expire c (entries k D)).2.2 = entries k D₂ ∧
      timerExpire n c k = .returned ((Delta.expire c (entries k D)).2.1, outgoing k D₁, k') ∧ Remaining k D₂ k' := by
  induction D generalizing n k c with
  | nil =>
    obtain ⟨n, rfl⟩ := Nat.exists_eq_succ_of_ne_zero (Nat.ne_of_gt hn)
    have hhead : k.delayedSendQueue.head = none := hD.list
    refine ⟨[], [], k, rfl, rfl, rfl, ?_, h, hD, fun _ => rfl, fun _ => rfl, fun _ => rfl⟩
    unfold timerExpire
    rw [hhead]
    rfl
  | cons e D ih =>
    obtain ⟨n, rfl⟩ := Nat.exists_eq_succ_of_ne_zero (Nat.ne_of_gt (Nat.zero_lt_of_lt hn))
    have hhead : k.delayedSendQueue.head = some e := hD.list.1
    by_cases hc : (k.mess e).delay = c
    · -- The first message is due: it is taken out and sent, and the counter restarts.
      have he : e ∉ D := (List.nodup_cons.mp hD.list.nodup).1
      have hpop : InTimer { k with delayedSendQueue := ⟨k.messNext e, k.delayedSendQueue.tail⟩ } :=
        ⟨h.toTimerReady.congr (fun _ => rfl) (fun _ => rfl) (fun _ => rfl) rfl, h.current, h.inIProcess⟩
      obtain ⟨r, k₂, hs, h₂⟩ := hpop.send (hD.dest e List.mem_cons_self) e
      have hdest₂ : ∀ x, (k₂.mess x).destPid = (k.mess x).destPid := fun x => by
        rw [h₂.destPid x]
        split
        next hx => rw [hx]
        next => rfl
      have hD₂ : Pending k₂ D := by
        refine ⟨?_, fun y hy => ?_⟩
        · rw [h₂.delayed]
          exact hD.list.2.congr fun x hx => h₂.messNext x fun hxe => he (hxe ▸ hx)
        · rw [hdest₂]
          exact (hD.dest y (List.mem_cons_of_mem e hy)).congr h₂.pids
      have hentries : ∀ l, entries k₂ l = entries k l := fun l => entries_congr fun x _ => h₂.delay x
      obtain ⟨D₁, D₂, k', hsplit, hout, hrest, hrun, hrem⟩ := ih h₂.inTimer hD₂ (Nat.lt_of_succ_lt_succ hn) 0
      rw [hentries] at hout hrest hrun
      rw [hentries] at hrest
      have hexpire : Delta.expire c (entries k (e :: D)) =
          (e :: (Delta.expire 0 (entries k D)).1, (Delta.expire 0 (entries k D)).2) := if_pos hc
      have hpassed : outgoing k₂ D₁ = outgoing k D₁ := List.map_congr_left fun x _ => by rw [hdest₂]
      refine ⟨e :: D₁, D₂, k', by rw [hsplit]; rfl, by rw [hexpire, hout], by rw [hexpire, hrest], ?_,
        hrem.inTimer, hrem.pending, fun p => (hrem.pids p).trans (h₂.pids p), fun x => (hrem.delay x).trans (h₂.delay x),
        fun x => (hrem.destPid x).trans (hdest₂ x)⟩
      unfold timerExpire
      rw [hhead, hexpire]
      simp only [if_pos hc, dequeueMessageLIFO, Queue.pop, hhead]
      rw [hs]
      simp only [Outcome.returned_bind, hrun]
      rw [hpassed]
      rfl
    · have hexpire : Delta.expire c (entries k (e :: D)) = ([], c, entries k (e :: D)) := if_neg hc
      refine ⟨[], e :: D, k, rfl, by rw [hexpire], by rw [hexpire], ?_, h, hD, fun _ => rfl, fun _ => rfl, fun _ => rfl⟩
      unfold timerExpire
      rw [hhead, hexpire]
      simp only [if_neg hc]
      rfl

theorem timerMailbox_idle (h : InTimer k) : timerMailbox (n + 1) k = .returned { k with msgReturn := false } := by
  have hmq : k.current.messQueue = some timerPid := by
    unfold Kernel.current
    rw [h.current]
    exact h.mailbox _ h.timer
  unfold timerMailbox
  rw [kernelReceiveMessage_idle hmq h.idle h.inIProcess]
  rfl

/-- A round with an empty mailbox is a tick of the counter. -/
theorem timerRound_eq {D : List Addr} (h : InTimer k) (hD : IsList k.messNext k.delayedSendQueue.head D) :
    timerRound c k =
      timerExpire addressSpace (Delta.restart ((c + 1) % 2 ^ 32) (entries k D)) { k with msgReturn := false } := by
  unfold timerRound
  rw [show addressSpace = (addressSpace - 1) + 1 from rfl, timerMailbox_idle h]
  simp only [Outcome.returned_bind]
  cases D with
  | nil =>
    have hhead : k.delayedSendQueue.head = none := hD
    simp only [hhead]
    rfl
  | cons e D =>
    have hhead : k.delayedSendQueue.head = some e := hD.1
    simp only [hhead]
    rfl

/-- An iteration is a tick, and passes on what the tick takes off. -/
theorem Timing.iteration_spec {s : Timing} {D : List Addr} (h : TimerReady s.kernel) (hD : Pending s.kernel D) :
    ∃ D₁ D₂ k', D = D₁ ++ D₂ ∧ (Delta.tick (2 ^ 32) s.timerCount (entries s.kernel D)).1 = D₁ ∧
      (Delta.tick (2 ^ 32) s.timerCount (entries s.kernel D)).2.2 = entries s.kernel D₂ ∧
      s.step .iteration = some { s with
        kernel := k'
        timerCount := (Delta.tick (2 ^ 32) s.timerCount (entries s.kernel D)).2.1
        iterations := s.iterations + 1
        passed := s.passed ++ D₁.map fun e => ⟨s.iterations + 1, (s.kernel.mess e).destPid, e⟩ } ∧
      Remaining s.kernel D₂ k' := by
  have hin : InTimer { s.kernel with currentPcb := timerPid, inIProcess := true } :=
    ⟨h.congr (fun _ => rfl) (fun _ => rfl) (fun _ => rfl) rfl, rfl, rfl⟩
  obtain ⟨D₁, D₂, k', hsplit, hout, hrest, hrun, hrem⟩ :=
    timerExpire_spec (k := { s.kernel with currentPcb := timerPid, inIProcess := true, msgReturn := false })
      ⟨hin.toTimerReady.congr (fun _ => rfl) (fun _ => rfl) (fun _ => rfl) rfl, rfl, rfl⟩ ⟨hD.list, hD.dest⟩
      (Addr.length_lt hD.list.nodup) (Delta.restart ((s.timerCount + 1) % 2 ^ 32) (entries s.kernel D))
  have hround : timerRound s.timerCount { s.kernel with currentPcb := timerPid, inIProcess := true } =
      .returned ((Delta.tick (2 ^ 32) s.timerCount (entries s.kernel D)).2.1, outgoing s.kernel D₁, k') :=
    (timerRound_eq hin hD.list).trans hrun
  refine ⟨D₁, D₂, k', hsplit, hout, hrest, ?_, ⟨hrem.inTimer, hrem.pending, hrem.pids, hrem.delay, hrem.destPid⟩⟩
  simp only [Timing.step]
  rw [hround]
  simp only [outgoing, List.map_map]
  rfl

/-- A call with a positive delay links its envelope where a delta list would take it. -/
theorem Timing.send_spec {s : Timing} {D : List Addr} (caller : PcbRef) (pid : Nat) {delay : Int} (hpos : 0 < delay)
    (hD : IsList s.kernel.messNext s.kernel.delayedSendQueue.head D) (he : e ∉ D) :
    ∃ a b k', D = a ++ b ∧
      s.step (.delayedSend caller pid e delay) = some { s with
        kernel := k'
        accepted := s.accepted ++ [⟨e, pid, delay.toNat, s.iterations⟩] } ∧
      Inserted s.kernel pid e a b k' ∧
      (Delta.seek delay.toNat (entries s.kernel D)).2.1 = entries s.kernel a ∧
      ((∀ x ∈ entries s.kernel D, x.2 < 2 ^ 32) →
        entries k' (a ++ e :: b) = Delta.insert e delay.toNat (entries s.kernel D)) := by
  obtain ⟨a, b, k', hsplit, hsend, hins, hbefore, -, hinsert⟩ := kernelDelayedSend_inserted
    (k := { s.kernel with currentPcb := caller, inIProcess := false }) pid hpos hD he
  refine ⟨a, b, k', hsplit, ?_, ⟨hins.list, hins.messNext, hins.destPid, hins.pcbs, hins.mQueues, hins.freeMemQ,
    hins.blockNext⟩, hbefore, hinsert⟩
  simp only [Timing.step]
  rw [hsend]
  exact if_pos rfl

theorem TimerReady.inserted {a b : List Addr} {pid : Nat} (h : TimerReady k) (hins : Inserted k pid e a b k') :
    TimerReady k' :=
  h.congr (fun p => by rw [hins.pcbs]) (fun p => by rw [hins.pcbs]) (fun p => by rw [hins.pcbs])
    (congrArg (· timerPid) hins.mQueues)

end
end DoorRtos
