import DoorRtos.Theorems.ClockMessages

/-! A clock whose messages are the only delayed ones keeps time: it does not matter when it gets round to a message. -/

namespace DoorRtos
open Interaction

namespace Ticker

/-- The iteration in which a message with a delay of 100 is passed on when it is the only one. Where the counter has run
    past the delay, it starts over first. -/
def firstPass (t : Ticker) : Nat := t.iterations + if t.timerCount < 100 then 100 - t.timerCount else 101

/-- Other processes delay no messages, the clock is not set or stopped, and a message that has been passed on is handled
    before 100 iterations are over. -/
def Undisturbed (t : Ticker) : TickerEvent → Prop
  | .command env => ¬(env.Asks 'S' ∧ env.IsTime) ∧ ¬env.Asks 'T'
  | .timerMessage _ => True
  | .other _ => False
  | .iteration => t.mailbox = [] ∨ t.timerCount + 1 < 100

/-- The clock has advanced `k` times since it showed `start`, the first time for the message passed on in iteration `first`
    and then for one every 100 iterations. -/
structure Steady (first start k : Nat) (earlier : List Nat) (t : Ticker) : Prop where
  on : t.clock.wallClockOn = true
  range : t.clock.InRange
  shows : t.clock.seconds = (start + k) % 86400
  advances : t.advances.map Prod.fst = earlier ++ (List.range k).map fun i => first + 100 * i
  past : ∀ i < k, first + 100 * i ≤ t.iterations
  next : t.mailbox = [] ∧ t.delta = [(true, 100)] ∧ t.timerCount < 2 ^ 32 ∧ t.firstPass = first + 100 * k ∨
    t.mailbox = [first + 100 * k] ∧ t.delta = [] ∧ t.timerCount < 100 ∧ t.iterations = first + 100 * k + t.timerCount

section
variable {t t' : Ticker} {e : TickerEvent} {env : Envelope} {first start k : Nat} {earlier : List Nat}

/-! ### One step -/

/-- A command that neither sets nor stops the clock changes nothing. -/
theorem handle_command (hkcd : env.senderPid = kcdPid.val) (hset : ¬(env.Asks 'S' ∧ env.IsTime)) (hstop : ¬env.Asks 'T') :
    t.handle env = t := by
  obtain ⟨s, ds, ts, hreact, he⟩ := t.handle_eq env
  rw [he]
  cases hreact with
  | set hasks htime => exact absurd ⟨hasks, htime⟩ hset
  | stopped hasks => exact absurd hasks hstop
  | advanced htimer => exact absurd (hkcd.symm.trans htimer) (by decide)
  | refused | shown | ignored => rfl

/-- A message of the timer process makes a running clock advance and send another one. -/
theorem handle_timer (htimer : env.senderPid = timerPid.val) (hon : t.clock.wallClockOn = true) :
    t.handle env =
      { t with clock := t.clock.increment, delta := Delta.insert true 100 t.delta, ahead := t.lead env } := by
  have hkcd : ∀ c, ¬env.Asks c := fun c hasks => absurd (hasks.1.symm.trans htimer) (by decide)
  obtain ⟨s, ds, ts, hreact, he⟩ := t.handle_eq env
  rw [he]
  cases hreact with
  | set hasks | refused hasks | shown hasks | stopped hasks => exact absurd hasks (hkcd _)
  | advanced => rfl
  | ignored _ hoff => exact absurd ⟨htimer, hon⟩ hoff

/-- A set command that is accepted starts the clock and sends its first message. -/
theorem handle_set (hset : env.Asks 'S') (htime : env.IsTime) :
    t.handle env = { t with
      clock := ⟨env.inHour, env.inMin, env.inSec, true⟩
      delta := Delta.insert true 100 t.delta
      ahead := t.lead env } := by
  obtain ⟨s, ds, ts, hreact, he⟩ := t.handle_eq env
  rw [he]
  cases hreact with
  | set => rfl
  | refused _ hno => exact absurd htime hno
  | shown hshow => exact absurd (hset.2.symm.trans hshow.2) (by decide)
  | stopped hstop => exact absurd (hset.2.symm.trans hstop.2) (by decide)
  | advanced htimer => exact absurd (hset.1.symm.trans htimer) (by decide)
  | ignored hno => exact absurd hset hno

/-! ### Every step -/

theorem Steady.command (h : t.Steady first start k earlier) (hkcd : env.senderPid = kcdPid.val)
    (hcalm : t.Undisturbed (.command env)) : (t.handle env).Steady first start k earlier := by
  rw [handle_command hkcd hcalm.1 hcalm.2]
  exact h

/-- The next message goes into the list when the counter has already run for as long as this one has waited. -/
theorem Steady.timerMessage {p : Nat} {rest : List Nat} (h : t.Steady first start k earlier)
    (hmailbox : t.mailbox = p :: rest) (htimer : env.senderPid = timerPid.val) :
    Steady first start (k + 1) earlier { ({ t with mailbox := rest }).handle env with
      advances := if t.clock.wallClockOn then t.advances ++ [(p, t.iterations)] else t.advances } := by
  obtain ⟨hon, hrange, hshows, hadvances, hpast, ⟨hnil, -⟩ | ⟨hone, hdelta, hcount, hiterations⟩⟩ := h
  · cases hmailbox.symm.trans hnil
  obtain ⟨rfl, rfl⟩ := List.cons.inj (hmailbox.symm.trans hone)
  have hhandle : ({ t with mailbox := [] }).handle env = _ := handle_timer htimer hon
  rw [hhandle, if_pos hon]
  obtain ⟨hrange', hseconds⟩ := hrange.increment
  refine ⟨(increment_wallClockOn t.clock).trans hon, hrange', ?_, ?_, ?_, Or.inl ⟨rfl, ?_, by dsimp only; omega, ?_⟩⟩
  · dsimp only
    omega
  · dsimp only
    rw [List.map_append, hadvances, List.range_succ, List.map_append, List.append_assoc]
    rfl
  · intro i hi
    dsimp only
    omega
  · dsimp only
    rw [hdelta]
    rfl
  · unfold firstPass
    dsimp only
    rw [if_pos hcount]
    omega

theorem Steady.iteration (h : t.Steady first start k earlier) (hcalm : t.Undisturbed .iteration)
    (hs : t.step .iteration = some t') : t'.Steady first start k earlier := by
  obtain ⟨hon, hrange, hshows, hadvances, hpast, hnext⟩ := h
  have hlater : ∀ i < k, first + 100 * i ≤ t.iterations + 1 := fun i hi => Nat.le_succ_of_le (hpast i hi)
  unfold step at hs
  rcases hnext with ⟨hmailbox, hdelta, hcount, hfirst⟩ | ⟨hmailbox, hdelta, hcount, hiterations⟩
  · unfold firstPass at hfirst
    rw [hdelta, tick_only hcount] at hs
    by_cases hdue : t.timerCount + 1 = 100
    · rw [if_pos hdue] at hs
      rw [if_pos (by omega)] at hfirst
      cases hs
      refine ⟨hon, hrange, hshows, hadvances, hlater, Or.inr ⟨?_, rfl, Nat.zero_lt_succ 99, by dsimp only; omega⟩⟩
      dsimp only
      rw [hmailbox]
      show [t.iterations + 1] = _
      rw [show t.iterations + 1 = first + 100 * k by omega]
    · rw [if_neg hdue] at hs
      cases hs
      refine ⟨hon, hrange, hshows, hadvances, hlater, Or.inl ⟨?_, rfl, ?_, ?_⟩⟩
      · dsimp only
        rw [hmailbox]
        rfl
      · dsimp only
        split <;> omega
      · unfold firstPass
        dsimp only
        by_cases hlt : t.timerCount < 100
        · rw [if_pos hlt] at hfirst
          rw [if_pos hlt, if_pos (by omega)]
          omega
        · rw [if_neg hlt] at hfirst
          rw [if_neg hlt, if_pos (by decide)]
          omega
  · have hsoon : t.timerCount + 1 < 100 := by
      rcases hcalm with hnil | hsoon
      · cases hmailbox.symm.trans hnil
      · exact hsoon
    rw [hdelta, tick_nil (by omega)] at hs
    cases hs
    refine ⟨hon, hrange, hshows, hadvances, hlater, Or.inr ⟨?_, rfl, hsoon, by dsimp only; omega⟩⟩
    dsimp only
    rw [hmailbox]
    rfl

theorem Steady.step (h : t.Steady first start k earlier) (hcalm : t.Undisturbed e) (hs : t.step e = some t') :
    ∃ k', t'.Steady first start k' earlier := by
  cases e with
  | command env =>
    obtain ⟨hkcd, hs⟩ := Option.ite_none_right_eq_some.mp hs
    cases hs
    exact ⟨k, h.command hkcd hcalm⟩
  | timerMessage env =>
    obtain ⟨p, rest, hmailbox, htimer, rfl⟩ := step_timerMessage hs
    exact ⟨k + 1, h.timerMessage hmailbox htimer⟩
  | other delay => cases hcalm
  | iteration => exact ⟨k, h.iteration hcalm hs⟩

theorem steady_of_set (hdelta : t.delta = []) (hmailbox : t.mailbox = []) (hcount : t.timerCount < 2 ^ 32)
    (hset : env.Asks 'S') (htime : env.IsTime) (hsec : env.inSec < 60) :
    (t.handle env).Steady t.firstPass (3600 * env.inHour + 60 * env.inMin + env.inSec).toNat 0
      (t.advances.map Prod.fst) := by
  rw [handle_set hset htime]
  refine ⟨rfl, ⟨htime.1, htime.2.1, htime.2.2.1, hsec⟩, ?_, (List.append_nil _).symm,
    fun i hi => absurd hi (Nat.not_lt_zero i), Or.inl ⟨hmailbox, ?_, hcount, rfl⟩⟩
  · obtain ⟨⟨hh, hh'⟩, ⟨hm, hm'⟩, hs, -⟩ := htime
    unfold Clock.seconds
    dsimp only
    omega
  · dsimp only
    rw [hdelta]
    rfl

end

/-- A clock that is set to less than 60 seconds when no message is delayed and none waits, and left alone after that,
    advances first in one of the next 101 iterations and from then on for one every 100 iterations, wherever in between it
    handles its messages. -/
theorem keeps_time {t₀ t : Ticker} {env : Envelope} {events : List TickerEvent} (hdelta : t₀.delta = [])
    (hmailbox : t₀.mailbox = []) (hcount : t₀.timerCount < 2 ^ 32) (hset : env.Asks 'S') (htime : env.IsTime)
    (hsec : env.inSec < 60) (hcalm : Runs.Along step Undisturbed (t₀.handle env) events)
    (ht : Runs.exec step t₀ (.command env :: events) = some t) :
    ∃ k, t.clock.seconds = ((3600 * env.inHour + 60 * env.inMin + env.inSec).toNat + k) % 86400 ∧
      t.advances.map Prod.fst = t₀.advances.map Prod.fst ++ ((List.range k).map fun i => t₀.firstPass + 100 * i) ∧
      (∀ i < k, t₀.firstPass + 100 * i ≤ t.iterations) ∧ t.iterations < t₀.firstPass + 100 * (k + 1) ∧
      (t.mailbox = [] → t.iterations < t₀.firstPass + 100 * k) := by
  obtain ⟨u, hu, ht⟩ := Option.bind_eq_some_iff.mp ht
  obtain ⟨-, hu⟩ := Option.ite_none_right_eq_some.mp hu
  cases hu
  have hfirst := steady_of_set hdelta hmailbox hcount hset htime hsec
  obtain ⟨k, hsteady⟩ := Runs.exec_invariant (I := fun t => ∃ k, Steady t₀.firstPass _ k (t₀.advances.map Prod.fst) t)
    (fun s e s' hk hcalm hs => hk.elim fun k h => h.step hcalm hs) ⟨0, hfirst⟩ hcalm ht
  refine ⟨k, hsteady.shows, hsteady.advances, hsteady.past, ?_, ?_⟩
  · rcases hsteady.next with ⟨-, -, -, hnext⟩ | ⟨-, -, hcount, hiterations⟩
    · unfold firstPass at hnext ⊢
      split at hnext <;> omega
    · omega
  · intro hnil
    rcases hsteady.next with ⟨-, -, -, hnext⟩ | ⟨hone, -⟩
    · rw [← hnext]
      unfold firstPass
      split <;> omega
    · cases hnil.symm.trans hone

/-- The clock is set after 99 iterations, and advances after the next one. -/
theorem keeps_time_early :
    let t₀ : Ticker := { start with timerCount := 99, iterations := 99 }
    let env := setCommand firstBlock [50, 51, 58, 53, 57, 58, 53, 57]
    let events := [TickerEvent.iteration, .timerMessage (timerMessage firstBlock)]
    ∃ t k, Runs.exec step t₀ (.command env :: events) = some t ∧ t.clock.seconds = (86399 + k) % 86400 ∧
      t.advances.map Prod.fst = (List.range k).map (fun i => 100 + 100 * i) ∧ t.iterations < 100 + 100 * (k + 1) := by
  intro t₀ env events
  obtain ⟨t, ht⟩ := Option.isSome_iff_exists.mp (by decide : (Runs.exec step t₀ (.command env :: events)).isSome = true)
  have hcalm : Runs.Along step Undisturbed (t₀.handle env) events := fun _ _ => ⟨Or.inl rfl, fun _ _ => ⟨trivial, trivial⟩⟩
  obtain ⟨k, hseconds, hadvances, -, hlast, -⟩ :=
    @keeps_time t₀ t env events rfl rfl (by decide) (by decide) (by decide) (by decide) hcalm ht
  have hstart : (3600 * env.inHour + 60 * env.inMin + env.inSec).toNat = 86399 := by decide
  rw [hstart] at hseconds
  exact ⟨t, k, ht, hseconds, hadvances, hlast⟩

end Ticker
end DoorRtos
