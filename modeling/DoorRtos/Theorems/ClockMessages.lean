import DoorRtos.Runs
import DoorRtos.Theorems.ClockTime

/-! The delayed messages of the wall clock process to itself. Stopping the clock cancels none, and every set command that
    is accepted sends one more. -/

namespace DoorRtos
open Interaction

namespace Ticker

/-- At most one message is outstanding, and the clock has advanced in iterations that are at least 100 apart. -/
def Single (t : Ticker) : Prop := t.outstanding ≤ 1 ∧ t.advances.Pairwise fun a b => a.2 + 100 ≤ b.2

/-- No set command is accepted while a message is outstanding, and when the clock is to advance, the message has waited for
    at least as many iterations as `timer_count` had run ahead when it was sent: by so many it has been passed on early. -/
def Waits (t : Ticker) : TickerEvent → Prop
  | .command env => env.Asks 'S' → env.IsTime → t.outstanding = 0
  | .timerMessage _ => t.clock.wallClockOn = true → ∀ p ∈ t.mailbox.head?, p + t.ahead ≤ t.iterations
  | _ => True

instance (t : Ticker) (e : TickerEvent) : Decidable (t.Waits e) := by
  cases e <;> unfold Waits <;> infer_instance

/-- The message makes the process send itself another one. -/
def Sends (t : Ticker) (env : Envelope) : Prop :=
  env.Asks 'S' ∧ env.IsTime ∨ env.senderPid = timerPid.val ∧ t.clock.wallClockOn = true

/-- What keeps the advances apart, with times in iterations. A message that is sent while `timer_count` is below 100 comes
    as much too early as it has run; where it has run further, the next iteration starts it over. -/
structure Paced (t : Ticker) : Prop where
  single : t.Single
  elapsed : t.timerCount ≤ t.iterations
  count : t.timerCount < 2 ^ 32
  handled : ∀ a ∈ t.advances, a.2 ≤ t.iterations
  settled : (t.delta.map Prod.fst).count true = 0 → ∀ a ∈ t.advances, a.2 + t.timerCount ≤ t.iterations
  delta : ∀ x ∈ Delta.times (t.iterations - t.timerCount) t.delta, x.1 = true →
    (∀ a ∈ t.advances, a.2 + 100 ≤ x.2 + t.ahead) ∨ x.2 = t.iterations - t.timerCount + 100 ∧ x.2 ≤ t.iterations
  mailbox : ∀ p ∈ t.mailbox, p ≤ t.iterations ∧ ∀ a ∈ t.advances, a.2 + 100 ≤ p + t.ahead

section
variable {t t' : Ticker} {e : TickerEvent} {env : Envelope}

theorem count_pos_of_mem {x : Bool × Nat} {base : Nat} (hx : x ∈ Delta.times base t.delta) (htrue : x.1 = true) :
    0 < (t.delta.map Prod.fst).count true := by
  rw [← Delta.times_fst base]
  exact List.count_pos_iff.mpr (htrue ▸ List.mem_map_of_mem hx)

theorem handle_eq (t : Ticker) (env : Envelope) : ∃ s ds ts, Reaction t.clock env s ds ts ∧
    t.handle env = { t with
      clock := s
      delta := ds.foldl (fun l delay => Delta.insert true delay.toNat l) t.delta
      ahead := if ds = [] then t.ahead else t.lead env } := by
  obtain ⟨ds, ts, hreact, heff⟩ := clockHandle_reaction t.clock env _ _ (Prog.does_answered clockReply _ ())
  refine ⟨_, ds, ts, hreact, ?_⟩
  unfold handle
  dsimp only
  rw [heff.delays]

theorem handle_cases (t : Ticker) (env : Envelope) :
    t.Sends env ∧ (∃ s, t.handle env =
        { t with clock := s, delta := Delta.insert true 100 t.delta, ahead := t.lead env }) ∨
      ¬t.Sends env ∧ ∃ s, t.handle env = { t with clock := s } := by
  obtain ⟨s, ds, ts, hreact, he⟩ := t.handle_eq env
  have hkcd : ∀ c, env.Asks c → env.senderPid ≠ timerPid.val := fun c hasks htimer =>
    absurd (hasks.1.symm.trans htimer) (by decide)
  have hletter : ∀ c, env.Asks c → c.toNat ≠ 'S'.toNat → ¬env.Asks 'S' := fun c hc hne hasks =>
    hne (hc.2.symm.trans hasks.2)
  cases hreact with
  | set hasks htime => exact Or.inl ⟨Or.inl ⟨hasks, htime⟩, _, he⟩
  | refused hasks htime => exact Or.inr ⟨fun h => h.elim (fun h => htime h.2) fun h => hkcd 'S' hasks h.1, _, he⟩
  | shown hasks =>
    exact Or.inr ⟨fun h => h.elim (fun h => hletter 'C' hasks (by decide) h.1) fun h => hkcd 'C' hasks h.1, _, he⟩
  | stopped hasks =>
    exact Or.inr ⟨fun h => h.elim (fun h => hletter 'T' hasks (by decide) h.1) fun h => hkcd 'T' hasks h.1, _, he⟩
  | advanced htimer hon => exact Or.inl ⟨Or.inr ⟨htimer, hon⟩, _, he⟩
  | ignored hasks hoff => exact Or.inr ⟨fun h => h.elim (fun h => hasks h.1) hoff, _, he⟩

theorem lead_of_ne (h : env.senderPid ≠ timerPid.val) : t.lead env = 0 := if_neg fun h' => h h'.1

theorem lead_of_lt (h : env.senderPid = timerPid.val) (hlt : t.timerCount < 100) : t.lead env = t.timerCount :=
  if_pos ⟨h, hlt⟩

theorem outstanding_insert (b : Bool) (d : Nat) (t : Ticker) :
    ((Delta.insert b d t.delta).map Prod.fst).count true + t.mailbox.length = t.outstanding + [b].count true := by
  unfold outstanding
  rw [Delta.count_insert, Nat.add_right_comm]

/-- When nothing is outstanding, the process sends itself a message, after it has advanced or not. -/
theorem paced_insert {advances : List (Nat × Nat)} {n : Nat} (s : Clock) (hnone : t.outstanding = 0)
    (helapsed : t.timerCount ≤ t.iterations) (hcount : t.timerCount < 2 ^ 32)
    (hspaced : advances.Pairwise fun a b => a.2 + 100 ≤ b.2) (hhandled : ∀ a ∈ advances, a.2 ≤ t.iterations)
    (hn : (∀ a ∈ advances, a.2 + t.timerCount ≤ t.iterations + n) ∨ 100 ≤ t.timerCount) :
    Paced { t with clock := s, delta := Delta.insert true 100 t.delta, advances := advances, ahead := n } := by
  obtain ⟨hold, hempty⟩ := Nat.add_eq_zero_iff.mp hnone
  have hone := outstanding_insert true 100 t
  rw [hnone] at hone
  refine ⟨⟨Nat.le_of_eq hone, hspaced⟩, helapsed, hcount, hhandled, fun hno => ?_, fun x hx htrue => ?_, fun p hp => ?_⟩
  · rw [show ((Delta.insert true 100 t.delta).map Prod.fst).count true = 0 from hno, hempty] at hone
    exact absurd hone (by decide)
  · rcases Delta.mem_times_insert hx with rfl | hx
    · refine hn.imp (fun hn a ha => ?_) fun hn => ⟨rfl, ?_⟩
      · have := hn a ha
        dsimp only
        omega
      · dsimp only
        omega
    · exact absurd hold (Nat.ne_of_gt (count_pos_of_mem hx htrue))
  · rw [List.eq_nil_of_length_eq_zero hempty] at hp
    exact (List.not_mem_nil hp).elim

theorem Paced.command (h : t.Paced) (hkcd : env.senderPid = kcdPid.val) (hwaits : t.Waits (.command env)) :
    (t.handle env).Paced := by
  have hne : env.senderPid ≠ timerPid.val := fun htimer => absurd (hkcd.symm.trans htimer) (by decide)
  rcases t.handle_cases env with ⟨hset | htimer, s, he⟩ | ⟨-, s, he⟩
  · have hnone := hwaits hset.1 hset.2
    rw [he, lead_of_ne hne]
    exact paced_insert s hnone h.elapsed h.count h.single.2 h.handled (Or.inl (h.settled (Nat.add_eq_zero_iff.mp hnone).1))
  · exact absurd htimer.1 hne
  · rw [he]
    exact ⟨h.single, h.elapsed, h.count, h.handled, h.settled, h.delta, h.mailbox⟩

/-- The message that is received was the only one, and it is followed by another one or by none. -/
theorem Paced.timerMessage {p : Nat} {rest : List Nat} (h : t.Paced) (hmailbox : t.mailbox = p :: rest)
    (htimer : env.senderPid = timerPid.val) (hwaits : t.Waits (.timerMessage env)) :
    Paced { ({ t with mailbox := rest }).handle env with
      advances := if t.clock.wallClockOn then t.advances ++ [(p, t.iterations)] else t.advances } := by
  have hone := h.single.1
  unfold outstanding at hone
  rw [hmailbox, List.length_cons] at hone
  obtain rfl : rest = [] := List.eq_nil_of_length_eq_zero (by omega)
  have hcount : (t.delta.map Prod.fst).count true = 0 := by omega
  have hnone : outstanding { t with mailbox := [] } = 0 := hcount
  obtain ⟨hp, hspaced⟩ := h.mailbox p (hmailbox ▸ List.mem_cons_self)
  have hkcd : ∀ c, ¬env.Asks c := fun c hasks => absurd (hasks.1.symm.trans htimer) (by decide)
  rcases ({ t with mailbox := [] }).handle_cases env with ⟨hset | ⟨-, hon⟩, s, he⟩ | ⟨hno, s, he⟩
  · exact absurd hset.1 (hkcd 'S')
  · have hon : t.clock.wallClockOn = true := hon
    have hlate : p + t.ahead ≤ t.iterations := hwaits hon p (by rw [hmailbox]; rfl)
    rw [he, if_pos hon]
    have hhandled : ∀ a ∈ t.advances ++ [(p, t.iterations)], a.2 ≤ t.iterations := fun a ha => by
      rcases List.mem_append.mp ha with ha | ha
      · exact h.handled a ha
      · rw [List.mem_singleton.mp ha]
    refine paced_insert (t := { t with mailbox := [] }) s hnone h.elapsed h.count ?_ hhandled ?_
    · exact List.pairwise_append.mpr ⟨h.single.2, List.pairwise_singleton _ _, fun a ha b hb => by
        rw [List.mem_singleton.mp hb]
        exact Nat.le_trans (hspaced a ha) hlate⟩
    · by_cases hlt : t.timerCount < 100
      · rw [lead_of_lt htimer (show ({ t with mailbox := [] } : Ticker).timerCount < 100 from hlt)]
        exact Or.inl fun a ha => Nat.add_le_add_right (hhandled a ha) _
      · exact Or.inr (Nat.le_of_not_lt hlt)
  · have hon : ¬t.clock.wallClockOn = true := fun hon => hno (Or.inr ⟨htimer, hon⟩)
    rw [he, if_neg hon]
    exact ⟨⟨Nat.le_trans (Nat.le_of_eq hnone) (Nat.zero_le 1), h.single.2⟩, h.elapsed, h.count, h.handled,
      h.settled, h.delta, fun q hq => (List.not_mem_nil hq).elim⟩

/-- The messages of other processes leave the times of those in the list alone. -/
theorem Paced.other (h : t.Paced) (d : Nat) : Paced { t with delta := Delta.insert false d t.delta } := by
  have hsame := outstanding_insert false d t
  have hcount : ((Delta.insert false d t.delta).map Prod.fst).count true = (t.delta.map Prod.fst).count true := by
    unfold outstanding at hsame
    have : [false].count true = 0 := rfl
    omega
  refine ⟨⟨?_, h.single.2⟩, h.elapsed, h.count, h.handled, fun hno => h.settled (hcount.symm.trans hno),
    fun x hx htrue => ?_, h.mailbox⟩
  · exact Nat.le_trans (Nat.le_of_eq hsame) h.single.1
  · rcases Delta.mem_times_insert hx with rfl | hx
    · cases htrue
    · exact h.delta x hx htrue

theorem length_filter_id (l : List Bool) : (l.filter id).length = l.count true := by
  rw [← List.countP_eq_length_filter]
  exact List.countP_congr fun b _ => by cases b <;> decide

/-- Every message keeps its time until it is passed on at that time, unless the counter starts over. -/
theorem Paced.iteration (h : t.Paced) (hs : t.step .iteration = some t') : t'.Paced := by
  unfold step at hs
  dsimp only at hs
  obtain ⟨base', base₁, hbase', hbase₁, htimes, hle, hover, hrestart⟩ :=
    Delta.times_tick (2 ^ 32) (Nat.sub_add_cancel h.elapsed) t.delta
  have hfst := Delta.tick_fst (2 ^ 32) t.timerCount t.delta
  have hlt : (Delta.tick (2 ^ 32) t.timerCount t.delta).2.1 < 2 ^ 32 := Delta.tick_count_lt (by decide)
  generalize Delta.tick (2 ^ 32) t.timerCount t.delta = r at hbase' htimes hle hover hfst hlt hs
  obtain ⟨passed, count, l⟩ := r
  cases hs
  dsimp only at hbase' htimes hle hover hfst hlt
  have hlate : ∀ x ∈ Delta.times base₁ t.delta, x.1 = true → ∀ a ∈ t.advances, a.2 + 100 ≤ x.2 + t.ahead := by
    intro x hx htrue a ha
    obtain ⟨y, hy, hyx, hsum⟩ := Delta.mem_times_later hbase₁ hx
    rcases h.delta y hy (hyx.trans htrue) with hy | ⟨hy', hpast⟩
    · have := hy a ha
      omega
    · have := hrestart h.count ⟨y, hy, hpast⟩
      have := h.handled a ha
      omega
  have hsub : t.iterations + 1 - count = base' := by omega
  refine ⟨⟨?_, h.single.2⟩, ?_, hlt, fun a ha => Nat.le_succ_of_le (h.handled a ha), fun hno a ha => ?_,
    fun x hx htrue => Or.inl fun a ha => ?_, fun p hp => ?_⟩
  · have hone := h.single.1
    unfold outstanding at hone ⊢
    rw [hfst, List.count_append] at hone
    rw [List.length_append, List.length_map, length_filter_id]
    dsimp only
    omega
  · dsimp only
    omega
  · have hsum := congrArg (List.count true) hfst
    rw [List.count_append, show (l.map Prod.fst).count true = 0 from hno, Nat.add_zero] at hsum
    by_cases hnil : passed = []
    · rw [hnil] at hsum
      have := h.settled hsum a ha
      dsimp only
      omega
    · have := h.handled a ha
      have := hover hnil
      dsimp only
      omega
  · rw [hsub] at hx
    exact hlate x (htimes ▸ List.mem_append_right _ hx) htrue a ha
  · rcases List.mem_append.mp hp with hp | hp
    · exact (h.mailbox p hp).imp_left Nat.le_succ_of_le
    · obtain ⟨b, hb, rfl⟩ := List.mem_map.mp hp
      obtain ⟨hb, htrue⟩ := List.mem_filter.mp hb
      have hmem : (b, t.iterations + 1) ∈ passed.map fun a => (a, t.iterations + 1) := List.mem_map_of_mem hb
      exact ⟨Nat.le_refl _, fun a ha => hlate _ (htimes ▸ List.mem_append_left _ hmem) htrue a ha⟩

theorem not_single_of_set (hset : env.Asks 'S') (htime : env.IsTime) (hnone : t.outstanding ≠ 0) :
    ¬(t.handle env).Single := by
  rcases t.handle_cases env with ⟨-, s, he⟩ | ⟨hno, -⟩
  · intro hsingle
    have hone := hsingle.1
    have hmore := outstanding_insert true 100 t
    rw [he] at hone
    unfold outstanding at hone hmore hnone
    have : [true].count true = 1 := rfl
    dsimp only at hone
    omega
  · exact absurd (Or.inl ⟨hset, htime⟩) hno

theorem paced_start : Paced .start :=
  ⟨⟨Nat.zero_le 1, .nil⟩, Nat.le_refl 0, by decide, fun _ ha => (List.not_mem_nil ha).elim,
    fun _ _ ha => (List.not_mem_nil ha).elim, fun _ hx => (List.not_mem_nil hx).elim,
      fun _ hp => (List.not_mem_nil hp).elim⟩

theorem step_timerMessage (hs : t.step (.timerMessage env) = some t') :
    ∃ p rest, t.mailbox = p :: rest ∧ env.senderPid = timerPid.val ∧
      t' = { ({ t with mailbox := rest }).handle env with
        advances := if t.clock.wallClockOn then t.advances ++ [(p, t.iterations)] else t.advances } := by
  unfold step at hs
  cases hmailbox : t.mailbox with
  | nil =>
    rw [hmailbox] at hs
    cases hs
  | cons p rest =>
    rw [hmailbox] at hs
    obtain ⟨htimer, hs⟩ := Option.ite_none_right_eq_some.mp hs
    exact ⟨p, rest, rfl, htimer, (Option.some.inj hs).symm⟩

theorem Paced.step (h : t.Paced) (hwaits : t.Waits e) (hs : t.step e = some t') : t'.Paced := by
  cases e with
  | command env =>
    obtain ⟨hkcd, hs⟩ := Option.ite_none_right_eq_some.mp hs
    cases hs
    exact h.command hkcd hwaits
  | timerMessage env =>
    obtain ⟨p, rest, hmailbox, htimer, rfl⟩ := step_timerMessage hs
    exact h.timerMessage hmailbox htimer hwaits
  | other delay =>
    obtain ⟨-, hs⟩ := Option.ite_none_right_eq_some.mp hs
    cases hs
    exact h.other delay
  | iteration => exact h.iteration hs

/-! ### Without messages of other processes -/

/-- Until its iteration has come the only message stays in the list. -/
theorem tick_only {c : Nat} (hc : c < 2 ^ 32) : Delta.tick (2 ^ 32) c [(true, 100)] =
    if c + 1 = 100 then ([true], 0, []) else ([], if c < 100 then c + 1 else 0, [(true, 100)]) := by
  have hrestart : Delta.restart ((c + 1) % 2 ^ 32) [(true, 100)] = if c < 100 then c + 1 else 0 := by
    show (if (c + 1) % 2 ^ 32 > 100 then 0 else (c + 1) % 2 ^ 32) = _
    split <;> split <;> omega
  have hexpire : ∀ n, Delta.expire n [(true, 100)] = if 100 = n then ([true], 0, []) else ([], n, [(true, 100)]) :=
    fun n => rfl
  unfold Delta.tick
  rw [hrestart, hexpire]
  by_cases h : c + 1 = 100
  · rw [if_pos h, if_pos (show c < 100 by omega), if_pos h.symm]
  · rw [if_neg h, if_neg (by split <;> omega)]

theorem tick_nil {c : Nat} (hc : c + 1 < 2 ^ 32) : Delta.tick (2 ^ 32) c ([] : List (Bool × Nat)) = ([], c + 1, []) := by
  unfold Delta.tick Delta.restart Delta.expire
  rw [Nat.mod_eq_of_lt hc]

/-- No other process delays messages, and the message that the clock has sent on advancing comes just as much too early as
    `timer_count` had run. -/
structure Alone (t : Ticker) : Prop extends Paced t where
  own : t.delta = [] ∨ t.delta = [(true, 100)]
  early : 0 < t.ahead → ∃ a ∈ t.advances,
    (t.delta ≠ [] → t.timerCount < 100 ∧ t.iterations - t.timerCount + t.ahead = a.2) ∧
    ∀ p ∈ t.mailbox, p + t.ahead = a.2 + 100

theorem Alone.command (h : t.Alone) (hkcd : env.senderPid = kcdPid.val) (hwaits : t.Waits (.command env)) :
    (t.handle env).Alone := by
  have hpaced := h.toPaced.command hkcd hwaits
  have hne : env.senderPid ≠ timerPid.val := fun htimer => absurd (hkcd.symm.trans htimer) (by decide)
  rcases t.handle_cases env with ⟨hset | htimer, s, he⟩ | ⟨-, s, he⟩
  · rw [he, lead_of_ne hne] at hpaced ⊢
    obtain ⟨hold, -⟩ := Nat.add_eq_zero_iff.mp (hwaits hset.1 hset.2)
    have hnil : t.delta = [] := h.own.resolve_right fun hone => by
      rw [hone] at hold
      exact absurd hold (by decide)
    refine ⟨hpaced, Or.inr ?_, fun hahead => absurd hahead (Nat.lt_irrefl 0)⟩
    dsimp only
    rw [hnil]
    rfl
  · exact absurd htimer.1 hne
  · rw [he] at hpaced ⊢
    exact ⟨hpaced, h.own, h.early⟩

theorem Alone.timerMessage {p : Nat} {rest : List Nat} (h : t.Alone) (hmailbox : t.mailbox = p :: rest)
    (htimer : env.senderPid = timerPid.val) (hwaits : t.Waits (.timerMessage env)) :
    Alone { ({ t with mailbox := rest }).handle env with
      advances := if t.clock.wallClockOn then t.advances ++ [(p, t.iterations)] else t.advances } := by
  have hpaced := h.toPaced.timerMessage hmailbox htimer hwaits
  have hone := h.single.1
  unfold outstanding at hone
  rw [hmailbox, List.length_cons] at hone
  obtain rfl : rest = [] := List.eq_nil_of_length_eq_zero (by omega)
  have hnil : t.delta = [] := h.own.resolve_right fun hdelta => by
    rw [hdelta] at hone
    exact absurd hone (by decide)
  have hkcd : ∀ c, ¬env.Asks c := fun c hasks => absurd (hasks.1.symm.trans htimer) (by decide)
  rcases ({ t with mailbox := [] }).handle_cases env with ⟨hset | ⟨-, hon⟩, s, he⟩ | ⟨hno, s, he⟩
  · exact absurd hset.1 (hkcd 'S')
  · have hon : t.clock.wallClockOn = true := hon
    rw [he, if_pos hon] at hpaced ⊢
    refine ⟨hpaced, Or.inr ?_, fun hahead => ⟨(p, t.iterations), List.mem_append_right _ (List.mem_singleton_self _),
      fun _ => ?_, fun q hq => (List.not_mem_nil hq).elim⟩⟩
    · dsimp only
      rw [hnil]
      rfl
    · have helapsed := h.elapsed
      dsimp only at hahead ⊢
      unfold lead at hahead ⊢
      dsimp only at hahead ⊢
      split at hahead
      next hlead =>
        rw [if_pos hlead]
        exact ⟨hlead.2, Nat.sub_add_cancel helapsed⟩
      next => exact absurd hahead (Nat.lt_irrefl 0)
  · have hon : ¬t.clock.wallClockOn = true := fun hon => hno (Or.inr ⟨htimer, hon⟩)
    rw [he, if_neg hon] at hpaced ⊢
    refine ⟨hpaced, h.own, fun hahead => ?_⟩
    obtain ⟨a, ha, hsent, -⟩ := h.early hahead
    exact ⟨a, ha, hsent, fun q hq => (List.not_mem_nil hq).elim⟩

theorem Alone.iteration (h : t.Alone) (hs : t.step .iteration = some t') : t'.Alone := by
  have hpaced := h.toPaced.iteration hs
  have hsingle := h.single.1
  have helapsed := h.elapsed
  unfold step at hs
  rcases h.own with hdelta | hdelta
  · have htick : Delta.tick (2 ^ 32) t.timerCount t.delta = ([], (t.timerCount + 1) % 2 ^ 32, []) := by
      rw [hdelta]
      rfl
    rw [htick] at hs
    cases hs
    refine ⟨hpaced, Or.inl rfl, fun hahead => ?_⟩
    obtain ⟨a, ha, -, hpassed⟩ := h.early hahead
    exact ⟨a, ha, (absurd rfl ·), fun p hp => hpassed p (by simpa using hp)⟩
  · have hnil : t.mailbox = [] := by
      unfold outstanding at hsingle
      rw [hdelta] at hsingle
      have hone : 1 + t.mailbox.length ≤ 1 := hsingle
      exact List.eq_nil_of_length_eq_zero (by omega)
    rw [hdelta, tick_only h.count] at hs
    by_cases hdue : t.timerCount + 1 = 100
    · rw [if_pos hdue] at hs
      cases hs
      refine ⟨hpaced, Or.inl rfl, fun hahead => ?_⟩
      obtain ⟨a, ha, hsent, -⟩ := h.early hahead
      have := (hsent (by rw [hdelta]; exact List.cons_ne_nil _ _)).2
      refine ⟨a, ha, (absurd rfl ·), fun p hp => ?_⟩
      rw [hnil] at hp
      rw [show p = t.iterations + 1 from List.mem_singleton.mp hp]
      dsimp only
      omega
    · rw [if_neg hdue] at hs
      cases hs
      refine ⟨hpaced, Or.inr rfl, fun hahead => ?_⟩
      obtain ⟨a, ha, hsent, -⟩ := h.early hahead
      obtain ⟨hlt, hsum⟩ := hsent (by rw [hdelta]; exact List.cons_ne_nil _ _)
      refine ⟨a, ha, fun _ => ?_, fun p hp => ?_⟩
      · dsimp only
        rw [if_pos hlt]
        exact ⟨by omega, by omega⟩
      · rw [hnil] at hp
        exact (List.not_mem_nil hp).elim

theorem alone_start : Alone .start := ⟨paced_start, Or.inl rfl, fun h => absurd h (Nat.lt_irrefl 0)⟩

/-- An event other than a delayed message of another process. -/
def NoOther (_ : Ticker) (e : TickerEvent) : Prop := ∀ d, e ≠ .other d

theorem Alone.step (h : t.Alone) (hown : NoOther t e) (hwaits : t.Waits e) (hs : t.step e = some t') : t'.Alone := by
  cases e with
  | command env =>
    obtain ⟨hkcd, hs⟩ := Option.ite_none_right_eq_some.mp hs
    cases hs
    exact h.command hkcd hwaits
  | timerMessage env =>
    obtain ⟨p, rest, hmailbox, htimer, rfl⟩ := step_timerMessage hs
    exact h.timerMessage hmailbox htimer hwaits
  | other delay => exact absurd rfl (hown delay)
  | iteration => exact h.iteration hs

/-- A set command is accepted too soon, or the clock advances less than 100 iterations after it has sent the message. -/
theorem Alone.not_single (h : t.Alone) (hown : NoOther t e) (hwaits : ¬t.Waits e) (hs : t.step e = some t') :
    ¬t'.Single := by
  cases e with
  | command env =>
    obtain ⟨-, hs⟩ := Option.ite_none_right_eq_some.mp hs
    cases hs
    unfold Waits at hwaits
    push Not at hwaits
    obtain ⟨hset, htime, hnone⟩ := hwaits
    exact not_single_of_set hset htime hnone
  | timerMessage env =>
    obtain ⟨p, rest, hmailbox, htimer, rfl⟩ := step_timerMessage hs
    unfold Waits at hwaits
    push Not at hwaits
    obtain ⟨hon, q, hq, hlate⟩ := hwaits
    rw [hmailbox] at hq
    cases hq
    have hp := (h.mailbox p (hmailbox ▸ List.mem_cons_self)).1
    obtain ⟨a, ha, -, hpassed⟩ := h.early (by omega)
    have hsum := hpassed p (hmailbox ▸ List.mem_cons_self)
    intro hsingle
    have hspaced := hsingle.2
    dsimp only at hspaced
    rw [if_pos hon] at hspaced
    have := (List.pairwise_append.mp hspaced).2.2 a ha _ (List.mem_singleton_self _)
    dsimp only at this
    omega
  | other delay => exact absurd rfl (hown delay)
  | iteration => exact absurd trivial hwaits

end

/-- When no set command is accepted while a message is outstanding, and no message that has been passed on early is received
    too soon, at most one message is ever outstanding, and the clock advances in iterations that are at least 100 apart. In
    a run without messages of other processes this is so only then. -/
theorem single_iff_waits (events : List TickerEvent) :
    (Runs.Along step Waits .start events → Runs.Throughout step Single .start events) ∧
      ((∀ d, .other d ∉ events) →
        (Runs.Throughout step Single .start events ↔ Runs.Along step Waits .start events)) := by
  refine ⟨fun hwaits => ?_, fun hown => ?_⟩
  · exact (Runs.throughout_of_invariant (I := Paced) (fun _ _ _ h hwaits hs => h.step hwaits hs) paced_start hwaits).imp
      fun _ h => h.single
  · refine Runs.throughout_iff_along_within (I := Alone) (B := NoOther) (fun _ h => h.single)
      (fun _ _ _ h hown hwaits hs => h.step hown hwaits hs) (fun _ _ _ h hown hwaits hs => h.not_single hown hwaits hs)
      alone_start ?_
    exact Runs.along_of_forall fun e he _ d hed => hown d (hed ▸ he)

/-- The clock is set, and handles its first message at once. -/
theorem single_iff_waits_prompt :
    Runs.Throughout step Single .start (TickerEvent.command (setCommand firstBlock [48, 48, 58, 48, 48, 58, 48, 48]) ::
      List.replicate 100 .iteration ++ [.timerMessage (timerMessage firstBlock)]) := by
  refine (single_iff_waits _).1 ?_
  obtain ⟨t, ht⟩ := Option.isSome_iff_exists.mp (by decide +kernel : (Runs.exec (Runs.guarded step Waits) .start
    (TickerEvent.command (setCommand firstBlock [48, 48, 58, 48, 48, 58, 48, 48]) ::
      List.replicate 100 .iteration ++ [.timerMessage (timerMessage firstBlock)])).isSome = true)
  exact (Runs.along_of_guarded ht).1

/-- Two set commands start two messages, and when both are passed on the clock advances twice after 100 iterations. -/
theorem two_set_commands :
    let sets := List.replicate 2 (TickerEvent.command (setCommand firstBlock [48, 48, 58, 48, 48, 58, 48, 48]))
    let passes := List.replicate 100 TickerEvent.iteration ++
      List.replicate 2 (TickerEvent.timerMessage (timerMessage firstBlock))
    ¬Runs.Throughout step Single .start sets ∧
      (Runs.exec step .start sets).map outstanding = some 2 ∧
      (Runs.exec step .start (sets ++ passes)).map advances = some [(100, 100), (100, 100)] := by
  refine ⟨fun hall => ?_, by decide, by decide +kernel⟩
  have hsingle := ((hall.2 _ rfl).2 _ rfl).1
  exact absurd hsingle (by decide)

/-- A message that is handled 99 iterations late is followed by one that comes in the next iteration. -/
example : (Runs.exec step .start (TickerEvent.command (setCommand firstBlock [48, 48, 58, 48, 48, 58, 48, 48]) ::
    List.replicate 199 .iteration ++ [.timerMessage (timerMessage firstBlock), .iteration,
      .timerMessage (timerMessage firstBlock)])).map advances = some [(100, 199), (200, 200)] := by decide +kernel

end Ticker
end DoorRtos
