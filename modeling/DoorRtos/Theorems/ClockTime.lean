import DoorRtos.Theorems.WallClock

/-! The time that a running clock shows, tick after tick. -/

namespace DoorRtos
open Interaction

def twoDigits (n : Nat) : List Nat := [n / 10 + '0'.toNat, n % 10 + '0'.toNat]

/-- A time of the day, in seconds since midnight, as hours, minutes and seconds. -/
def timeText (t : Nat) : List Nat :=
  ['\r'.toNat] ++ twoDigits (t / 3600) ++ [':'.toNat] ++ twoDigits (t / 60 % 60) ++ [':'.toNat] ++ twoDigits (t % 60) ++
    ['\r'.toNat, 0]

/-- The time that a set command would set which has the characters of a displayed text between its carriage returns. -/
def readBack (addr : Addr) (text : List Nat) : Option Nat :=
  let env := setCommand addr (((text.drop 1).take 8).map UInt8.ofNat)
  if env.IsTime then some (3600 * env.inHour + 60 * env.inMin + env.inSec).toNat else none

section
variable {s s' : Clock} {n t : Nat} {g : History ClockOp ClockAns} {h : History Op Ans} {ts : List (List Nat)}

/-! ### The text of a time -/

theorem digits_eq {m : Int} (h0 : 0 ≤ m) (h100 : m < 100) : digits m = twoDigits m.toNat := by
  obtain ⟨i, rfl⟩ := Int.eq_ofNat_of_zero_le h0
  have hall : ∀ i : Fin 100, digits (i.val : Int) = twoDigits i.val := by decide
  exact hall ⟨i, by omega⟩

/-- A clock in range displays the time that it shows. -/
theorem Clock.InRange.text (hs : s.InRange) : clockText s.hour s.min s.sec = timeText s.seconds := by
  obtain ⟨⟨hh, hh'⟩, ⟨hm, hm'⟩, hsec, hsec'⟩ := hs
  have hour : s.seconds / 3600 = s.hour.toNat := by unfold Clock.seconds; omega
  have min : s.seconds / 60 % 60 = s.min.toNat := by unfold Clock.seconds; omega
  have sec : s.seconds % 60 = s.sec.toNat := by unfold Clock.seconds; omega
  unfold clockText timeText
  rw [hour, min, sec, digits_eq hh (by omega), digits_eq hm (by omega), digits_eq hsec (by omega)]

/-- The decoder of the set command gives back a number below 100 whose two digits it reads. -/
theorem decode_twoDigits {data : Nat → UInt8} {i m : Nat} (hm : m < 100) (htens : data i = UInt8.ofNat (m / 10 + '0'.toNat))
    (hones : data (i + 1) = UInt8.ofNat (m % 10 + '0'.toNat)) :
    (charAt data i - 0x30) * 10 + (charAt data (i + 1) - 0x30) = m := by
  have hdigit : ∀ d : Fin 10, (UInt8.ofNat (d.val + '0'.toNat)).toInt8.toInt - 0x30 = d.val := by decide
  unfold charAt
  rw [htens, hones, hdigit ⟨m / 10, by omega⟩, hdigit ⟨m % 10, by omega⟩]
  dsimp only
  omega

theorem readBack_timeText (addr : Addr) (ht : t < 86400) : readBack addr (timeText t) = some t := by
  have hhour : (setCommand addr (((timeText t).drop 1).take 8 |>.map UInt8.ofNat)).inHour = (t / 3600 : Nat) :=
    decode_twoDigits (by omega) rfl rfl
  have hmin : (setCommand addr (((timeText t).drop 1).take 8 |>.map UInt8.ofNat)).inMin = (t / 60 % 60 : Nat) :=
    decode_twoDigits (by omega) rfl rfl
  have hsec : (setCommand addr (((timeText t).drop 1).take 8 |>.map UInt8.ofNat)).inSec = (t % 60 : Nat) :=
    decode_twoDigits (by omega) rfl rfl
  unfold readBack Envelope.IsTime
  simp only [hhour, hmin, hsec]
  rw [if_pos (by omega)]
  congr 1
  omega

/-! ### Many ticks -/

theorem increment_wallClockOn (s : Clock) : s.increment.wallClockOn = s.wallClockOn := by
  unfold Clock.increment
  dsimp only
  split
  · split
    · split <;> rfl
    · rfl
  · rfl

theorem displays_some {env : Envelope} {g₁ g₂ : History ClockOp ClockAns} {ds : List Int} {ts₁ ts₂ : List (List Nat)}
    (heff : Effects g₁ ds ts₁) (hdis : Displays (basics g₂) ts₂) :
    Displays (basics (⟨.basic .receiveMessage, some env⟩ ::
      (g₁ ++ ⟨.basic (.releaseMemoryBlock env.addr), ()⟩ :: g₂))) (ts₁ ++ ts₂) := by
  have hrelease : Displays (⟨.releaseMemoryBlock env.addr, ()⟩ :: basics g₂) ts₂ := fun m => hdis m
  rw [basics_cons_basic, basics_append, basics_cons_basic]
  exact fun m => heff.displays.append hrelease m

/-- The times that a clock shows after each of `k` ticks. -/
def ticks (start k : Nat) : List Nat := (List.range k).map fun i => (start + (i + 1)) % 86400

theorem ticks_succ (start k : Nat) : ticks start (k + 1) = (start + 1) % 86400 :: ticks ((start + 1) % 86400) k := by
  unfold ticks
  rw [List.range_succ_eq_map, List.map_cons, List.map_map]
  refine congrArg _ (List.map_congr_left fun i _ => ?_)
  simp only [Function.comp_apply, Nat.succ_eq_add_one]
  omega

theorem wallClockLoop_ticks (n : Nat) (s : Clock) : (wallClockLoop n s).Sat fun g s' =>
    s.InRange → s.wallClockOn = true → (∀ env ∈ received (basics g), env.senderPid = timerPid.val) →
      s'.InRange ∧ s'.wallClockOn = true ∧ s'.seconds = (s.seconds + (received (basics g)).length) % 86400 ∧
        Displays (basics g) ((ticks s.seconds (received (basics g)).length).map timeText) := by
  refine wallClockLoop_sat (I := fun s g s' => s.InRange → s.wallClockOn = true →
    (∀ env ∈ received (basics g), env.senderPid = timerPid.val) →
      s'.InRange ∧ s'.wallClockOn = true ∧ s'.seconds = (s.seconds + (received (basics g)).length) % 86400 ∧
        Displays (basics g) ((ticks s.seconds (received (basics g)).length).map timeText)) ?_ ?_ ?_ n s
  · intro s hs hon _
    refine ⟨hs, hon, ?_, .nil⟩
    have hlt : s.seconds < 86400 := by
      obtain ⟨⟨hh, hh'⟩, ⟨hm, hm'⟩, hsec, hsec'⟩ := hs
      unfold Clock.seconds
      omega
    exact (Nat.mod_eq_of_lt hlt).symm
  · intro s g s' hI hs hon htimer
    exact hI hs hon htimer
  · intro s env g₁ s₁ g₂ s' hd hI hs hon htimer
    obtain ⟨ds, ts, hreact, heff⟩ := clockHandle_reaction s env g₁ s₁ hd
    rw [received_some heff] at htimer ⊢
    obtain ⟨henv, hrest⟩ := List.forall_mem_cons.mp htimer
    have hkcd : ∀ c, ¬env.Asks c := fun c hasks => absurd (hasks.1.symm.trans henv) (by decide)
    cases hreact with
    | set hasks => exact absurd hasks (hkcd _)
    | refused hasks => exact absurd hasks (hkcd _)
    | shown hasks => exact absurd hasks (hkcd _)
    | stopped hasks => exact absurd hasks (hkcd _)
    | ignored _ hoff => exact absurd ⟨henv, hon⟩ hoff
    | advanced =>
      obtain ⟨hrange, hsec⟩ := hs.increment
      have hon₁ : s.increment.wallClockOn = true := (increment_wallClockOn s).trans hon
      obtain ⟨hrange', hon', hsec', hdis'⟩ := hI hrange hon₁ hrest
      refine ⟨hrange', hon', ?_, ?_⟩
      · rw [hsec', hsec, List.length_cons]
        omega
      · rw [List.length_cons, ticks_succ, List.map_cons, ← hsec, ← hrange.text]
        exact displays_some heff hdis'

/-- After `k` messages of the timer process the clock shows `k` seconds more, modulo a day, and each text that it has
    displayed is that of the time that it showed, and decodes to it. -/
theorem wallClock_counts (addr : Addr) (hs : s.InRange) (hon : s.wallClockOn = true) (hd : (wallClockLoop n s).Does g s')
    (htimer : ∀ env ∈ received (basics g), env.senderPid = timerPid.val) :
    s'.InRange ∧ s'.wallClockOn = true ∧ s'.seconds = (s.seconds + (received (basics g)).length) % 86400 ∧
      textsShown (basics g) = (ticks s.seconds (received (basics g)).length).map timeText ∧
      (textsShown (basics g)).map (readBack addr) = (ticks s.seconds (received (basics g)).length).map some := by
  obtain ⟨hrange, hon', hsec, hdis⟩ := wallClockLoop_ticks n s g s' hd hs hon htimer
  refine ⟨hrange, hon', hsec, hdis.eq_textsShown, ?_⟩
  rw [hdis.eq_textsShown, List.map_map]
  refine List.map_congr_left fun t ht => ?_
  obtain ⟨i, -, rfl⟩ := List.mem_map.mp ht
  exact readBack_timeText addr (Nat.mod_lt _ (by decide))

end

def timerMessage (addr : Addr) : Envelope := ⟨addr, timerPid.val, 0, fun _ => 0⟩

/-- Three messages after 23:59:58 the clock shows 00:00:01. -/
theorem wallClock_counts_past_midnight :
    ∃ g s', (wallClockLoop 3 ⟨23, 59, 58, true⟩).Does g s' ∧ s'.seconds = 1 ∧
      textsShown (basics g) = [86399, 0, 1].map timeText ∧
      (textsShown (basics g)).map (readBack firstBlock) = [86399, 0, 1].map some := by
  obtain ⟨g, s₁, s', ds, ts, hd, hrec, -⟩ := exists_wallClockLoop [timerMessage firstBlock, timerMessage firstBlock]
    (timerMessage firstBlock) ⟨23, 59, 58, true⟩
  have hticks : ticks (Clock.seconds ⟨23, 59, 58, true⟩) 3 = [86399, 0, 1] := by decide
  have hlength : (received (basics g)).length = 3 := by
    rw [hrec]
    rfl
  obtain ⟨-, -, hsec, hdis, hback⟩ :=
      wallClock_counts firstBlock ⟨by decide, by decide, by decide⟩ rfl hd fun env henv => by
    rw [hrec] at henv
    have henv : env ∈ [timerMessage firstBlock, timerMessage firstBlock, timerMessage firstBlock] := henv
    simp only [List.mem_cons, List.not_mem_nil, or_false, or_self] at henv
    rw [henv]
    rfl
  rw [hlength] at hsec hdis hback
  rw [hticks] at hdis hback
  exact ⟨g, s', hd, hsec, hdis, hback⟩

end DoorRtos
