import DoorRtos.Theorems.ClockTime
import DoorRtos.Theorems.PrioArguments
import DoorRtos.Theorems.StaleText

/-! A command from its first keystroke to the process that carries it out. -/

namespace DoorRtos
open Interaction Runs

/-- What the decoder does while messages come in. -/
def Watch.acts : Watch → List KcdEvent → List KcdAct
  | _, [] => []
  | w, ev :: evs => (w.kcd.handle ev).1 ++ (w.step ev).elim [] fun w' => w'.acts evs

/-- The commands among it, with the processes that they are sent to. -/
def commandsSent (acts : List KcdAct) : List (Nat × Envelope) :=
  acts.filterMap fun
    | .command processID tosend => some (processID, tosend)
    | _ => none

/-- The messages are these keystrokes. -/
def Keystrokes (evs : List KcdEvent) (cs : List UInt8) : Prop := List.Forall₂ (fun ev c => ev.kcdMess.Types c) evs cs

def letter (c : Char) : UInt8 := UInt8.ofNat c.toNat

/-- What is typed to send a command. -/
def typedCommand (text : List UInt8) : List UInt8 := percent :: (text ++ [carriageReturn])

def timeChars (hour min sec : Nat) : List UInt8 :=
  (twoDigits hour ++ [':'.toNat] ++ twoDigits min ++ [':'.toNat] ++ twoDigits sec).map UInt8.ofNat

def priorityChars (pid : Nat) (separator : UInt8) (priority : Nat) : List UInt8 :=
  (twoDigits pid).map UInt8.ofNat ++ [separator, UInt8.ofNat (priority + '0'.toNat)]

/-- The clock has been set to a time and shows it, or it has been left as it was. -/
structure SetsTime (hour min sec : Nat) (s : Clock) (g : History ClockOp ClockAns) (s' : Clock) : Prop where
  accepted : hour < 24 ∧ min < 60 → s' = ⟨hour, min, sec, true⟩ ∧ delays g = [100] ∧
    textsShown (basics g) = [['\r'.toNat] ++ (timeChars hour min sec).map UInt8.toNat ++ ['\r'.toNat, 0]]
  refused : ¬(hour < 24 ∧ min < 60) → s' = s ∧ delays g = [] ∧ textsShown (basics g) = []

/-- The priority has been asked for, and the trap hands it to the kernel, or an error message has been displayed. -/
structure SetsPriority (k : Kernel) (pid priority : Nat) (g : History Op Ans) : Prop where
  accepted : (∃ p, k.Created p ∧ p.val = pid) ∧ pid ≠ 0 ∧ priority ≤ 3 →
    settings g = [((pid : Int), (priority : Int))] ∧ Arrives pid priority
  refused : ¬((∃ p, k.Created p ∧ p.val = pid) ∧ pid ≠ 0 ∧ priority ≤ 3) →
    settings g = [] ∧ textsShown g = [errorText priority pid]

section
variable {w w' : Watch} {ev : KcdEvent} {evs evs' : List KcdEvent} {acts : List KcdAct} {cs text : List UInt8} {c : UInt8}
  {pid : Nat}

/-! ### What the decoder sends -/

theorem commandsSent_append (acts acts' : List KcdAct) :
    commandsSent (acts ++ acts') = commandsSent acts ++ commandsSent acts' :=
  List.filterMap_append

theorem commandsSent_eq_nil (h : ∀ p m, KcdAct.command p m ∉ acts) : commandsSent acts = [] := by
  refine List.filterMap_eq_nil_iff.mpr fun a ha => ?_
  cases a with
  | command p m => exact absurd ha (h p m)
  | _ => rfl

theorem acts_cons (h : w.step ev = some w') : w.acts (ev :: evs) = (w.kcd.handle ev).1 ++ w'.acts evs := by
  rw [Watch.acts, h]
  rfl

theorem acts_append (h : exec Watch.step w evs = some w') : w.acts (evs ++ evs') = w.acts evs ++ w'.acts evs' := by
  induction evs generalizing w with
  | nil =>
    cases h
    rfl
  | cons ev evs ih =>
    obtain ⟨u, hu, h⟩ := Option.bind_eq_some_iff.mp h
    rw [List.cons_append, acts_cons hu, acts_cons hu, ih h, List.append_assoc]

/-! ### Typing a command -/

theorem Watch.Sound.exec (h : w.Sound) (hw : Runs.exec Watch.step w evs = some w') : w'.Sound := by
  induction evs generalizing w with
  | nil => exact Option.some.inj hw ▸ h
  | cons ev evs ih =>
    obtain ⟨u, hu, hw⟩ := Option.bind_eq_some_iff.mp hw
    exact ih (Agrees.kept h ev trivial hu).2 hw

theorem sound_of_exec {map : UInt8 → Nat} (hw : Runs.exec Watch.step (.start map) evs = some w) : w.Sound := by
  have hstart : (Watch.start map).Sound := agrees_start _ map
  exact hstart.exec hw

/-- A keystroke that closes no command sends none. -/
theorem Watch.Sound.quiet (h : w.Sound) (htype : ev.kcdMess.type = MessType.keyboardInput)
    (hno : ∀ cs, w.seen.typed = some cs → ¬ev.kcdMess.Types carriageReturn) :
    ∃ w', w.step ev = some w' ∧ w'.Sound ∧ w'.seen = w.seen.note ev.kcdMess ∧ commandsSent (w.kcd.handle ev).1 = [] := by
  have hreg := not_registers_of_type htype
  obtain ⟨w', hw'⟩ := Agrees.goes h ev trivial fun hyes => absurd hyes hreg
  obtain ⟨hseen, h'⟩ := Agrees.kept h ev trivial hw'
  have hstep : w.seen.step ev.kcdMess = some (w.seen.note ev.kcdMess) := if_neg fun hout => hreg hout.1
  refine ⟨w', hw', h', Option.some.inj (hseen.symm.trans hstep), commandsSent_eq_nil fun p m hm => ?_⟩
  obtain ⟨cs, _, hopen, hcr, -⟩ := Agrees.of_command h ev trivial hm
  exact hno cs hopen hcr

/-- The characters behind the `'%'` are collected. -/
theorem Watch.Sound.typing (h : w.Sound) (hopen : w.seen.typed = some cs) (htyped : Keystrokes evs text)
    (hcr : carriageReturn ∉ text) :
    ∃ w', Runs.exec Watch.step w evs = some w' ∧ w'.Sound ∧ w'.seen = { w.seen with typed := some (cs ++ text) } ∧
      commandsSent (w.acts evs) = [] := by
  induction htyped generalizing w cs with
  | nil =>
    refine ⟨w, rfl, h, ?_, rfl⟩
    rw [List.append_nil, ← hopen]
  | @cons ev c evs text htypes _ ih =>
    obtain ⟨hne, hcr⟩ := not_or.mp (mt List.mem_cons.mpr hcr)
    have hkey : ev.kcdMess.data 0 ≠ carriageReturn := fun he => hne (he.symm.trans htypes.2)
    obtain ⟨u, hu, hsound, hseen, hquiet⟩ := h.quiet htypes.1 fun _ _ hyes => hkey hyes.2
    rw [note_inside htypes.1 hopen, if_neg hkey, htypes.2] at hseen
    obtain ⟨w', hw', h', hseen', hsent⟩ := ih hsound (by rw [hseen]) hcr
    refine ⟨w', by rw [exec_cons, hu]; exact hw', h', ?_, ?_⟩
    · rw [hseen', hseen, List.append_assoc]
      rfl
    · rw [acts_cons hu, commandsSent_append, hquiet, hsent]
      rfl

/-- The carriage return sends what has been collected, and nothing else. -/
theorem Watch.Sound.closing (h : w.Sound) (hopen : w.seen.typed = some (c :: cs)) (hcr : ev.kcdMess.Types carriageReturn)
    (hlookup : w.seen.registered.lookup c = some pid) :
    ∃ (w' : Watch) (block : Envelope), w.step ev = some w' ∧ w'.Sound ∧ w'.seen = { w.seen with typed := none } ∧
      commandsSent (w.kcd.handle ev).1 = [(pid, { block with data := filled block.data (c :: cs) })] := by
  have hround : Round _ w.seen w.kcd ev (w.kcd.handle ev) := Agrees.handle h trivial
  obtain ⟨block, t, -, -, hr⟩ := hround.eq_of_closing hopen hcr
  have hstep : w.step ev = some ⟨t, w.seen.note ev.kcdMess⟩ := by
    unfold Watch.step
    rw [hr]
    rfl
  have hnote := note_inside hcr.1 hopen
  rw [if_pos hcr.2] at hnote
  refine ⟨_, block, hstep, (Agrees.kept h ev trivial hstep).2, hnote, ?_⟩
  rw [hr, filled_cons_zero, h.map c pid hlookup]
  rfl

theorem Keystrokes.closed (h : Keystrokes evs (text ++ [c])) :
    ∃ typed closing, evs = typed ++ [closing] ∧ Keystrokes typed text ∧ closing.kcdMess.Types c := by
  obtain ⟨closing, _, hcloses, hnil, hlast⟩ := List.forall₂_cons_right_iff.mp (List.forall₂_drop_append evs text [c] h)
  obtain rfl := List.forall₂_nil_right_iff.mp hnil
  exact ⟨_, closing, by rw [← hlast, List.take_append_drop], List.forall₂_take_append evs text [c] h, hcloses⟩

/-- A command that is typed outside of another one is sent, once, to the process that has registered it. -/
theorem Watch.Sound.command (h : w.Sound) (hnone : w.seen.typed = none) (hlookup : w.seen.registered.lookup c = some pid)
    (hcr : carriageReturn ∉ c :: cs) (htyped : Keystrokes evs (typedCommand (c :: cs))) :
    ∃ (w' : Watch) (block : Envelope), Runs.exec Watch.step w evs = some w' ∧ w'.seen = w.seen ∧
      commandsSent (w.acts evs) = [(pid, { block with data := filled block.data (c :: cs) })] := by
  obtain ⟨first, rest, hfirst, hrest, rfl⟩ := List.forall₂_cons_right_iff.mp htyped
  obtain ⟨u, hu, hsound, hseen, hquiet⟩ := h.quiet hfirst.1 fun _ hopen => nomatch hnone.symm.trans hopen
  rw [note_outside hfirst.1 hnone, if_pos hfirst.2] at hseen
  obtain ⟨typed, closing, rfl, htext, hcloses⟩ := Keystrokes.closed hrest
  obtain ⟨v, hv, hsound', hseen', hsent⟩ := hsound.typing (by rw [hseen]) htext hcr
  obtain ⟨w', block, hw', -, hseen'', hcommand⟩ :=
    hsound'.closing (by rw [hseen']; rfl) hcloses (by rw [hseen', hseen]; exact hlookup)
  refine ⟨w', block, ?_, ?_, ?_⟩
  · rw [exec_cons, hu]
    show Runs.exec Watch.step u (typed ++ [closing]) = _
    rw [exec_append, hv]
    show Runs.exec Watch.step v [closing] = _
    rw [exec_cons, hw']
    rfl
  · rw [hseen'', hseen', hseen, ← hnone]
  · rw [acts_cons hu, commandsSent_append, hquiet, acts_append hv, commandsSent_append, hsent, acts_cons hw',
      commandsSent_append, hcommand]
    rfl

/-! ### What the receivers read -/

theorem carriageReturn_not_mem_twoDigits {n : Nat} (h : n < 100) : carriageReturn ∉ (twoDigits n).map UInt8.ofNat := by
  have hall : ∀ i : Fin 100, carriageReturn ∉ (twoDigits i.val).map UInt8.ofNat := by decide
  exact hall ⟨n, h⟩

theorem toNat_twoDigits {n : Nat} (h : n < 100) : ((twoDigits n).map UInt8.ofNat).map UInt8.toNat = twoDigits n := by
  have hall : ∀ i : Fin 100, ((twoDigits i.val).map UInt8.ofNat).map UInt8.toNat = twoDigits i.val := by decide
  exact hall ⟨n, h⟩

section
variable {hour min sec : Nat} {s s' : Clock} {m : Envelope} {data : Nat → UInt8} {g : History ClockOp ClockAns}

theorem carriageReturn_not_mem_timeChars (hhour : hour < 100) (hmin : min < 100) (hsec : sec < 100) :
    carriageReturn ∉ letter 'W' :: letter 'S' :: timeChars hour min sec := by
  have hcolon : carriageReturn ∉ [UInt8.ofNat ':'.toNat] := by decide
  unfold timeChars
  rw [List.map_append, List.map_append, List.map_append, List.map_append]
  simp only [List.mem_cons, List.mem_append, not_or]
  refine ⟨by decide, by decide, ⟨⟨⟨?_, hcolon⟩, ?_⟩, hcolon⟩, ?_⟩
  · exact carriageReturn_not_mem_twoDigits hhour
  · exact carriageReturn_not_mem_twoDigits hmin
  · exact carriageReturn_not_mem_twoDigits hsec

theorem clockText_eq (hhour : hour < 100) (hmin : min < 100) (hsec : sec < 100) :
    clockText hour min sec = ['\r'.toNat] ++ (timeChars hour min sec).map UInt8.toNat ++ ['\r'.toNat, 0] := by
  have hcolon : [UInt8.ofNat ':'.toNat].map UInt8.toNat = [':'.toNat] := rfl
  unfold clockText timeChars
  rw [digits_eq (by omega) (by omega), digits_eq (by omega) (by omega), digits_eq (by omega) (by omega)]
  simp only [List.map_append, toNat_twoDigits hhour, toNat_twoDigits hmin, toNat_twoDigits hsec, Int.toNat_natCast]
  rw [List.map_singleton, hcolon]
  simp only [List.append_assoc]

/-- The wall clock process reads back the time that has been typed. -/
theorem clockHandle_setsTime (hhour : hour < 100) (hmin : min < 100) (hsec : sec < 100)
    (hdata : m.data = filled data (letter 'W' :: letter 'S' :: timeChars hour min sec)) (hsender : m.senderPid = kcdPid.val)
    (s : Clock) : (clockHandle s m).Sat fun g s' => SetsTime hour min sec s g s' := by
  have hinHour : m.inHour = hour := by
    unfold Envelope.inHour
    rw [hdata]
    exact decode_twoDigits hhour rfl rfl
  have hinMin : m.inMin = min := by
    unfold Envelope.inMin
    rw [hdata]
    exact decode_twoDigits hmin rfl rfl
  have hinSec : m.inSec = sec := by
    unfold Envelope.inSec
    rw [hdata]
    exact decode_twoDigits hsec rfl rfl
  have hasks : m.Asks 'S' := ⟨hsender, by rw [hdata]; rfl⟩
  have htime : m.IsTime ↔ hour < 24 ∧ min < 60 := by
    unfold Envelope.IsTime
    rw [hinHour, hinMin, hinSec]
    omega
  refine (clockHandle_reaction s m).imp fun g s' ⟨ds, ts, hreact, heff⟩ => ?_
  have hshown : textsShown (basics g) = ts := heff.displays.eq_textsShown
  cases hreact with
  | set _ hyes =>
    refine ⟨fun _ => ⟨?_, heff.delays, ?_⟩, fun hno => absurd (htime.mp hyes) hno⟩
    · rw [hinHour, hinMin, hinSec]
    · rw [hshown, hinHour, hinMin, hinSec, clockText_eq hhour hmin hsec]
  | refused _ hno => exact ⟨fun hyes => absurd (htime.mpr hyes) hno, fun _ => ⟨rfl, heff.delays, hshown⟩⟩
  | shown hshow => exact absurd (hasks.2.symm.trans hshow.2) (by decide)
  | stopped hstop => exact absurd (hasks.2.symm.trans hstop.2) (by decide)
  | advanced htimer => exact absurd (hsender.symm.trans htimer) (by decide)
  | ignored hno => exact absurd hasks hno

end

section
variable {k : Kernel} {pid priority : Nat} {separator : UInt8} {m : Envelope} {data : Nat → UInt8} {spare : Addr}

theorem carriageReturn_not_mem_priorityChars (hpid : pid < 100) (hprio : priority < 10)
    (hseparator : separator ≠ carriageReturn) :
    carriageReturn ∉ letter 'C' :: letter ' ' :: priorityChars pid separator priority := by
  have hdigit : ∀ d : Fin 10, carriageReturn ≠ UInt8.ofNat (d.val + '0'.toNat) := by decide
  unfold priorityChars
  simp only [List.mem_cons, List.mem_append, List.not_mem_nil, or_false, not_or]
  refine ⟨by decide, by decide, carriageReturn_not_mem_twoDigits hpid, hseparator.symm, hdigit ⟨priority, hprio⟩⟩

/-- The priority process reads back the numbers that have been typed. -/
theorem setPrioHandle_setsPriority (hk : TableSet k) (hpid : pid < 100) (hprio : priority < 10)
    (hdata : m.data = filled data (letter 'C' :: letter ' ' :: priorityChars pid separator priority))
    (hsender : m.senderPid = kcdPid.val) (spare : Addr) :
    (setPrioHandle k spare m).Sat fun g _ => SetsPriority k pid priority g := by
  have hinProcess : m.inProcess = pid := by
    unfold Envelope.inProcess
    rw [hdata]
    exact decode_twoDigits hpid rfl rfl
  have hinPriority : m.inPriority = priority := by
    have hdigit : ∀ d : Fin 10, (UInt8.ofNat (d.val + '0'.toNat)).toInt8.toInt - 0x30 = d.val := by decide
    unfold Envelope.inPriority charAt
    rw [hdata]
    exact hdigit ⟨priority, hprio⟩
  have hcommand : m.IsCommand := ⟨hsender, by rw [hdata]; rfl⟩
  have hvalid : m.IsValid k ↔ (∃ p, k.Created p ∧ p.val = pid) ∧ pid ≠ 0 ∧ priority ≤ 3 := by
    rw [hk.isValid_iff, hinProcess, hinPriority]
    constructor
    · rintro ⟨hbounds, ⟨p, hp, hval⟩, hle⟩
      exact ⟨⟨p, hp, by omega⟩, by omega, by omega⟩
    · rintro ⟨⟨p, hp, hval⟩, hne, hle⟩
      exact ⟨by omega, ⟨p, hp, by omega⟩, by omega⟩
  refine (setPrioHandle_spec hcommand k spare).imp fun g _ ⟨hyes, hno⟩ => ?_
  rw [hinProcess, hinPriority] at hyes hno
  refine ⟨fun h => ⟨hyes (hvalid.mpr h), ?_⟩, fun h => hno fun hv => h (hvalid.mp hv)⟩
  obtain ⟨⟨p, hp, hval⟩, hne, hle⟩ := h
  exact Proper.arrives ⟨by omega, ⟨p, hp, by omega⟩, by omega⟩

end
end

/-- Whatever has come in before, `%WShh:mm:ss` typed with any digits sends one command, to the wall clock process, and in
    every state the clock is set to the time typed, and shows just that, or stays as it is. The seconds are not
    looked at. -/
theorem typed_time {map : UInt8 → Nat} {before typed : List KcdEvent} {w : Watch} {hour min sec : Nat}
    (hw : exec Watch.step (.start map) before = some w) (hnone : w.seen.typed = none)
    (hlookup : w.seen.registered.lookup (letter 'W') = some wcPid.val) (hhour : hour < 100) (hmin : min < 100)
    (hsec : sec < 100) (htyped : Keystrokes typed (typedCommand (letter 'W' :: letter 'S' :: timeChars hour min sec))) :
    ∃ w' m, exec Watch.step w typed = some w' ∧ w'.seen = w.seen ∧ commandsSent (w.acts typed) = [(wcPid.val, m)] ∧
      ∀ s, (clockHandle s m.delivered).Sat fun g s' => SetsTime hour min sec s g s' := by
  obtain ⟨w', block, hw', hseen, hsent⟩ :=
    (sound_of_exec hw).command hnone hlookup (carriageReturn_not_mem_timeChars hhour hmin hsec) htyped
  exact ⟨w', _, hw', hseen, hsent, clockHandle_setsTime hhour hmin hsec rfl rfl⟩

/-- The wall clock process has registered `W`, and 07:59:30 is typed. -/
theorem typed_time_morning :
    let typed := (typedCommand (letter 'W' :: letter 'S' :: timeChars 7 59 30)).map fun c =>
      KcdEvent.mk (keystroke c) emptyBlock
    ∃ w w' m, exec Watch.step (.start fun _ => 0) [⟨registration wcPid.val 87, emptyBlock⟩] = some w ∧
      exec Watch.step w typed = some w' ∧ commandsSent (w.acts typed) = [(wcPid.val, m)] ∧
      ((clockHandle .start m.delivered).answered clockReply ()).2 = ⟨7, 59, 30, true⟩ := by
  intro typed
  have htyped : Keystrokes typed (typedCommand (letter 'W' :: letter 'S' :: timeChars 7 59 30)) :=
    List.forall₂_map_left_iff.mpr (List.forall₂_same.mpr fun c _ => ⟨rfl, rfl⟩)
  have hfirst : exec Watch.step (.start fun _ => 0) [⟨registration wcPid.val 87, emptyBlock⟩] =
      some ⟨{ Kcd.start (fun _ => 0) with map := Function.update (fun _ => 0) 87 wcPid.val }, [(87, wcPid.val)],
        none⟩ := rfl
  obtain ⟨w', m, hw', -, hsent, hclock⟩ := typed_time hfirst rfl rfl (by decide) (by decide) (by decide) htyped
  have hset := (hclock .start _ _ (Prog.does_answered clockReply _ ())).accepted (by decide)
  exact ⟨_, w', m, hfirst, hw', hsent, hset.1⟩

/-- In every state reachable after the start, and whatever has come in before, `%C pp q` typed with any digits sends one
    command, to the priority process, which asks the kernel for just that process and priority when the process exists and
    the priority is one of the four, and otherwise displays them in an error message. -/
theorem typed_priority (k₀ : Kernel) :
    ∃ k, startScheduler k₀ = .switched k ∧ ∀ deeds : List Deed, Throughout Deed.after (fun k =>
      ∀ (map : UInt8 → Nat) (before typed : List KcdEvent) (w : Watch) (pid priority : Nat) (separator : UInt8),
        exec Watch.step (.start map) before = some w → w.seen.typed = none →
        w.seen.registered.lookup (letter 'C') = some setPrioPid.val →
        pid < 100 → priority < 10 → separator ≠ carriageReturn →
        Keystrokes typed (typedCommand (letter 'C' :: letter ' ' :: priorityChars pid separator priority)) →
        ∃ w' m, exec Watch.step w typed = some w' ∧ w'.seen = w.seen ∧ commandsSent (w.acts typed) = [(setPrioPid.val, m)] ∧
          ∀ spare, (setPrioHandle k spare m.delivered).Sat fun g _ => SetsPriority k pid priority g) k deeds := by
  obtain ⟨k, hs, h⟩ := startScheduler_spec k₀
  refine ⟨k, hs, fun deeds => ?_⟩
  refine (h.tableSet.throughout deeds).imp
    fun k hk map before typed w pid priority separator hw hnone hlookup hpid hprio hsep htyped => ?_
  obtain ⟨w', block, hw', hseen, hsent⟩ :=
    (sound_of_exec hw).command hnone hlookup (carriageReturn_not_mem_priorityChars hpid hprio hsep) htyped
  exact ⟨w', _, hw', hseen, hsent, setPrioHandle_setsPriority hk hpid hprio rfl rfl⟩

/-- The priority process has registered `C`, and process 1 is given the priority 2. -/
theorem typed_priority_low :
    let typed := (typedCommand (letter 'C' :: letter ' ' :: priorityChars 1 (letter ' ') 2)).map fun c =>
      KcdEvent.mk (keystroke c) emptyBlock
    ∃ k w w' m, startScheduler zeroed = .switched k ∧
      exec Watch.step (.start fun _ => 0) [⟨registration setPrioPid.val 67, emptyBlock⟩] = some w ∧
      exec Watch.step w typed = some w' ∧ commandsSent (w.acts typed) = [(setPrioPid.val, m)] ∧
      (setPrioHandle k firstBlock m.delivered).Sat fun g _ => settings g = [(1, 2)] ∧ Arrives 1 2 := by
  intro typed
  have htyped : Keystrokes typed (typedCommand (letter 'C' :: letter ' ' :: priorityChars 1 (letter ' ') 2)) :=
    List.forall₂_map_left_iff.mpr (List.forall₂_same.mpr fun c _ => ⟨rfl, rfl⟩)
  have hfirst : exec Watch.step (.start fun _ => 0) [⟨registration setPrioPid.val 67, emptyBlock⟩] =
      some ⟨{ Kcd.start (fun _ => 0) with map := Function.update (fun _ => 0) 67 setPrioPid.val }, [(67, setPrioPid.val)],
        none⟩ := rfl
  obtain ⟨k, hk, hall⟩ := typed_priority zeroed
  obtain ⟨k', hk', h⟩ := startScheduler_spec zeroed
  cases hk.symm.trans hk'
  obtain ⟨w', m, hw', -, hsent, hsets⟩ :=
    (hall []).first _ _ typed _ 1 2 (letter ' ') hfirst rfl rfl (by decide) (by decide) (by decide) htyped
  have hcreated : k.Created ⟨1, by decide⟩ := h.created_iff.mpr (Or.inr (by decide))
  exact ⟨k, _, w', m, hk, hfirst, hw', hsent, (hsets firstBlock).imp fun g _ hg =>
    hg.accepted ⟨⟨⟨1, by decide⟩, hcreated, rfl⟩, by decide, by decide⟩⟩

end DoorRtos
