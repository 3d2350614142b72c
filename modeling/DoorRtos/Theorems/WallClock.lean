import DoorRtos.WallClock

/-! What the wall clock process does with a message, and the time that it shows. -/

namespace DoorRtos
open Interaction

namespace Clock

/-- The clock shows a time of the day. -/
structure InRange (s : Clock) : Prop where
  hour : 0 ≤ s.hour ∧ s.hour < 24
  min : 0 ≤ s.min ∧ s.min < 60
  sec : 0 ≤ s.sec ∧ s.sec < 60

/-- The seconds since midnight. -/
def seconds (s : Clock) : Nat := (3600 * s.hour + 60 * s.min + s.sec).toNat

end Clock

/-- What can become of the clock when a message comes: the clock afterwards, the delays of the messages that it sends to
    itself, and the texts that it displays. -/
inductive Reaction (s : Clock) (env : Envelope) : Clock → List Int → List (List Nat) → Prop
  | set (hasks : env.Asks 'S') (htime : env.IsTime) :
    Reaction s env ⟨env.inHour, env.inMin, env.inSec, true⟩ [100] [clockText env.inHour env.inMin env.inSec]
  | refused (hasks : env.Asks 'S') (htime : ¬env.IsTime) : Reaction s env s [] []
  | shown (hasks : env.Asks 'C') : Reaction s env s [] [clockText s.hour s.min s.sec]
  | stopped (hasks : env.Asks 'T') : Reaction s env { s with wallClockOn := false } [] []
  | advanced (htimer : env.senderPid = timerPid.val) (hon : s.wallClockOn = true) :
    Reaction s env s.increment [100] [clockText s.increment.hour s.increment.min s.increment.sec]
  | ignored (hasks : ¬env.Asks 'S') (hoff : ¬(env.senderPid = timerPid.val ∧ s.wallClockOn = true)) : Reaction s env s [] []

/-- The history displays these texts and nothing else. -/
def Displays (h : History Op Ans) (texts : List (List Nat)) : Prop :=
  ∀ m : Sheet, (h.foldl Sheet.note m).texts = m.texts ++ texts

/-- The history receives nothing, sends delayed messages with these delays and displays these texts. -/
structure Effects (g : History ClockOp ClockAns) (ds : List Int) (texts : List (List Nat)) : Prop where
  received : received (basics g) = []
  delays : delays g = ds
  displays : Displays (basics g) texts

section
variable {s s' s₁ : Clock} {env : Envelope} {h h₁ h₂ : History Op Ans} {g g₁ g₂ : History ClockOp ClockAns}
  {ms : List Envelope} {n : Nat} {b : Addr} {α : Type} {p : Proc α} {a : α}
  {ds ds₁ ds₂ : List Int} {ts ts₁ ts₂ : List (List Nat)}

/-! ### Histories -/

@[simp] theorem basics_append : basics (g₁ ++ g₂) = basics g₁ ++ basics g₂ := List.filterMap_append

@[simp] theorem delays_append : delays (g₁ ++ g₂) = delays g₁ ++ delays g₂ := List.filterMap_append

@[simp] theorem basics_cons_basic {op : Op} {x : Ans op} : basics (⟨.basic op, x⟩ :: g) = ⟨op, x⟩ :: basics g := rfl

@[simp] theorem delays_cons_basic {op : Op} {x : Ans op} : delays (⟨.basic op, x⟩ :: g) = delays g := rfl

@[simp] theorem basics_cons_delayedSend {q : PcbRef} {d : Int} {x : ClockAns (.delayedSend q b d)} :
    basics (⟨.delayedSend q b d, x⟩ :: g) = basics g := rfl

@[simp] theorem delays_cons_delayedSend {q : PcbRef} {d : Int} {x : ClockAns (.delayedSend q b d)} :
    delays (⟨.delayedSend q b d, x⟩ :: g) = d :: delays g := rfl

theorem Displays.nil : Displays [] [] := fun _ => (List.append_nil _).symm

theorem Displays.append (h₁' : Displays h₁ ts₁) (h₂' : Displays h₂ ts₂) :
    Displays (h₁ ++ h₂) (ts₁ ++ ts₂) := fun m => by
  rw [List.foldl_append, h₂', h₁', List.append_assoc]

theorem Displays.eq_textsShown (hd : Displays h ts) : textsShown h = ts := hd _

theorem lift_request_bind (f : Addr → ClockProc α) :
    (liftM requestMemoryBlock >>= f) = Prog.call (ClockOp.basic .requestMemoryBlock) f := rfl

theorem lift_store_bind (b : Addr) (field : Field) (value : Nat) (f : Unit → ClockProc α) :
    (liftM (store b field value) >>= f) = Prog.call (ClockOp.basic (.store b field value)) f := rfl

/-- A program of the other processes, run by this one, sends no delayed messages. -/
theorem does_lift (hd : (liftM p : ClockProc α).Does g a) : p.Does (basics g) a ∧ delays g = [] := by
  induction p generalizing g with
  | ret a' =>
    obtain ⟨rfl, rfl⟩ := Prog.does_ret.mp hd
    exact ⟨.ret _, rfl⟩
  | call op next ih =>
    obtain ⟨x, g', rfl, hd'⟩ := Prog.does_call.mp hd
    obtain ⟨hbasic, hdelays⟩ := ih x hd'
    exact ⟨.call hbasic, hdelays⟩

theorem Sat.lift {Q : History Op Ans → α → Prop} (hp : p.Sat Q) :
    (liftM p : ClockProc α).Sat fun g a => Q (basics g) a ∧ delays g = [] := fun _ a hd =>
  ⟨hp _ a (does_lift hd).1, (does_lift hd).2⟩

/-! ### Displaying a text -/

theorem storeText_notes (b : Addr) (i : Nat) (cs : List Nat) :
    (storeText b i cs).Sat fun h _ => received h = [] ∧ settings h = [] ∧ ∀ m : Sheet, h.foldl Sheet.note m = { m with
      data := Function.update m.data b fun j => if i ≤ j ∧ j < i + cs.length then cs.getD (j - i) 0 else m.data b j } := by
  induction cs generalizing i with
  | nil =>
    refine .ret ⟨rfl, rfl, fun m => ?_⟩
    have hsame : (fun j => if i ≤ j ∧ j < i + ([] : List Nat).length then ([] : List Nat).getD (j - i) 0 else m.data b j) =
        m.data b := funext fun j => if_neg (by simp)
    rw [hsame, Function.update_eq_self]
    rfl
  | cons c cs ih =>
    refine .call fun _ => (ih (i + 1)).imp fun h _ ⟨hrec, hset, hnote⟩ => ⟨hrec, hset, fun m => ?_⟩
    rw [List.foldl_cons, hnote]
    unfold Sheet.note
    simp only [Function.update_idem, Function.update_self]
    congr 2
    funext j
    rcases Nat.lt_trichotomy j i with hlt | rfl | hgt
    · rw [if_neg (by omega), if_neg (by omega), Function.update_of_ne (by omega)]
    · rw [if_neg (by omega), Function.update_self, if_pos ⟨Nat.le_refl _, by simp⟩, Nat.sub_self]
      rfl
    · simp only [List.length_cons]
      rw [Function.update_of_ne (by omega)]
      have hsub : j - i = (j - (i + 1)) + 1 := by omega
      rw [hsub, List.getD_cons_succ]
      by_cases hj : j < i + 1 + cs.length
      · rw [if_pos ⟨hgt, hj⟩, if_pos ⟨Nat.le_of_lt hgt, by omega⟩]
      · rw [if_neg (fun h => hj h.2), if_neg (fun h => hj (by omega))]

/-- A text that is stored into an envelope from its first byte on, and sent to the CRT process with its length, is
    displayed. -/
theorem message_displays (b : Addr) (text : List Nat) :
    Prog.Sat (do
      storeText b 0 text
      store b .size text.length
      store b .type MessType.crtDisplayNoPrompt
      sendMessage crtPid b) fun h _ => received h = [] ∧ settings h = [] ∧ Displays h [text] := by
  refine .bind (storeText_notes b 0 text) fun h _ ⟨hrec, hset, hnote⟩ =>
    .call fun _ => .call fun _ => .call fun _ => .ret ?_
  refine ⟨by rw [received_append, hrec]; rfl, by rw [settings_append, hset]; rfl, fun m => ?_⟩
  rw [List.foldl_append, hnote]
  simp only [List.foldl_cons, List.foldl_nil, Sheet.note, if_true, Function.update_self]
  congr 2
  refine List.ext_getElem (by simp) fun i hi hi' => ?_
  rw [List.getElem_map, List.getElem_range, if_pos ⟨Nat.zero_le i, by omega⟩, Nat.sub_zero, List.getD_eq_getElem?_getD,
    List.getElem?_eq_getElem hi']
  rfl

theorem outputClock_displays (b : Addr) (outHour outMin outSec : Int) :
    (outputClock b outHour outMin outSec).Sat fun h _ =>
      received h = [] ∧ Displays h [clockText outHour outMin outSec] :=
  (message_displays b (clockText outHour outMin outSec)).imp fun _ _ ⟨hrec, _, hdis⟩ => ⟨hrec, hdis⟩

/-! ### One message -/

theorem Effects.nil : Effects [] [] [] := ⟨rfl, rfl, .nil⟩

theorem Effects.append (h₁' : Effects g₁ ds₁ ts₁) (h₂' : Effects g₂ ds₂ ts₂) :
    Effects (g₁ ++ g₂) (ds₁ ++ ds₂) (ts₁ ++ ts₂) where
  received := by rw [basics_append, received_append, h₁'.received, h₂'.received, List.append_nil]
  delays := by rw [delays_append, h₁'.delays, h₂'.delays]
  displays := by
    rw [basics_append]
    exact h₁'.displays.append h₂'.displays

theorem Effects.request (h' : Effects g ds ts) : Effects (⟨.basic .requestMemoryBlock, b⟩ :: g) ds ts :=
  ⟨h'.received, h'.delays, fun m => h'.displays m⟩

theorem Effects.storeType {v : Nat} {x : Ans (.store b .type v)} (h' : Effects g ds ts) :
    Effects (⟨.basic (.store b .type v), x⟩ :: g) ds ts := ⟨h'.received, h'.delays, fun m => h'.displays m⟩

theorem Effects.delayedSend {q : PcbRef} {d : Int} {x : ClockAns (.delayedSend q b d)} (h' : Effects g ds ts) :
    Effects (⟨.delayedSend q b d, x⟩ :: g) (d :: ds) ts := ⟨h'.received, congrArg (d :: ·) h'.delays, h'.displays⟩

theorem outputClock_effects (b : Addr) (outHour outMin outSec : Int) :
    (liftM (outputClock b outHour outMin outSec) : ClockProc Unit).Sat fun g _ =>
      Effects g [] [clockText outHour outMin outSec] :=
  (Sat.lift (outputClock_displays b outHour outMin outSec)).imp fun _ _ ⟨⟨hrec, hdis⟩, hdel⟩ => ⟨hrec, hdel, hdis⟩

/-- What the handling of a message can look like. -/
theorem clockHandle_reaction (s : Clock) (env : Envelope) :
    (clockHandle s env).Sat fun g s' => ∃ ds ts, Reaction s env s' ds ts ∧ Effects g ds ts := by
  unfold clockHandle delayedSend
  simp only [lift_request_bind, lift_store_bind, Prog.perform_bind]
  split
  next hasks =>
    split
    next htime =>
      refine .call fun b => .call fun _ => .bind (outputClock_effects b _ _ _) fun g _ heff =>
        .call fun b' => .call fun _ => .call fun _ => .ret ?_
      exact ⟨_, _, .set hasks htime, .request (.storeType (heff.append (.request (.storeType (.delayedSend .nil)))))⟩
    next htime => exact .ret ⟨_, _, .refused hasks htime, .nil⟩
  next hasks =>
    split
    next hshow =>
      refine .call fun b => .bind (outputClock_effects b _ _ _) fun g _ heff => .ret ?_
      exact ⟨_, _, .shown hshow, .request (heff.append .nil)⟩
    next =>
      split
      next hstop => exact .ret ⟨_, _, .stopped hstop, .nil⟩
      next =>
        split
        next hon =>
          refine .call fun b => .bind (outputClock_effects b _ _ _) fun g _ heff =>
            .call fun b' => .call fun _ => .call fun _ => .ret ?_
          exact ⟨_, _, .advanced hon.1 hon.2, .request (heff.append (.request (.storeType (.delayedSend .nil))))⟩
        next hoff => exact .ret ⟨_, _, .ignored hasks hoff, .nil⟩

/-! ### The loops -/

theorem wallClockLoop_succ (n : Nat) (s : Clock) :
    wallClockLoop (n + 1) s = .call (ClockOp.basic .receiveMessage) fun envIn => match envIn with
      | some env => clockHandle s env >>= fun s =>
        .call (ClockOp.basic (.releaseMemoryBlock env.addr)) fun _ => wallClockLoop n s
      | none => .call (ClockOp.basic .releaseProcessor) fun _ => wallClockLoop n s := by
  conv_lhs => unfold wallClockLoop
  refine congrArg (Prog.call (ClockOp.basic .receiveMessage)) (funext fun envIn => ?_)
  cases envIn <;> rfl

theorem wallClockLoop_some (h₁ : (clockHandle s env).Does g₁ s₁) (h₂ : (wallClockLoop n s₁).Does g₂ s') :
    (wallClockLoop (n + 1) s).Does
      (⟨.basic .receiveMessage, some env⟩ :: (g₁ ++ ⟨.basic (.releaseMemoryBlock env.addr), ()⟩ :: g₂)) s' := by
  rw [wallClockLoop_succ]
  exact .call (Prog.does_bind.mpr ⟨g₁, s₁, _, rfl, h₁, .call h₂⟩)

theorem received_some (heff : Effects g₁ ds ts) :
    received (basics (⟨.basic .receiveMessage, some env⟩ ::
      (g₁ ++ ⟨.basic (.releaseMemoryBlock env.addr), ()⟩ :: g₂))) = env :: received (basics g₂) := by
  rw [basics_cons_basic, basics_append, basics_cons_basic]
  show env :: received (basics g₁ ++ _) = _
  rw [received_append, heff.received]
  rfl

theorem received_none (g : History ClockOp ClockAns) :
    received (basics (⟨.basic .receiveMessage, none⟩ :: ⟨.basic .releaseProcessor, ()⟩ :: g)) = received (basics g) := rfl

/-- A property of the clock before, the history and the clock behind it holds of the loops when it holds of no round,
    when a round without a message keeps it, and when a round that handles one does. -/
theorem wallClockLoop_sat {I : Clock → History ClockOp ClockAns → Clock → Prop} (hnil : ∀ s, I s [] s)
    (hnone : ∀ s g s', I s g s' → I s (⟨.basic .receiveMessage, none⟩ :: ⟨.basic .releaseProcessor, ()⟩ :: g) s')
    (hsome : ∀ s env g₁ s₁ g₂ s', (clockHandle s env).Does g₁ s₁ → I s₁ g₂ s' →
      I s (⟨.basic .receiveMessage, some env⟩ :: (g₁ ++ ⟨.basic (.releaseMemoryBlock env.addr), ()⟩ :: g₂)) s')
    (n : Nat) (s : Clock) : (wallClockLoop n s).Sat (I s) := by
  induction n generalizing s with
  | zero => exact .ret (hnil s)
  | succ n ih =>
    rw [wallClockLoop_succ]
    refine .call fun envIn => ?_
    cases envIn with
    | none => exact .call fun _ => (ih s).imp fun g s' hI => hnone s g s' hI
    | some env =>
      exact .bind (Q := fun g₁ s₁ => (clockHandle s env).Does g₁ s₁) (fun _ _ hd => hd) fun g₁ s₁ hd =>
        .call fun _ => (ih s₁).imp fun g₂ s' hI => hsome s env g₁ s₁ g₂ s' hd hI

instance (op : Op) : Nonempty (Ans op) := by
  cases op with
  | receiveMessage => exact ⟨none⟩
  | requestMemoryBlock => exact ⟨firstBlock⟩
  | _ => exact ⟨()⟩

instance (op : ClockOp) : Nonempty (ClockAns op) := by
  cases op with
  | basic op => exact (inferInstance : Nonempty (Ans op))
  | delayedSend => exact ⟨()⟩

def clockOpening : ClockProc Unit := do
  registerCommand wcPid.val 'W'.toNat
  let envOut ← requestMemoryBlock
  store envOut .type 0

theorem wallClockProcess_eq (n : Nat) : wallClockProcess n = clockOpening >>= fun _ => wallClockLoop n .start := rfl

theorem clockOpening_effects : clockOpening.Sat fun g _ => Effects g [] [] :=
  .call fun _ => .call fun _ => .call fun _ => .call fun _ => .call fun _ => .call fun _ => .call fun _ =>
    .ret ⟨rfl, rfl, fun m => (List.append_nil m.texts).symm⟩

theorem wallClockProcess_does (hd : (wallClockProcess n).Does g s') :
    ∃ g', (wallClockLoop n .start).Does g' s' ∧ received (basics g) = received (basics g') := by
  rw [wallClockProcess_eq] at hd
  obtain ⟨g₁, _, g₂, rfl, h₁, h₂⟩ := Prog.does_bind.mp hd
  refine ⟨g₂, h₂, ?_⟩
  rw [basics_append, received_append, (clockOpening_effects g₁ _ h₁).received, List.nil_append]

theorem exists_wallClockProcess (hd : (wallClockLoop n .start).Does g s') :
    ∃ g', (wallClockProcess n).Does g' s' ∧ received (basics g') = received (basics g) := by
  obtain ⟨g₁, a, h₁⟩ := Prog.exists_does clockOpening
  refine ⟨g₁ ++ g, ?_, ?_⟩
  · rw [wallClockProcess_eq]
    exact Prog.does_bind.mpr ⟨g₁, a, g, rfl, h₁, hd⟩
  · rw [basics_append, received_append, (clockOpening_effects g₁ a h₁).received, List.nil_append]

theorem exists_round (s : Clock) (env : Envelope) :
    ∃ g s' ds ts, (clockHandle s env).Does g s' ∧ Reaction s env s' ds ts ∧ Effects g ds ts := by
  obtain ⟨g, s', hd⟩ := Prog.exists_does (clockHandle s env)
  obtain ⟨ds, ts, hreact, heff⟩ := clockHandle_reaction s env g s' hd
  exact ⟨g, s', ds, ts, hd, hreact, heff⟩

/-- The loops can receive any messages, and handle another one after them. -/
theorem exists_wallClockLoop (ms : List Envelope) (env : Envelope) (s : Clock) :
    ∃ g s₁ s' ds ts, (wallClockLoop (ms.length + 1) s).Does g s' ∧ received (basics g) = ms ++ [env] ∧
      Reaction s₁ env s' ds ts := by
  induction ms generalizing s with
  | nil =>
    obtain ⟨g, s', ds, ts, hd, hreact, heff⟩ := exists_round s env
    exact ⟨_, s, s', ds, ts, wallClockLoop_some hd (.ret s'), received_some heff, hreact⟩
  | cons x ms ih =>
    obtain ⟨g₁, s₁, ds₁, ts₁, hd₁, -, heff₁⟩ := exists_round s x
    obtain ⟨g, s₂, s', ds, ts, hd, hrec, hreact⟩ := ih s₁
    exact ⟨_, s₂, s', ds, ts, wallClockLoop_some hd₁ hd, by rw [received_some heff₁, hrec]; rfl, hreact⟩

/-! ### The range of the clock -/

theorem Clock.InRange.increment (hs : s.InRange) :
    s.increment.InRange ∧ s.increment.seconds = (s.seconds + 1) % 86400 := by
  obtain ⟨⟨hh, hh'⟩, ⟨hm, hm'⟩, hsec, hsec'⟩ := hs
  unfold Clock.increment Clock.seconds
  dsimp only
  split
  · split
    · split
      · exact ⟨⟨by simp, by simp, by simp⟩, by dsimp only; omega⟩
      · exact ⟨⟨⟨by dsimp only; omega, by dsimp only; omega⟩, by simp, by simp⟩, by dsimp only; omega⟩
    · exact ⟨⟨⟨hh, hh'⟩, ⟨by dsimp only; omega, by dsimp only; omega⟩, by simp⟩, by dsimp only; omega⟩
  · exact ⟨⟨⟨hh, hh'⟩, ⟨hm, hm'⟩, by dsimp only; omega, by dsimp only; omega⟩, by dsimp only; omega⟩

/-- A set command that is accepted gives seconds below 60. -/
def Envelope.FitsSeconds (env : Envelope) : Prop := env.Asks 'S' → env.IsTime → env.inSec < 60

theorem Reaction.inRange (h : Reaction s env s' ds ts) (hs : s.InRange) (hfits : env.FitsSeconds) : s'.InRange := by
  cases h with
  | set hasks htime => exact ⟨htime.1, htime.2.1, htime.2.2.1, hfits hasks htime⟩
  | stopped => exact ⟨hs.hour, hs.min, hs.sec⟩
  | advanced => exact hs.increment.1
  | _ => exact hs

theorem wallClockLoop_inRange (n : Nat) (s : Clock) : (wallClockLoop n s).Sat fun g s' =>
    s.InRange → (∀ env ∈ received (basics g), env.FitsSeconds) → s'.InRange := by
  refine wallClockLoop_sat (I := fun s g s' => s.InRange → (∀ env ∈ received (basics g), env.FitsSeconds) → s'.InRange)
    (fun s hs _ => hs) (fun s g s' hI hs hfits => hI hs (received_none g ▸ hfits)) ?_ n s
  intro s env g₁ s₁ g₂ s' hd hI hs hfits
  obtain ⟨ds, ts, hreact, heff⟩ := clockHandle_reaction s env g₁ s₁ hd
  rw [received_some heff] at hfits
  obtain ⟨henv, hrest⟩ := List.forall_mem_cons.mp hfits
  exact hI (hreact.inRange hs henv) hrest

/-- The clock is in range in every state that the process reaches on a sequence of messages, exactly when every set
    command of it that is accepted gives seconds below 60. -/
theorem wallClock_inRange_iff (ms : List Envelope) :
    (∀ n g s, (wallClockProcess n).Does g s → received (basics g) <+: ms → s.InRange) ↔ ∀ env ∈ ms, env.FitsSeconds := by
  constructor
  · intro hall env hmem hasks htime
    obtain ⟨pre, post, rfl⟩ := List.append_of_mem hmem
    obtain ⟨g, s₁, s', ds, ts, hd, hrec, hreact⟩ := exists_wallClockLoop pre env .start
    obtain ⟨g', hd', hrec'⟩ := exists_wallClockProcess hd
    have hstart : received (basics g') <+: pre ++ env :: post := by
      rw [hrec', hrec]
      exact ⟨post, by rw [List.append_assoc]; rfl⟩
    have hrange := hall _ g' s' hd' hstart
    cases hreact with
    | set => exact hrange.sec.2
    | refused _ hno => exact absurd htime hno
    | shown hshow => exact absurd (hasks.2.symm.trans hshow.2) (by decide)
    | stopped hstop => exact absurd (hasks.2.symm.trans hstop.2) (by decide)
    | advanced htimer => exact absurd (hasks.1.symm.trans htimer) (by decide)
    | ignored hno => exact absurd hasks hno
  · intro hfits n g s hd hstart
    obtain ⟨g', hd', hrec⟩ := wallClockProcess_does hd
    refine wallClockLoop_inRange n .start g' s hd' ⟨by decide, by decide, by decide⟩ fun env henv => ?_
    exact hfits env (hstart.subset (hrec ▸ henv))

end

def setCommand (addr : Addr) (time : List UInt8) : Envelope := textMessage addr 0 ([87, 83] ++ time)

/-- The command `WS00:00:99` is accepted. -/
theorem wallClock_99_seconds :
    ∃ n g s, (wallClockProcess n).Does g s ∧
      received (basics g) = [setCommand firstBlock [48, 48, 58, 48, 48, 58, 57, 57]] ∧ s.sec = 99 ∧ ¬s.InRange := by
  obtain ⟨g, s₁, s', ds, ts, hd, hrec, hreact⟩ :=
    exists_wallClockLoop [] (setCommand firstBlock [48, 48, 58, 48, 48, 58, 57, 57]) .start
  obtain ⟨g', hd', hrec'⟩ := exists_wallClockProcess hd
  have hsec : s'.sec = 99 := by
    cases hreact with
    | set => decide
    | refused _ hno => exact absurd hno (by decide)
    | shown hshow => exact absurd hshow (by decide)
    | stopped hstop => exact absurd hstop (by decide)
    | advanced htimer => exact absurd htimer (by decide)
    | ignored hno => exact absurd hno (by decide)
  exact ⟨_, g', s', hd', hrec'.trans hrec, hsec, fun hrange => absurd (hsec ▸ hrange.sec.2) (by decide)⟩

end DoorRtos
