import DoorRtos.Theorems.Routing
import DoorRtos.WallClock

/-! What is in a command behind the characters typed. Blocks are not cleared, and the decoder stores no `'\0'`. -/

namespace DoorRtos

/-- A message, and the blocks that two decoders are given if they request one for it. -/
structure TwinEvent where
  kcdMess : Envelope
  left : Envelope
  right : Envelope

/-- Two decoders that receive the same messages. -/
structure Twins where
  left : Watch
  right : Watch

namespace Twins

def start (map : UInt8 → Nat) : Twins := ⟨.start map, .start map⟩

def step (w : Twins) (ev : TwinEvent) : Option Twins := do
  let left ← w.left.step ⟨ev.kcdMess, ev.left⟩
  let right ← w.right.step ⟨ev.kcdMess, ev.right⟩
  return ⟨left, right⟩

/-- `C` holds of the characters typed and of the two envelopes when both send a command. -/
def Commands (C : List UInt8 → Envelope → Envelope → Prop) (w : Twins) (ev : TwinEvent) : Prop :=
  ∀ cs p m p' m', w.left.seen.typed = some cs → .command p m ∈ (w.left.kcd.handle ⟨ev.kcdMess, ev.left⟩).1 →
    .command p' m' ∈ (w.right.kcd.handle ⟨ev.kcdMess, ev.right⟩).1 → C cs m m'

end Twins

/-- The two envelopes have the same bytes up to a `'\0'` behind the characters typed. -/
def SameText (cs : List UInt8) (m m' : Envelope) : Prop :=
  ∃ n, min cs.length maxCommandSize ≤ n ∧ m.data n = 0 ∧ ∀ j ≤ n, m.data j = m'.data j

/-- The envelope as its receiver finds it. -/
def Envelope.delivered (m : Envelope) : Envelope := { m with senderPid := kcdPid.val }

/-- The wall clock process and the priority process do the same with the two envelopes. -/
def SameDecisions (m m' : Envelope) : Prop :=
  (∀ s, clockHandle s m.delivered = clockHandle s m'.delivered) ∧
    ∀ k spare, setPrioHandle k spare m.delivered = setPrioHandle k spare m'.delivered

def Seen.ClosesNothing (g : Seen) (env : Envelope) : Prop := g.typed.isSome → ¬env.Types carriageReturn

/-- Both decoders agree with what has come in, when `B` holds of the blocks that they have been given. -/
structure Twins.Paired (B : Envelope → Prop) (w : Twins) (g : Seen) : Prop where
  left : Agrees B w.left.seen w.left.kcd
  right : Agrees B w.right.seen w.right.kcd
  seenLeft : w.left.seen = g
  seenRight : w.right.seen = g

def Envelope.NeverZero (block : Envelope) : Prop := ∀ j, block.data j ≠ 0

section
variable {B : Envelope → Prop} {g g' : Seen} {w w' : Twins} {e : TwinEvent} {s : Kcd} {ev : KcdEvent} {cs : List UInt8}
  {m m' : Envelope} {p : Nat}

/-! ### What is sent -/

theorem Agrees.of_command (h : Agrees B g s) (ev : KcdEvent) (hB : B ev.block) (hm : .command p m ∈ (s.handle ev).1) :
    ∃ (cs : List UInt8) (block : Envelope), g.typed = some cs ∧ ev.kcdMess.Types carriageReturn ∧
      m = { block with data := filled block.data cs } := by
  have hround := h.handle hB
  generalize s.handle ev = r at hround hm
  cases hround with
  | @closed cs block t hopen hcr =>
    simp only [List.mem_cons, reduceCtorEq, KcdAct.command.injEq, List.not_mem_nil, or_false, false_or] at hm
    exact ⟨cs, block, hopen, hcr, hm.2⟩
  | displayed hacts => cases hacts _ hm
  | _ => simp at hm

theorem Agrees.exists_command (h : Agrees B g s) (ev : KcdEvent) (hB : B ev.block) (hopen : g.typed = some cs)
    (hcr : ev.kcdMess.Types carriageReturn) :
    ∃ (p : Nat) (block : Envelope), B block ∧ .command p { block with data := filled block.data cs } ∈ (s.handle ev).1 := by
  obtain ⟨block, t, hblock, -, hr⟩ := (h.handle hB).eq_of_closing hopen hcr
  rw [hr]
  exact ⟨_, block, hblock, List.mem_cons_of_mem _ List.mem_cons_self⟩

/-! ### What the receivers read -/

theorem charAt_congr {data data' : Nat → UInt8} {i : Nat} (h : data i = data' i) : charAt data i = charAt data' i := by
  unfold charAt
  rw [h]

/-- They read nothing behind the tenth byte. -/
theorem sameDecisions_of_eq (h : ∀ i < 10, m.data i = m'.data i) : SameDecisions m m' := by
  have hchar : ∀ i < 10, charAt m.delivered.data i = charAt m'.delivered.data i := fun i hi => charAt_congr (h i hi)
  have hhour : m.delivered.inHour = m'.delivered.inHour := by
    unfold Envelope.inHour
    rw [hchar 2 (by decide), hchar 3 (by decide)]
  have hmin : m.delivered.inMin = m'.delivered.inMin := by
    unfold Envelope.inMin
    rw [hchar 5 (by decide), hchar 6 (by decide)]
  have hsec : m.delivered.inSec = m'.delivered.inSec := by
    unfold Envelope.inSec
    rw [hchar 8 (by decide), hchar 9 (by decide)]
  have hprocess : m.delivered.inProcess = m'.delivered.inProcess := by
    unfold Envelope.inProcess
    rw [hchar 2 (by decide), hchar 3 (by decide)]
  have hpriority : m.delivered.inPriority = m'.delivered.inPriority := by
    unfold Envelope.inPriority
    rw [hchar 5 (by decide)]
  have hone : m.delivered.data 1 = m'.delivered.data 1 := h 1 (by decide)
  have hsender : m.delivered.senderPid = m'.delivered.senderPid := rfl
  have hasks : ∀ c, m.delivered.Asks c ↔ m'.delivered.Asks c := fun c => by
    unfold Envelope.Asks
    rw [hone, hsender]
  have htime : m.delivered.IsTime ↔ m'.delivered.IsTime := by
    unfold Envelope.IsTime
    rw [hhour, hmin, hsec]
  have hcommand : m.delivered.IsCommand ↔ m'.delivered.IsCommand := by
    unfold Envelope.IsCommand
    rw [hone, hsender]
  have hvalid : ∀ k, m.delivered.IsValid k ↔ m'.delivered.IsValid k := fun k => by
    unfold Envelope.IsValid
    rw [hprocess, hpriority]
  constructor
  · intro s
    simp only [clockHandle, hasks, htime, hhour, hmin, hsec, hsender]
  · intro k spare
    simp only [setPrioHandle, hcommand, hvalid, hprocess, hpriority]

/-! ### Two runs -/

theorem Twins.paired_start (B : Envelope → Prop) (map : UInt8 → Nat) : Paired B (.start map) .start :=
  ⟨agrees_start B map, agrees_start B map, rfl, rfl⟩

theorem Twins.Paired.kept (h : w.Paired B g) (hleft : B e.left) (hright : B e.right) (hs : w.step e = some w') :
    ∃ g', g.step e.kcdMess = some g' ∧ w'.Paired B g' := by
  obtain ⟨left, hl, hs⟩ := Option.bind_eq_some_iff.mp hs
  obtain ⟨right, hr, hs⟩ := Option.bind_eq_some_iff.mp hs
  cases hs
  obtain ⟨hseen, hagrees⟩ := h.left.kept ⟨e.kcdMess, e.left⟩ hleft hl
  obtain ⟨hseen', hagrees'⟩ := h.right.kept ⟨e.kcdMess, e.right⟩ hright hr
  rw [h.seenLeft] at hseen
  rw [h.seenRight] at hseen'
  exact ⟨left.seen, hseen, hagrees, hagrees', rfl, Option.some.inj (hseen'.symm.trans hseen)⟩

theorem Twins.Paired.goes (h : w.Paired B g) (hleft : B e.left) (hright : B e.right) (hs : g.step e.kcdMess = some g') :
    ∃ w', w.step e = some w' ∧ w'.Paired B g' := by
  have hbelow : e.kcdMess.Registers → e.kcdMess.data 0 < 128 := fun hreg => by
    by_contra hc
    cases (if_pos ⟨hreg, hc⟩ : g.step e.kcdMess = none).symm.trans hs
  obtain ⟨left, hl⟩ := h.left.goes ⟨e.kcdMess, e.left⟩ hleft hbelow
  obtain ⟨right, hr⟩ := h.right.goes ⟨e.kcdMess, e.right⟩ hright hbelow
  have hw : w.step e = some ⟨left, right⟩ := by
    unfold Twins.step
    rw [hl, hr]
    rfl
  obtain ⟨g₁, hg₁, hpaired⟩ := h.kept hleft hright hw
  cases hg₁.symm.trans hs
  exact ⟨_, hw, hpaired⟩

/-- Without a `'\0'` in the blocks no command ends. -/
theorem Twins.Paired.closesNothing (h : w.Paired Envelope.NeverZero g) (hleft : e.left.NeverZero)
    (hright : e.right.NeverZero)
    (hsame : w.Commands (fun cs m m' => SameText cs m m' ∧ SameDecisions m m') e) : g.ClosesNothing e.kcdMess := by
  intro hsome hcr
  obtain ⟨cs, hopen⟩ := Option.isSome_iff_exists.mp hsome
  have hopenl : w.left.seen.typed = some cs := h.seenLeft ▸ hopen
  have hopenr : w.right.seen.typed = some cs := h.seenRight ▸ hopen
  obtain ⟨p, block, hB, hm⟩ := h.left.exists_command ⟨e.kcdMess, e.left⟩ hleft hopenl hcr
  obtain ⟨p', block', hB', hm'⟩ := h.right.exists_command ⟨e.kcdMess, e.right⟩ hright hopenr hcr
  obtain ⟨⟨n, hn, hzero, -⟩, -⟩ := hsame cs p _ p' _ hopenl hm hm'
  exact hB n ((filled_of_le hn block.data).symm.trans hzero)

theorem Twins.Paired.commands {C : List UInt8 → Envelope → Envelope → Prop} (h : w.Paired (fun _ => True) g)
    (hcloses : g.ClosesNothing e.kcdMess) : w.Commands C e := by
  intro cs p m p' m' hopen hm hm'
  obtain ⟨_, _, -, hcr, -⟩ := h.left.of_command ⟨e.kcdMess, e.left⟩ trivial hm
  have hopen : g.typed = some cs := h.seenLeft ▸ hopen
  exact absurd hcr (hcloses (by rw [hopen]; rfl))

theorem Twins.Paired.decide_alike (h : w.Paired (fun _ => True) g) :
    w.Commands (fun cs m m' => 10 ≤ cs.length → SameDecisions m m') e := by
  intro cs p m p' m' hopen hm hm' hlong
  obtain ⟨_, block, hopenl, -, rfl⟩ := h.left.of_command ⟨e.kcdMess, e.left⟩ trivial hm
  obtain ⟨_, block', hopenr, -, rfl⟩ := h.right.of_command ⟨e.kcdMess, e.right⟩ trivial hm'
  cases hopen.symm.trans hopenl
  cases ((h.seenLeft.trans h.seenRight.symm) ▸ hopen : w.right.seen.typed = some cs).symm.trans hopenr
  refine sameDecisions_of_eq fun i hi => ?_
  have hthere : i < (cs.take maxCommandSize).length := by
    rw [length_take_filled]
    exact Nat.lt_min.mpr ⟨Nat.lt_of_lt_of_le hi hlong, Nat.lt_of_lt_of_le hi (by decide)⟩
  dsimp only
  rw [filled_eq, filled_eq, List.getElem?_eq_getElem hthere]
  rfl

end

def blockOf (c : UInt8) : Envelope := ⟨secondBlock, 0, 0, fun _ => c⟩

/-- The previous contents of the blocks never matter to what the receivers of commands see and decide exactly when no
    command is closed, so that none is sent. -/
theorem kcd_sameText_iff (map : UInt8 → Nat) (messages : List Envelope) :
    (∀ events : List TwinEvent, events.map TwinEvent.kcdMess = messages → Runs.Meets Twins.step
      (Twins.Commands fun cs m m' => SameText cs m m' ∧ SameDecisions m m') (.start map) events) ↔
      Runs.Meets Seen.step Seen.ClosesNothing .start messages := by
  constructor
  · intro hall
    have hone : (blockOf 1).NeverZero := fun _ => (by decide : (1 : UInt8) ≠ 0)
    have htwo : (blockOf 2).NeverZero := fun _ => (by decide : (2 : UInt8) ≠ 0)
    have hmeets := hall (messages.map fun m => ⟨m, blockOf 1, blockOf 2⟩) (by rw [List.map_map]; exact List.map_id messages)
    rw [← List.map_id messages]
    refine Runs.Meets.transfer (R := fun g w => w.Paired Envelope.NeverZero g) ?_ ?_ (Twins.paired_start _ map) hmeets
    · exact fun m g w h hsame => h.closesNothing hone htwo hsame
    · exact fun m g w g' h _ hs => h.goes (e := ⟨m, blockOf 1, blockOf 2⟩) hone htwo hs
  · rintro hcloses events rfl
    rw [← List.map_id events]
    refine Runs.Meets.transfer (R := fun w g => w.Paired (fun _ => True) g) ?_ ?_ (Twins.paired_start _ map) hcloses
    · exact fun e w g h hnone => h.commands hnone
    · exact fun e w g w' h _ hs => h.kept trivial trivial hs

/-- `%WS1` is typed. A block that ends in `2:34:56` sets the clock to 12:34:56, and one of zeros does not set it. -/
theorem kcd_stale_time :
    let old := textMessage secondBlock 0 [0, 0, 0, 50, 58, 51, 52, 58, 53, 54]
    let typed := [registration wcPid.val 87, keystroke 37, keystroke 87, keystroke 83, keystroke 49].map fun e =>
      TwinEvent.mk e old (blockOf 0)
    let closing := TwinEvent.mk (keystroke 13) old (blockOf 0)
    ¬Runs.Meets Twins.step (Twins.Commands fun cs m m' => SameText cs m m' ∧ SameDecisions m m') (.start fun _ => 0)
      (typed ++ [closing]) ∧
    ∃ w m m', Runs.exec Twins.step (.start fun _ => 0) typed = some w ∧
      .command wcPid.val m ∈ (w.left.kcd.handle ⟨closing.kcdMess, closing.left⟩).1 ∧
      .command wcPid.val m' ∈ (w.right.kcd.handle ⟨closing.kcdMess, closing.right⟩).1 ∧
      ((clockHandle .start m.delivered).answered clockReply ()).2 = ⟨12, 34, 56, true⟩ ∧
      ((clockHandle .start m'.delivered).answered clockReply ()).2 = .start := by
  refine ⟨fun hmeets => ?_, _, _, _, rfl, List.mem_cons_of_mem _ List.mem_cons_self,
    List.mem_cons_of_mem _ List.mem_cons_self, by decide, by decide⟩
  have hlast := (hmeets.right rfl).1
  obtain ⟨-, hclock, -⟩ := hlast [87, 83, 49] wcPid.val _ wcPid.val _ rfl (List.mem_cons_of_mem _ List.mem_cons_self)
    (List.mem_cons_of_mem _ List.mem_cons_self)
  have hsame := congrArg (fun p => (Interaction.Prog.answered clockReply p ()).2.sec) (hclock .start)
  exact absurd hsame (by decide)

/-- In every two runs the receivers decide alike on long commands. -/
theorem kcd_longCommands (map : UInt8 → Nat) (events : List TwinEvent) : Runs.Meets Twins.step
    (Twins.Commands fun cs m m' => 10 ≤ cs.length → SameDecisions m m') (.start map) events := by
  refine Runs.meets_of_preserved (I := fun w => ∃ g, w.Paired (fun _ => True) g) ?_ ?_ ⟨_, Twins.paired_start _ map⟩
  · rintro w e ⟨g, h⟩
    exact h.decide_alike
  · rintro w e w' ⟨g, h⟩ hs
    obtain ⟨g', -, h'⟩ := h.kept trivial trivial hs
    exact ⟨g', h'⟩

end DoorRtos
