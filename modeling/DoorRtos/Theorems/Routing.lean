import DoorRtos.Theorems.Destinations
import DoorRtos.Theorems.Keyboard

/-! Commands go to the processes that have registered them, as long as nobody types another one. -/

namespace DoorRtos

/-- The round that closes a command sends it, and nothing else but the echo, to the process that has registered its
    first character last. -/
structure Delivers (w : Watch) (ev : KcdEvent) : Prop where
  command : ∀ c cs pid, w.seen.typed = some (c :: cs) → ev.kcdMess.Types carriageReturn → c < 128 →
    w.seen.registered.lookup c = some pid →
    ∃ m t, w.kcd.handle ev =
        ([.index c, .command pid m, .echo { ev.kcdMess with type := MessType.crtDisplayRequest }], some t) ∧
      (List.range (min (c :: cs).length maxCommandSize)).map m.data = (c :: cs).take maxCommandSize ∧ t.i = 0
  stores : ∀ i c, .stores i c ∈ (w.kcd.handle ev).1 → i < maxCommandSize
  restarts : w.seen.typed = some [] → w.kcd.i = 0

/-- An index is inside of the table, and a command goes to a process that has registered its first character. -/
def KcdAct.Proper (g : Seen) : KcdAct → Prop
  | .index n => n < 128
  | .command pid _ => ∃ c cs, g.typed = some (c :: cs) ∧ (c, pid) ∈ g.registered
  | _ => True

/-- A registration is inside of the table, and a command that is closed has a first character that has been
    registered. -/
structure Seen.Expects (g : Seen) (env : Envelope) : Prop where
  registration : env.Registers → env.data 0 < 128
  command : ∀ cs, g.typed = some cs → env.Types carriageReturn → ∃ c cs' pid, cs = c :: cs' ∧ (c, pid) ∈ g.registered

section
variable {B : Envelope → Prop} {g : Seen} {s t : Kcd} {ev : KcdEvent} {w w' : Watch}

theorem KcdAct.Displays.proper {a : KcdAct} (h : a.Displays) (g : Seen) : a.Proper g := by
  cases a with
  | error | echo => trivial
  | index | stores | command => cases h

theorem mem_of_lookup {c : UInt8} {pid : Nat} (h : g.registered.lookup c = some pid) : (c, pid) ∈ g.registered := by
  obtain ⟨l₁, l₂, hl, -⟩ := List.lookup_eq_some_iff.mp h
  rw [hl]
  exact List.mem_append_right _ List.mem_cons_self

theorem exists_lookup {c : UInt8} {pid : Nat} (h : (c, pid) ∈ g.registered) : ∃ pid', g.registered.lookup c = some pid' :=
  Option.isSome_iff_exists.mp (List.lookup_isSome_iff.mpr ⟨(c, pid), h, beq_self_eq_true c⟩)

theorem Agrees.delivers (h : Agrees B w.seen w.kcd) (hB : B ev.block) : Delivers w ev := by
  have hround := h.handle hB
  refine ⟨fun c cs pid hopen hcr hc hlookup => ?_, fun i c hstore => ?_, fun hopen => (h.opened [] hopen).2.1⟩
  · obtain ⟨block, t, -, hi, hr⟩ := hround.eq_of_closing hopen hcr
    rw [filled_cons_zero, h.map c pid hlookup] at hr
    exact ⟨_, t, hr, map_filled block.data (c :: cs), hi⟩
  · generalize w.kcd.handle ev = r at hround hstore
    cases hround with
    | stored _ _ _ _ hlt =>
      rcases List.mem_cons.mp hstore with hstore | hstore
      · cases hstore
        exact hlt
      · cases List.mem_singleton.mp hstore
    | displayed hacts => cases hacts _ hstore
    | _ => simp at hstore

theorem Agrees.proper_iff (h : Agrees B w.seen w.kcd) (hB : B ev.block) :
    (∀ a ∈ (w.kcd.handle ev).1, a.Proper w.seen) ↔ w.seen.Expects ev.kcdMess := by
  have hround := h.handle hB
  generalize w.kcd.handle ev = r at hround
  cases hround with
  | registered e hreg hc =>
    refine iff_of_true ?_ ⟨fun _ => hc, fun cs _ hcr => absurd hcr (not_types_of_registers hreg)⟩
    exact List.forall_mem_cons.mpr ⟨hc, List.forall_mem_singleton.mpr trivial⟩
  | outside hreg hc =>
    exact iff_of_false (fun hall => hc (hall _ (List.mem_singleton_self _))) fun hexp => hc (hexp.registration hreg)
  | @closed cs block t hopen hcr =>
    have hreg : ¬ev.kcdMess.Registers := fun hreg => not_types_of_registers hreg hcr
    constructor
    · intro hall
      obtain ⟨c, cs', hopen', hmem⟩ := hall _ (List.mem_cons_of_mem _ List.mem_cons_self)
      refine ⟨fun hyes => absurd hyes hreg, fun cs₁ hopen₁ _ => ⟨c, cs', _, ?_, hmem⟩⟩
      exact Option.some.inj (hopen₁.symm.trans hopen')
    · intro hexp
      obtain ⟨c, cs', pid, rfl, hmem⟩ := hexp.command cs hopen hcr
      obtain ⟨pid', hlookup⟩ := exists_lookup hmem
      rw [filled_cons_zero, h.map c pid' hlookup]
      refine List.forall_mem_cons.mpr ⟨h.bounded _ hmem,
        List.forall_mem_cons.mpr ⟨?_, List.forall_mem_singleton.mpr trivial⟩⟩
      exact ⟨c, cs', hopen, mem_of_lookup hlookup⟩
  | stored e hopen hno hreg =>
    refine iff_of_true ?_ ⟨fun hyes => absurd hyes hreg, fun _ _ hcr => absurd hcr hno⟩
    exact List.forall_mem_cons.mpr ⟨trivial, List.forall_mem_singleton.mpr trivial⟩
  | displayed hacts hreg hno =>
    exact iff_of_true (fun a ha => (hacts a ha).proper _)
      ⟨fun hyes => absurd hyes hreg, fun cs hopen hcr => absurd hcr (hno cs hopen)⟩

theorem Agrees.step (h : Agrees B w.seen w.kcd) (hB : B ev.block) :
    Watch.step w ev = none ∧ w.seen.step ev.kcdMess = none ∨
      ∃ w', Watch.step w ev = some w' ∧ w.seen.step ev.kcdMess = some w'.seen ∧ Agrees B w'.seen w'.kcd := by
  have hround := h.handle hB
  have hgoes : ¬(ev.kcdMess.Registers ∧ ¬ev.kcdMess.data 0 < 128) →
      w.seen.step ev.kcdMess = some (w.seen.note ev.kcdMess) :=
    fun hno => if_neg hno
  have hgo {t : Kcd} (hno : ¬(ev.kcdMess.Registers ∧ ¬ev.kcdMess.data 0 < 128)) (ht : (w.kcd.handle ev).2 = some t)
      (hagrees : Agrees B (w.seen.note ev.kcdMess) t) :
      ∃ w', Watch.step w ev = some w' ∧ w.seen.step ev.kcdMess = some w'.seen ∧ Agrees B w'.seen w'.kcd :=
    ⟨⟨t, w.seen.note ev.kcdMess⟩, by unfold Watch.step; rw [ht]; rfl, hgoes hno, hagrees⟩
  generalize hr : w.kcd.handle ev = r at hround hgo
  cases hround with
  | registered e hreg hc ht => exact Or.inr (hgo (fun hout => hout.2 hc) rfl ht)
  | outside hreg hc =>
    refine Or.inl ⟨?_, if_pos ⟨hreg, hc⟩⟩
    unfold Watch.step
    rw [hr]
    rfl
  | closed _ hcr _ _ ht => exact Or.inr (hgo (fun hout => not_types_of_registers hout.1 hcr) rfl ht)
  | stored _ _ _ hreg _ ht => exact Or.inr (hgo (fun hout => hreg hout.1) rfl ht)
  | displayed _ hreg _ ht => exact Or.inr (hgo (fun hout => hreg hout.1) rfl ht)

theorem Agrees.kept (h : Agrees B w.seen w.kcd) (ev : KcdEvent) (hB : B ev.block) (hs : Watch.step w ev = some w') :
    w.seen.step ev.kcdMess = some w'.seen ∧ Agrees B w'.seen w'.kcd := by
  rcases h.step hB with ⟨hstop, -⟩ | ⟨w₁, hw₁, hseen, h₁⟩
  · cases hstop.symm.trans hs
  · cases hw₁.symm.trans hs
    exact ⟨hseen, h₁⟩

theorem Agrees.goes (h : Agrees B w.seen w.kcd) (ev : KcdEvent) (hB : B ev.block)
    (hbelow : ev.kcdMess.Registers → ev.kcdMess.data 0 < 128) : ∃ w', Watch.step w ev = some w' := by
  rcases h.step hB with ⟨-, hstop⟩ | ⟨w', hw', -, -⟩
  · have hgoes : w.seen.step ev.kcdMess = some (w.seen.note ev.kcdMess) := if_neg fun hout => hout.2 (hbelow hout.1)
    cases hgoes.symm.trans hstop
  · exact ⟨w', hw'⟩

end

/-- What is known of the decoder when nothing is known of the blocks. -/
def Watch.Sound (w : Watch) : Prop := Agrees (fun _ => True) w.seen w.kcd

/-- Whatever is typed, the decoder goes on, and every command is delivered to the process that has registered it. -/
theorem kcd_delivers (map : UInt8 → Nat) (events : List KcdEvent)
    (hreg : ∀ ev ∈ events, ev.kcdMess.Registers → ev.kcdMess.data 0 < 128) :
    (∃ w, Runs.exec Watch.step (.start map) events = some w) ∧ Runs.Meets Watch.step Delivers (.start map) events := by
  have hstart : (Watch.start map).Sound := agrees_start _ map
  have hgo : ∀ w ev, Watch.Sound w → (ev.kcdMess.Registers → ev.kcdMess.data 0 < 128) →
      ∃ w', Watch.step w ev = some w' ∧ w'.Sound := fun w ev h hbelow => by
    obtain ⟨w', hw'⟩ := Agrees.goes h ev trivial hbelow
    exact ⟨w', hw', (Agrees.kept h ev trivial hw').2⟩
  constructor
  · obtain ⟨w, hw, -⟩ := Runs.exec_of_progress hgo hstart (Runs.meets_of_forall fun ev hev _ => hreg ev hev)
    exact ⟨w, hw⟩
  · exact Runs.meets_of_preserved (fun w ev h => Agrees.delivers h trivial)
      (fun w ev w' h hs => (Agrees.kept h ev trivial hs).2) hstart

def registration (pid : Nat) (c : UInt8) : Envelope :=
  { textMessage firstBlock MessType.commandRegistration [c] with senderPid := pid }

def keystroke (c : UInt8) : Envelope := { textMessage firstBlock MessType.keyboardInput [c] with senderPid := uartPid.val }

def emptyBlock : Envelope := ⟨secondBlock, 0, 0, fun _ => 0⟩

/-- The wall clock process has registered `W`, and `%WC` is typed. -/
theorem kcd_delivers_wc :
    let events := [registration wcPid.val 87, keystroke 37, keystroke 87, keystroke 67].map fun e =>
      KcdEvent.mk e emptyBlock
    ∃ w m t, Runs.exec Watch.step (.start fun _ => 0) events = some w ∧
      w.kcd.handle ⟨keystroke 13, emptyBlock⟩ = ([.index 87, .command wcPid.val m,
        .echo { keystroke 13 with type := MessType.crtDisplayRequest }], some t) ∧
      (List.range 2).map m.data = [87, 67] := by
  have hmeets := (kcd_delivers (fun _ => 0)
    ([registration wcPid.val 87, keystroke 37, keystroke 87, keystroke 67, keystroke 13].map fun e => ⟨e, emptyBlock⟩)
    (by decide)).2
  have hlast := (hmeets.2 _ rfl).2 _ rfl |>.2 _ rfl |>.2 _ rfl |>.1
  obtain ⟨m, t, hhandle, hdata, -⟩ := hlast.command 87 [67] wcPid.val rfl ⟨rfl, rfl⟩ (by decide) rfl
  exact ⟨_, m, t, rfl, hhandle, hdata⟩

/-- Commands are handled properly in exactly the runs in which every event is expected. -/
theorem kcd_proper_iff (map : UInt8 → Nat) (events : List KcdEvent) :
    Runs.Meets Watch.step (fun w ev => ∀ a ∈ (w.kcd.handle ev).1, a.Proper w.seen) (.start map) events ↔
      Runs.Meets Seen.step Seen.Expects .start (events.map KcdEvent.kcdMess) := by
  have hstart : (Watch.start map).Sound := agrees_start _ map
  constructor
  · intro h
    refine Runs.Meets.transfer (R := fun g w => w.Sound ∧ w.seen = g) (g := id) ?_ ?_ ⟨hstart, rfl⟩ (List.map_id events ▸ h)
    · rintro ev g w ⟨hw, rfl⟩ hproper
      exact (Agrees.proper_iff hw trivial).mp hproper
    · rintro ev g w g' ⟨hw, rfl⟩ hproper hs
      have hexp := (Agrees.proper_iff hw trivial).mp hproper
      obtain ⟨w', hw'⟩ := Agrees.goes hw ev trivial hexp.registration
      obtain ⟨hseen, hagrees⟩ := Agrees.kept hw ev trivial hw'
      exact ⟨w', hw', hagrees, Option.some.inj (hseen.symm.trans hs)⟩
  · intro h
    rw [← List.map_id events]
    refine Runs.Meets.transfer (R := fun w g => w.Sound ∧ w.seen = g) ?_ ?_ ⟨hstart, rfl⟩ h
    · rintro ev w g ⟨hw, rfl⟩ hexp
      exact (Agrees.proper_iff hw trivial).mpr hexp
    · rintro ev w g w' ⟨hw, rfl⟩ hexp hs
      obtain ⟨hseen, hagrees⟩ := Agrees.kept hw ev trivial hs
      exact ⟨w'.seen, hseen, hagrees, rfl⟩

/-- Only `%` and a carriage return are typed. A byte that was never written selects the entry of the table, and when both
    are zero the null process is sent a command that nobody has registered. -/
theorem kcd_empty_command :
    let typed := KcdEvent.mk (keystroke 37) emptyBlock
    let closing := KcdEvent.mk (keystroke 13) emptyBlock
    ¬Runs.Meets Watch.step (fun w ev => ∀ a ∈ (w.kcd.handle ev).1, a.Proper w.seen) (.start fun _ => 0) [typed, closing] ∧
      ∃ w m t e, Runs.exec Watch.step (.start fun _ => 0) [typed] = some w ∧ w.seen.registered = [] ∧
        w.kcd.handle closing = ([.index 0, .command 0 m, .echo e], some t) ∧
        ∃ k, boot rtosMap = .switched k ∧ k.Created 0 ∧ Appends k 0 m.addr 0 := by
  obtain ⟨k, hboot, h⟩ := boot_spec rtosMap
  have hnull : k.Created 0 := h.started.created_iff.mpr (by decide)
  refine ⟨fun hmeets => ?_, _, _, _, _, rfl, rfl, rfl, k, hboot, hnull, h.started.tableSet.appends hnull _⟩
  obtain ⟨c, cs, hopen, -⟩ := ((hmeets.2 _ rfl).1) (.command 0 emptyBlock) (List.mem_cons_of_mem _ List.mem_cons_self)
  cases hopen

end DoorRtos
