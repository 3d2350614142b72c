import DoorRtos.Keyboard
import DoorRtos.Runs

/-! Where the keyboard decoder sends commands, and what is in them. -/

namespace DoorRtos

/-- The content of an envelope after the characters have been typed into it. -/
def filled (data : Nat → UInt8) (cs : List UInt8) : Nat → UInt8 := fun j => (cs.take maxCommandSize).getD j (data j)

/-- The variables of the decoder are what has come in, when `B` holds of the blocks that it has been given. -/
structure Agrees (B : Envelope → Prop) (g : Seen) (s : Kcd) : Prop where
  bounded : ∀ r ∈ g.registered, r.1 < 128
  map : ∀ c pid, g.registered.lookup c = some pid → s.map c = pid
  closed : g.typed = none → s.bufferFlag = false ∧ s.i = 0
  opened : ∀ cs, g.typed = some cs → s.bufferFlag = true ∧ s.i = min cs.length maxCommandSize ∧
    ∃ block, B block ∧ s.tosend = some { block with data := filled block.data cs }

def KcdAct.Displays : KcdAct → Prop
  | .error _ | .echo _ => True
  | _ => False

/-- What can happen in a round: what is seen of it, and the variables after it. -/
inductive Round (B : Envelope → Prop) (g : Seen) (s : Kcd) (ev : KcdEvent) : List KcdAct × Option Kcd → Prop
  | registered (e : Envelope) {t : Kcd} (hreg : ev.kcdMess.Registers) (hc : ev.kcdMess.data 0 < 128)
    (ht : Agrees B (g.note ev.kcdMess) t) : Round B g s ev ([.index (ev.kcdMess.data 0), .echo e], some t)
  | outside (hreg : ev.kcdMess.Registers) (hc : ¬ev.kcdMess.data 0 < 128) :
    Round B g s ev ([.index (ev.kcdMess.data 0)], none)
  | closed {cs : List UInt8} {block : Envelope} {t : Kcd} (hopen : g.typed = some cs)
    (hcr : ev.kcdMess.Types carriageReturn) (hB : B block) (hi : t.i = 0) (ht : Agrees B (g.note ev.kcdMess) t) :
    Round B g s ev ([.index (filled block.data cs 0),
      .command (s.map (filled block.data cs 0)) { block with data := filled block.data cs },
      .echo { ev.kcdMess with type := MessType.crtDisplayRequest }], some t)
  | stored (e : Envelope) {cs : List UInt8} {t : Kcd} (hopen : g.typed = some cs) (hno : ¬ev.kcdMess.Types carriageReturn)
    (hreg : ¬ev.kcdMess.Registers) (hlt : cs.length < maxCommandSize) (ht : Agrees B (g.note ev.kcdMess) t) :
    Round B g s ev ([.stores cs.length (ev.kcdMess.data 0), .echo e], some t)
  | displayed {acts : List KcdAct} {t : Kcd} (hacts : ∀ a ∈ acts, a.Displays) (hreg : ¬ev.kcdMess.Registers)
    (hno : ∀ cs, g.typed = some cs → ¬ev.kcdMess.Types carriageReturn) (ht : Agrees B (g.note ev.kcdMess) t) :
    Round B g s ev (acts, some t)

section
variable {B : Envelope → Prop} {g : Seen} {s t : Kcd} {ev : KcdEvent} {env : Envelope} {cs : List UInt8} {c : UInt8}
  {data : Nat → UInt8}

/-! ### Filling an envelope -/

theorem length_take_filled (cs : List UInt8) : (cs.take maxCommandSize).length = min cs.length maxCommandSize := by
  rw [List.length_take, Nat.min_comm]

theorem filled_eq (data : Nat → UInt8) (cs : List UInt8) (j : Nat) :
    filled data cs j = (cs.take maxCommandSize)[j]?.getD (data j) := List.getD_eq_getElem?_getD

theorem filled_append (h : cs.length < maxCommandSize) (data : Nat → UInt8) (c : UInt8) :
    filled data (cs ++ [c]) = Function.update (filled data cs) cs.length c := by
  have hlength : (cs ++ [c]).length = cs.length + 1 := List.length_append
  funext j
  rw [filled_eq, List.take_of_length_le (hlength ▸ h)]
  rcases Nat.lt_trichotomy j cs.length with hj | rfl | hj
  · rw [Function.update_of_ne (Nat.ne_of_lt hj), filled_eq, List.take_of_length_le (Nat.le_of_lt h),
      List.getElem?_append_left hj]
  · rw [Function.update_self, List.getElem?_append_right (Nat.le_refl _), Nat.sub_self]
    rfl
  · rw [Function.update_of_ne (Nat.ne_of_gt hj), filled_eq, List.take_of_length_le (Nat.le_of_lt h),
      List.getElem?_eq_none (Nat.le_of_lt hj), List.getElem?_eq_none (hlength ▸ hj)]

theorem filled_append_full (h : maxCommandSize ≤ cs.length) (data : Nat → UInt8) (c : UInt8) :
    filled data (cs ++ [c]) = filled data cs := by
  funext j
  rw [filled_eq, filled_eq, List.take_append_of_le_length h]

/-- The first characters of a command are in the envelope. -/
theorem map_filled (data : Nat → UInt8) (cs : List UInt8) :
    (List.range (min cs.length maxCommandSize)).map (filled data cs) = cs.take maxCommandSize := by
  refine List.ext_getElem (by rw [List.length_map, List.length_range, length_take_filled]) fun j hj hj' => ?_
  rw [List.getElem_map, List.getElem_range, filled_eq, List.getElem?_eq_getElem hj']
  rfl

theorem filled_of_le {j : Nat} (h : min cs.length maxCommandSize ≤ j) (data : Nat → UInt8) : filled data cs j = data j := by
  rw [filled_eq, List.getElem?_eq_none (length_take_filled cs ▸ h)]
  rfl

theorem filled_cons_zero (data : Nat → UInt8) (c : UInt8) (cs : List UInt8) : filled data (c :: cs) 0 = c := rfl

/-! ### A round -/

theorem not_types_of_registers (h : env.Registers) : ¬env.Types c := fun htypes =>
  absurd (h.symm.trans htypes.1) (by decide)

theorem Agrees.register (h : Agrees B g s) (hreg : env.Registers) (hc : env.data 0 < 128) :
    Agrees B (g.note env) { s with map := Function.update s.map (env.data 0) env.senderPid } := by
  have hnote : g.note env = { g with registered := (env.data 0, env.senderPid) :: g.registered } := if_pos hreg
  rw [hnote]
  refine ⟨?_, fun c pid hlookup => ?_, h.closed, h.opened⟩
  · exact List.forall_mem_cons.mpr ⟨hc, h.bounded⟩
  · by_cases hcc : c = env.data 0
    · rw [hcc, List.lookup_cons_self] at hlookup
      cases hlookup
      rw [hcc]
      exact Function.update_self ..
    · have hne : (c == env.data 0) = false := beq_eq_false_iff_ne.mpr hcc
      rw [List.lookup_cons, hne] at hlookup
      exact (Function.update_of_ne hcc ..).trans (h.map c pid hlookup)

theorem not_registers_of_type (h : env.type = MessType.keyboardInput) : ¬env.Registers := fun hreg =>
  absurd (hreg.symm.trans h) (by decide)

theorem note_outside (h : env.type = MessType.keyboardInput) (hnone : g.typed = none) :
    g.note env = if env.data 0 = percent then { g with typed := some [] } else g := by
  simp only [Seen.note, if_neg (not_registers_of_type h), if_pos h, hnone]

theorem note_inside (h : env.type = MessType.keyboardInput) (hopen : g.typed = some cs) :
    g.note env = if env.data 0 = carriageReturn then { g with typed := none }
      else { g with typed := some (cs ++ [env.data 0]) } := by
  simp only [Seen.note, if_neg (not_registers_of_type h), if_pos h, hopen]

theorem Agrees.outsideCommand (h : Agrees B g s) (htype : ev.kcdMess.type = MessType.keyboardInput) (hB : B ev.block)
    (hnone : g.typed = none) :
    Round B g s ev (Kcd.echo ev.kcdMess (s.keyboardInput (ev.kcdMess.data 0) ev.block)) := by
  obtain ⟨hflag, hi⟩ := h.closed hnone
  have hno : ∀ cs, g.typed = some cs → ¬ev.kcdMess.Types carriageReturn := fun cs hcs => by
    rw [hnone] at hcs
    cases hcs
  have hreg := not_registers_of_type htype
  have hnote := note_outside htype hnone
  have hfalse : ¬false = true := Bool.false_ne_true
  unfold Kcd.keyboardInput
  rw [hflag]
  by_cases hc : ev.kcdMess.data 0 = percent
  · rw [if_pos hc] at hnote
    rw [if_pos ⟨hc, hfalse⟩]
    refine .displayed (fun a ha => List.mem_singleton.mp ha ▸ trivial) hreg hno (hnote ▸ ?_)
    refine ⟨h.bounded, h.map, (fun hcs => nomatch hcs), fun cs hcs => ?_⟩
    cases hcs
    exact ⟨rfl, hi, ev.block, hB, rfl⟩
  · rw [if_neg hc] at hnote
    rw [if_neg fun hand => hc hand.1, if_neg hfalse]
    -- Only `char_typed` changes.
    have hkeep : ∀ n, Agrees B (g.note ev.kcdMess) { s with charTyped := n } := fun n => by
      rw [hnote]
      exact ⟨h.bounded, h.map, h.closed, h.opened⟩
    split
    · refine .displayed (fun a ha => ?_) hreg hno (hflag ▸ hkeep 0)
      rcases List.mem_append.mp ha with ha | ha
      · exact List.mem_singleton.mp ha ▸ trivial
      · exact List.mem_singleton.mp ha ▸ trivial
    · split
      · exact .displayed (fun a ha => List.mem_singleton.mp ha ▸ trivial) hreg hno (hflag ▸ hkeep 0)
      · exact .displayed (fun a ha => List.mem_singleton.mp ha ▸ trivial) hreg hno (hflag ▸ hkeep (s.charTyped + 1))

theorem Agrees.insideCommand (h : Agrees B g s) (htype : ev.kcdMess.type = MessType.keyboardInput)
    (hopen : g.typed = some cs) :
    Round B g s ev (Kcd.echo ev.kcdMess (s.keyboardInput (ev.kcdMess.data 0) ev.block)) := by
  obtain ⟨hflag, hi, block, hB, htosend⟩ := h.opened cs hopen
  have hreg := not_registers_of_type htype
  have hnote := note_inside htype hopen
  unfold Kcd.keyboardInput
  rw [if_neg fun hand => hand.2 hflag, if_pos hflag, htosend]
  dsimp only
  by_cases hc : ev.kcdMess.data 0 = carriageReturn
  · rw [if_pos hc] at hnote ⊢
    refine .closed hopen ⟨htype, hc⟩ hB rfl (hnote ▸ ?_)
    exact ⟨h.bounded, h.map, fun _ => ⟨rfl, rfl⟩, fun _ hcs => nomatch hcs⟩
  · have hno : ¬ev.kcdMess.Types carriageReturn := fun hand => hc hand.2
    rw [if_neg hc] at hnote ⊢
    have hlength : (cs ++ [ev.kcdMess.data 0]).length = cs.length + 1 := List.length_append
    by_cases hlt : cs.length < maxCommandSize
    · have hi : s.i = cs.length := hi.trans (Nat.min_eq_left (Nat.le_of_lt hlt))
      rw [if_pos (hi ▸ hlt), hi]
      refine .stored _ hopen hno hreg hlt (hnote ▸ ?_)
      refine ⟨h.bounded, h.map, (fun hcs => nomatch hcs), fun cs' hcs => ?_⟩
      cases hcs
      refine ⟨hflag, ?_, block, hB, ?_⟩
      · rw [hlength, Nat.min_eq_left hlt]
      · rw [filled_append hlt]
        rfl
    · have hfull : maxCommandSize ≤ cs.length := Nat.le_of_not_lt hlt
      have hi : s.i = maxCommandSize := hi.trans (Nat.min_eq_right hfull)
      rw [if_neg (hi ▸ Nat.lt_irrefl _)]
      refine .displayed (fun a ha => List.mem_singleton.mp ha ▸ trivial) hreg (fun _ _ => hno) (hnote ▸ ?_)
      refine ⟨h.bounded, h.map, (fun hcs => nomatch hcs), fun cs' hcs => ?_⟩
      cases hcs
      refine ⟨hflag, ?_, block, hB, ?_⟩
      · rw [hi, hlength, Nat.min_eq_right (Nat.le_succ_of_le hfull)]
      · rw [filled_append_full hfull]
        exact htosend

theorem Agrees.handle (h : Agrees B g s) (hB : B ev.block) : Round B g s ev (s.handle ev) := by
  unfold Kcd.handle
  by_cases hreg : ev.kcdMess.type = MessType.commandRegistration
  · rw [if_pos hreg]
    have hput : (ev.kcdMess.put 1 0).data 0 = ev.kcdMess.data 0 := Function.update_of_ne Nat.zero_ne_one 0 ev.kcdMess.data
    unfold Kcd.commandRegistration
    dsimp only
    rw [hput]
    by_cases hc : ev.kcdMess.data 0 < 128
    · rw [if_pos hc]
      exact .registered _ hreg hc (h.register hreg hc)
    · rw [if_neg hc]
      exact .outside hreg hc
  · rw [if_neg hreg]
    by_cases htype : ev.kcdMess.type = MessType.keyboardInput
    · rw [if_pos htype]
      cases hopen : g.typed with
      | none => exact h.outsideCommand htype hB hopen
      | some cs => exact h.insideCommand htype hopen
    · rw [if_neg htype]
      have hnote : g.note ev.kcdMess = g := by
        unfold Seen.note
        rw [if_neg (show ¬ev.kcdMess.Registers from hreg), if_neg htype]
      exact .displayed (fun a ha => List.mem_singleton.mp ha ▸ trivial) hreg (fun _ _ htypes => htype htypes.1)
        (hnote.symm ▸ h)

/-- The round that closes a command sends it from one of the blocks that the decoder has been given. -/
theorem Round.eq_of_closing {r : List KcdAct × Option Kcd} (h : Round B g s ev r) (hopen : g.typed = some cs)
    (hcr : ev.kcdMess.Types carriageReturn) :
    ∃ (block : Envelope) (t : Kcd), B block ∧ t.i = 0 ∧ r = ([.index (filled block.data cs 0),
      .command (s.map (filled block.data cs 0)) { block with data := filled block.data cs },
      .echo { ev.kcdMess with type := MessType.crtDisplayRequest }], some t) := by
  cases h with
  | @closed cs' block t hopen' _ hB hi =>
    cases hopen.symm.trans hopen'
    exact ⟨block, t, hB, hi, rfl⟩
  | registered _ hreg => exact absurd hcr (not_types_of_registers hreg)
  | outside hreg => exact absurd hcr (not_types_of_registers hreg)
  | stored _ _ hno => exact absurd hcr hno
  | displayed _ _ hno => exact absurd hcr (hno _ hopen)

theorem agrees_start (B : Envelope → Prop) (map : UInt8 → Nat) : Agrees B .start (.start map) :=
  ⟨fun _ hr => (List.not_mem_nil hr).elim, (fun _ _ hlookup => nomatch hlookup), fun _ => ⟨rfl, rfl⟩,
    fun _ hcs => nomatch hcs⟩

end
end DoorRtos
