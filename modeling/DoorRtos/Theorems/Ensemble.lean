import DoorRtos.Theorems.Senders

/-! The processes on the kernel do what they do as a network: a message arrives as it was sent, and what a process holds
    nobody else stores to. -/

namespace DoorRtos
open Interaction Linked Network Runs

/-- The message that process `p` has taken out of its mailbox and has not been given yet. -/
def Sys.carried (s : Sys) (p : PcbRef) : List Addr :=
  match s.pc p with
  | .trapped (.receiveMessage _) false => (toPtr s.kernel.retCodeRecv).toList
  | _ => []

/-- What is left of a program behind a call that has been made, unless it waits for the answer. -/
def behind : ClockProc Unit → ClockProc Unit
  | .ret a => .ret a
  | .call op next => (op.plain.map next).getD (.call op next)

section
variable {sys : Sys} {p : PcbRef} {e : Addr}

/-- Only the running process carries a message. -/
theorem carried_of_ne (h : sys.Behind) (hp : p ≠ sys.kernel.currentPcb) : sys.carried p = [] := by
  unfold Sys.carried
  split
  next senderID hpc => exact absurd (h p _ hpc) hp
  next => rfl

theorem carried_of_not (h : ∀ senderID, sys.pc p ≠ .trapped (.receiveMessage senderID) false) : sys.carried p = [] := by
  unfold Sys.carried
  split
  next senderID hpc => exact absurd hpc (h senderID)
  next => rfl

theorem carried_message {senderID : Nat} (h : sys.pc p = .trapped (.receiveMessage senderID) false)
    (he : sys.kernel.retCodeRecv = e.val) : sys.carried p = [e] := by
  unfold Sys.carried
  rw [h, he, toPtr_val]
  rfl

theorem Idle.carried (h : Idle sys) (p : PcbRef) : sys.carried p = [] := carried_of_not (h p)

/-- No process carries a message when the running one carries none. -/
theorem carried_nil (h : sys.Behind)
    (hcur : ∀ senderID, sys.pc sys.kernel.currentPcb ≠ .trapped (.receiveMessage senderID) false) (p : PcbRef) :
    sys.carried p = [] :=
  (h.idle hcur).carried p

end

namespace Ensemble

/-- What process `p` has still to do as a node. A call is made at its trap. -/
def code (s : Ensemble) (p : PcbRef) : ClockProc Unit :=
  match s.sys.pc p with
  | .user => s.rest p
  | .trapped _ _ => behind (s.rest p)

/-- A receiver that has blocked looks into its mailbox again, and no request that has blocked runs again. -/
def Sound (s : Ensemble) : Prop :=
  LooksAgain s.sys ∧ s.sys.pc s.sys.kernel.currentPcb ≠ .trapped .requestMemoryBlock true

instance (s : Ensemble) : Decidable s.Sound := inferInstanceAs (Decidable (_ ∧ _))

/-- The network `c` is in the state of the processes, with the messages of `M` in their mailboxes. -/
structure Mirrors (pids : PcbRef → Nat) (s : Ensemble) (M : PcbRef → List Addr) (c : Config PcbRef Node Envelope) :
    Prop where
  table : ∀ p, (s.sys.kernel.pcbs p).pid = pids p
  trapped : ∀ p call left, s.sys.pc p = .trapped call left → ∃ op next, s.rest p = .call op next ∧ op.call = some call
  message : ∀ senderID, s.sys.pc s.sys.kernel.currentPcb = .trapped (.receiveMessage senderID) false →
    ∃ e : Addr, s.sys.kernel.retCodeRecv = e.val
  code : ∀ p, (c.nodes p).1 = s.code p
  held : ∀ p, ∀ b ∈ (c.nodes p).2.held, b ∈ hands p s.sys.log
  memory : ∀ p, ∀ b ∈ (c.nodes p).2.held, (c.nodes p).2.memory b = s.contents b
  mail : ∀ p, c.mail p = (s.sys.carried p ++ (M p).reverse).map s.envelope
  careful : ∀ p, (c.nodes p).1.Spec (clockEffect pids p) (c.nodes p).2 (fun _ => True) fun _ _ _ => True

/-- The messages that a process has been given. -/
def receivedBy (s : Ensemble) (p : PcbRef) : List Envelope := DoorRtos.received (basics (s.past p))

/-- A turn is a step of the network, or it is none that the network sees. -/
def Simulated (pids : PcbRef → Nat) (img : Layout) (s : Ensemble) (c : Config PcbRef Node Envelope)
    (s' : Ensemble) : Prop :=
  ∃ F M D log c', Accounted img s'.sys F M D ∧ Mirrors pids s' M c' ∧ Path (Network.Step (nodeStep pids)) c log c' ∧
    ∀ q, s'.receivedBy q = s.receivedBy q ++ Network.received (actionsOf q log)

section
variable {img : Layout} {pids : PcbRef → Nat} {s s' : Ensemble} {sys : Sys} {F : List Addr} {M M' : PcbRef → List Addr}
  {D : List Addr} {c c' : Config PcbRef Node Envelope} {p q : PcbRef} {op : ClockOp} {next : ClockAns op → ClockProc Unit}
  {call : Call} {x : ClockAns op} {left : Bool} {value : Nat} {b e : Addr}

/-! ### The mailboxes -/

theorem behind_request (hcall : op.call = some .requestMemoryBlock) : DoorRtos.behind (.call op next) = .call op next := by
  show (op.plain.map next).getD _ = _
  cases hx : op.plain with
  | none => rfl
  | some x => exact (plain_of_request hcall hx).elim

theorem behind_receive {senderID : Nat} (hcall : op.call = some (.receiveMessage senderID)) :
    DoorRtos.behind (.call op next) = .call op next := by
  show (op.plain.map next).getD _ = _
  cases hx : op.plain with
  | none => rfl
  | some x => exact (plain_of_receive hcall hx).elim

/-- A statement that is given something is a receive or a request. -/
theorem plain_cases (op : ClockOp) :
    (∃ y, op.plain = some y) ∨ op = .basic .receiveMessage ∨ op = .basic .requestMemoryBlock := by
  cases op with
  | basic op => cases op <;> first | exact Or.inl ⟨(), rfl⟩ | exact Or.inr (Or.inl rfl) | exact Or.inr (Or.inr rfl)
  | delayedSend q e delay => exact Or.inl ⟨(), rfl⟩

theorem answer_plain (s : Ensemble) (value : Nat) (hplain : op.plain = some x) : s.answer value op = some x := by
  cases op with
  | basic op => cases op <;> first | exact hplain | cases hplain
  | delayedSend q e delay => exact hplain

theorem obtain_memory {l : Local} (hl : ∀ x ∈ l.held, l.memory x = s.contents x)
    (hb : b ∈ (l.obtain e (s.contents e)).held) : (l.obtain e (s.contents e)).memory b = s.contents b := by
  show Function.update l.memory e (s.contents e) b = s.contents b
  by_cases hbe : b = e
  · subst hbe
    exact Function.update_self ..
  · rw [Function.update_of_ne hbe]
    exact hl b ((List.mem_cons.mp hb).resolve_left hbe)

/-- What an assignment leaves alone. -/
structure Assigned (s : Ensemble) (op : ClockOp) (s' : Ensemble) : Prop where
  sys : s'.sys = { s.sys with kernel := { s.sys.kernel with mess := s'.sys.kernel.mess } }
  rest : s'.rest = s.rest
  past : s'.past = s.past
  contents : ∀ b, op.operand ≠ some b → s'.contents b = s.contents b
  sender : ∀ b, op.operand ≠ some b → (s'.sys.kernel.mess b).senderPid = (s.sys.kernel.mess b).senderPid

/-- An assignment does to the blocks of the process what it does to the memory of the node. -/
theorem assign_inv (pids : PcbRef → Nat) {l : Local} (hcall : op.call = none) (hplain : op.plain = some x)
    (hs : s.assign op = some s') (hl : ∀ b ∈ l.held, l.memory b = s.contents b) :
    ∃ l', ClockActs pids p l op x .silent l' ∧ l'.held = l.held ∧ (∀ b ∈ l.held, l'.memory b = s'.contents b) ∧
      Assigned s op s' := by
  cases op with
  | delayedSend q e delay => cases hcall
  | basic op =>
    cases op with
    | store e field value =>
      cases hplain
      obtain ⟨-, hs⟩ := Option.ite_none_right_eq_some.mp hs
      cases hs
      refine ⟨_, .basic (.store l e field value), rfl, fun b hb => ?_, ⟨rfl, rfl, rfl, fun b hb => ?_, fun b hb => ?_⟩⟩
      · by_cases hbe : b = e
        · subst hbe
          simp only [Local.store, Function.update_self, hl b hb]
        · simp only [Local.store, Function.update_of_ne hbe]
          exact hl b hb
      · exact Function.update_of_ne (fun hbe => hb (congrArg some hbe.symm)) _ _
      · exact congrArg Mess.senderPid (Function.update_of_ne (fun hbe => hb (congrArg some hbe.symm)) _ _)
    | write register value =>
      cases hplain
      cases hs
      exact ⟨l, .basic (.write l register value), rfl, hl, ⟨rfl, rfl, rfl, fun _ _ => rfl, fun _ _ => rfl⟩⟩
    | _ => cases hcall

theorem mem_drop {l : Local} {o : Option Addr} : b ∈ (l.drop o).held ↔ b ∈ l.held ∧ o ≠ some b := by
  cases o with
  | none => simp [Local.drop]
  | some a => simp [Local.drop, Local.give, eq_comm (a := a)]

theorem drop_memory (l : Local) (o : Option Addr) : (l.drop o).memory = l.memory := by cases o <;> rfl

theorem envelope_congr (hmess : (s'.sys.kernel.mess e).senderPid = (s.sys.kernel.mess e).senderPid)
    (hcontents : s'.contents e = s.contents e) : s'.envelope e = s.envelope e := by
  unfold envelope
  rw [hmess, hcontents]

theorem basics_append (h₁ h₂ : History ClockOp ClockAns) : basics (h₁ ++ h₂) = basics h₁ ++ basics h₂ :=
  List.filterMap_append

/-- What a process has been given when it goes on behind a statement. -/
theorem receivedBy_goOn (s : Ensemble) (p : PcbRef) (op : ClockOp) (x : ClockAns op) (next : ClockAns op → ClockProc Unit)
    (q : PcbRef) : (s.goOn p op x next).receivedBy q =
      s.receivedBy q ++ if q = p then DoorRtos.received (basics [⟨op, x⟩]) else [] := by
  unfold receivedBy goOn
  by_cases hq : q = p
  · subst hq
    simp only [Function.update_self, if_true]
    rw [basics_append, received_append]
  · simp only [Function.update_of_ne hq, if_neg hq, List.append_nil]

theorem received_plain (hplain : op.plain = some x) : DoorRtos.received (basics [⟨op, x⟩]) = [] := by
  cases op with
  | basic op => cases op <;> first | rfl | cases hplain
  | delayedSend => rfl

/-! ### A turn -/

/-- What a turn does. -/
theorem step_inv (hs : s.step p = some s') : p = s.sys.kernel.currentPcb ∧ ∃ op next, s.rest p = .call op next ∧
    ((op.call = none ∧ ∃ x s₁, op.plain = some x ∧ s.assign op = some s₁ ∧ s' = s₁.goOn p op x next) ∨
      ∃ call, op.call = some call ∧
        ((s.sys.pc p = .user ∧ ∃ sys, s.sys.step (.call call) = some sys ∧ s' = { s with sys := sys }) ∨
          ∃ call' left sys, s.sys.pc p = .trapped call' left ∧ s.sys.step .resume = some sys ∧
            ((call'.leave s.sys.kernel = none ∧ s' = { s with sys := sys }) ∨
              ∃ value x, call'.leave s.sys.kernel = some value ∧ s.answer value op = some x ∧
                s' = { s with sys := sys }.goOn p op x next))) := by
  unfold step at hs
  split at hs
  next hp =>
    refine ⟨hp, ?_⟩
    cases hrest : s.rest p with
    | ret a =>
      rw [hrest] at hs
      cases hs
    | call op next =>
      rw [hrest] at hs
      refine ⟨op, next, rfl, ?_⟩
      replace hs : s.perform p op next = some s' := hs
      unfold perform at hs
      cases hcall : op.call with
      | none =>
        rw [hcall] at hs
        obtain ⟨x, hx, hs⟩ := Option.bind_eq_some_iff.mp hs
        obtain ⟨s₁, hs₁, hs⟩ := Option.bind_eq_some_iff.mp hs
        exact Or.inl ⟨rfl, x, s₁, hx, hs₁, (Option.some.inj hs).symm⟩
      | some call =>
        rw [hcall] at hs
        refine Or.inr ⟨call, rfl, ?_⟩
        cases hpc : s.sys.pc p with
        | user =>
          simp only [hpc] at hs
          obtain ⟨sys, hsys, rfl⟩ := Option.map_eq_some_iff.mp hs
          exact Or.inl ⟨rfl, sys, hsys, rfl⟩
        | trapped call' left =>
          simp only [hpc] at hs
          cases hleave : call'.leave s.sys.kernel with
          | none =>
            simp only [hleave] at hs
            obtain ⟨sys, hsys, rfl⟩ := Option.map_eq_some_iff.mp hs
            exact Or.inr ⟨call', left, sys, rfl, hsys, Or.inl ⟨hleave, rfl⟩⟩
          | some value =>
            simp only [hleave] at hs
            obtain ⟨x, hx, hs⟩ := Option.bind_eq_some_iff.mp hs
            obtain ⟨sys, hsys, hs⟩ := Option.bind_eq_some_iff.mp hs
            exact Or.inr ⟨call', left, sys, rfl, hsys, Or.inr ⟨value, x, hleave, hx, (Option.some.inj hs).symm⟩⟩
  next => cases hs

/-- A process in its own code is a node with the same code, and has what it uses next. -/
theorem Mirrors.user (h : Mirrors pids s M c) (hpc : s.sys.pc p = .user) (hrest : s.rest p = .call op next) :
    (c.nodes p).1 = .call op next := by
  rw [h.code, Ensemble.code, hpc, hrest]

/-- The call of a process behind a trap is the one that its code has come to. -/
theorem Mirrors.behind (h : Mirrors pids s M c) (hpc : s.sys.pc p = .trapped call left) (hrest : s.rest p = .call op next) :
    op.call = some call ∧ (c.nodes p).1 = DoorRtos.behind (.call op next) := by
  obtain ⟨op', next', hrest', hcall⟩ := h.trapped p call left hpc
  rw [hrest] at hrest'
  cases hrest'
  refine ⟨hcall, ?_⟩
  rw [h.code, Ensemble.code, hpc, hrest]

/-- A call that is given nothing is made at its trap. -/
theorem Mirrors.calls (hacc : Accounted img s.sys F M D) (h : Mirrors pids s M c)
    (hrest : s.rest s.sys.kernel.currentPcb = .call op next) (hcall : op.call = some call) (hplain : op.plain = some x)
    (hs : s.sys.step (.call call) = some sys) : Simulated pids img s c { s with sys := sys } := by
  obtain ⟨huser, hlog, left, ht⟩ := Sys.step_call hs
  have hcode := h.user huser hrest
  have hspec := h.careful s.sys.kernel.currentPcb
  rw [hcode] at hspec
  obtain ⟨-, ⟨hown, -⟩, hgo⟩ := hspec
  have hnr : ∀ senderID, call ≠ .receiveMessage senderID := by
    rintro senderID rfl
    exact plain_of_receive hcall hplain
  have hnq : call ≠ .requestMemoryBlock := by
    rintro rfl
    exact plain_of_request hcall hplain
  have hmine : ∀ b, op.operand = some b → b ∈ hands s.sys.kernel.currentPcb s.sys.log := fun b hb => h.held _ b (hown b hb)
  have hok : HandsOverOwn s.sys (.call call) := fun b hb => hmine b (operand_of_gives hcall hb)
  obtain ⟨F', M', D', hacc'⟩ := hacc.step hok hs
  obtain ⟨hidle, D'', hord, -⟩ := hacc.toOrderly.call hnr (fun _ e he => hacc.loose (hok e he)) ht
  obtain ⟨rfl, -⟩ := hacc'.mail.det hord.mail
  have hsender := fun x => call_senderPid (x := x) hnr hacc.calm.inIProcess ht.kernel?
  have htable := call_sameTable ht.kernel?
  obtain ⟨a, hact, hreceives, hsends⟩ := acts_of_call (p := s.sys.kernel.currentPcb) hacc.calm h.table hcall hplain
    (c.nodes s.sys.kernel.currentPcb).2
  have hnode : nodeStep pids s.sys.kernel.currentPcb (c.nodes s.sys.kernel.currentPcb) a
      (next x, (c.nodes s.sys.kernel.currentPcb).2.drop op.operand) := by
    rw [show c.nodes s.sys.kernel.currentPcb = (.call op next, (c.nodes s.sys.kernel.currentPcb).2) from Prod.ext hcode rfl]
    exact .call hact
  obtain ⟨c', hstep, hnodes, hmail⟩ := Network.Step.of_node hnode hreceives
  refine ⟨F', _, D', [(s.sys.kernel.currentPcb, a)], c', hacc', ?_, .cons hstep (.nil _), fun q => ?_⟩
  · refine ⟨fun q => (htable q).1.trans (h.table q), fun q call' left' hpc => ?_,
      fun senderID hpc => absurd hpc (hidle _ senderID),
      fun q => ?_, fun q b hb => ?_, fun q b hb => ?_, fun q => ?_, fun q => ?_⟩
    · by_cases hq : q = s.sys.kernel.currentPcb
      · subst hq
        rw [ht.pc, Function.update_self] at hpc
        cases hpc
        exact ⟨op, next, hrest, hcall⟩
      · rw [ht.pc, Function.update_of_ne hq] at hpc
        exact h.trapped q call' left' hpc
    · rw [hnodes]
      unfold Ensemble.code
      by_cases hq : q = s.sys.kernel.currentPcb
      · subst hq
        simp only [ht.pc, Function.update_self, hrest, DoorRtos.behind, hplain]
        rfl
      · simp only [ht.pc, Function.update_of_ne hq]
        exact h.code q
    · rw [hlog]
      refine mem_hands_called.mpr ?_
      by_cases hq : q = s.sys.kernel.currentPcb
      · subst hq
        rw [hnodes, Function.update_self] at hb
        obtain ⟨hb, hne⟩ := mem_drop.mp hb
        exact ⟨h.held _ b hb, fun _ hgives => hne (operand_of_gives hcall hgives)⟩
      · rw [hnodes, Function.update_of_ne hq] at hb
        exact ⟨h.held q b hb, fun he => absurd he hq⟩
    · by_cases hq : q = s.sys.kernel.currentPcb
      · subst hq
        rw [hnodes, Function.update_self] at hb ⊢
        rw [drop_memory]
        exact h.memory _ b (mem_drop.mp hb).1
      · rw [hnodes, Function.update_of_ne hq] at hb ⊢
        exact h.memory q b hb
    · have hold : ∀ x ∈ M q, ({ s with sys := sys } : Ensemble).envelope x = s.envelope x := fun x hx =>
        envelope_congr ((hsender x).trans (if_neg fun he => by
          cases hacc.custody.apart (.mailbox q) (.hand s.sys.kernel.currentPcb) x hx
            (hmine x (operand_of_envelope hcall he)))) rfl
      have hnew : ∀ e, call.sendsTo q = true → call.gives s.sys.kernel = some e →
          ({ s with sys := sys } : Ensemble).envelope e =
            (c.nodes s.sys.kernel.currentPcb).2.letter (pids s.sys.kernel.currentPcb) e := fun e hto he => by
        have hne : call ≠ .releaseMemoryBlock e.val := by
          rintro rfl
          cases hto
        unfold Ensemble.envelope Local.letter
        rw [hsender e, if_pos (envelope_of_gives hcall hne he), h.memory _ e (hown e (operand_of_gives hcall he))]
        simp only [Kernel.current, h.table]
      rw [hmail, hsends, h.mail, hidle.carried, carried_nil hacc.behind (by simp [huser])]
      unfold Call.posted
      rw [List.nil_append, List.nil_append]
      have hmap : (M q).reverse.map ({ s with sys := sys } : Ensemble).envelope = (M q).reverse.map s.envelope :=
        List.map_congr_left fun x hx => hold x (List.mem_reverse.mp hx)
      cases hto : call.sendsTo q with
      | false => simpa using hmap.symm
      | true =>
        cases hgives : call.gives s.sys.kernel with
        | none => simpa using hmap.symm
        | some e => simp [hmap, hnew e hto hgives]
    · rw [hnodes]
      by_cases hq : q = s.sys.kernel.currentPcb
      · subst hq
        rw [Function.update_self]
        exact hgo x a _ hact
      · rw [Function.update_of_ne hq]
        exact h.careful q
  · rw [received_actionsOf hreceives, List.append_nil]
    rfl

/-- A request is answered later. -/
theorem Mirrors.requests (hacc : Accounted img s.sys F M D) (h : Mirrors pids s M c)
    (hrest : s.rest s.sys.kernel.currentPcb = .call op next) (hcall : op.call = some .requestMemoryBlock)
    (hs : s.sys.step (.call .requestMemoryBlock) = some sys) : Simulated pids img s c { s with sys := sys } := by
  obtain ⟨huser, hlog, left, ht⟩ := Sys.step_call hs
  have hcode := h.user huser hrest
  have hnone : ∀ b, Call.requestMemoryBlock.gives s.sys.kernel ≠ some b := fun _ => nofun
  have hlog : sys.log = s.sys.log ++ [.called s.sys.kernel.currentPcb .requestMemoryBlock none] := hlog
  obtain ⟨F', M', D', hacc'⟩ := hacc.step (a := .call .requestMemoryBlock) (fun b hb => absurd hb (hnone b)) hs
  obtain ⟨hidle, D'', hord, -⟩ := hacc.toOrderly.call (c := .requestMemoryBlock) (fun _ => nofun)
    (fun _ e he => absurd he (hnone e)) ht
  rw [posted_of_not fun _ => rfl] at hord
  obtain ⟨rfl, -⟩ := hacc'.mail.det hord.mail
  have hsender := fun x => call_senderPid (c := .requestMemoryBlock) (x := x)
    (fun _ => nofun) hacc.calm.inIProcess ht.kernel?
  have htable := call_sameTable ht.kernel?
  refine ⟨F', M', D', [], c, hacc', ?_, .nil c, fun q => (List.append_nil _).symm⟩
  refine ⟨fun q => (htable q).1.trans (h.table q), fun q call' left' hpc => ?_,
    fun senderID hpc => absurd hpc (hidle _ senderID), fun q => ?_, fun q b hb => ?_, h.memory, fun q => ?_, h.careful⟩
  · by_cases hq : q = s.sys.kernel.currentPcb
    · subst hq
      rw [ht.pc, Function.update_self] at hpc
      cases hpc
      exact ⟨op, next, hrest, hcall⟩
    · rw [ht.pc, Function.update_of_ne hq] at hpc
      exact h.trapped q call' left' hpc
  · unfold Ensemble.code
    by_cases hq : q = s.sys.kernel.currentPcb
    · subst hq
      simp only [ht.pc, Function.update_self, hrest]
      rw [hcode, behind_request hcall]
    · simp only [ht.pc, Function.update_of_ne hq]
      exact h.code q
  · rw [hlog, hands_called_none]
    exact h.held q b hb
  · have hsame : ∀ x, Ensemble.envelope { s with sys := sys } x = s.envelope x := fun x => envelope_congr (hsender x) rfl
    rw [h.mail, hidle.carried, carried_nil hacc.behind (by rw [huser]; exact fun _ => nofun)]
    exact List.map_congr_left fun x _ => (hsame x).symm

/-- A receiver takes the oldest message out of its mailbox, or blocks. -/
theorem Mirrors.receives {k : Kernel} {senderID : Nat} (hacc : Accounted img s.sys F M D) (h : Mirrors pids s M c)
    (hrest : s.rest s.sys.kernel.currentPcb = .call op next) (hcall : op.call = some (.receiveMessage senderID))
    (hcode : (c.nodes s.sys.kernel.currentPcb).1 = .call op next) (hkernel : k.kernelCode = KernelCode.receiveMessage)
    (hres : Rescheduled s.sys.kernel k) (hcur : k.currentPcb = s.sys.kernel.currentPcb)
    (hidle : Idle s.sys) (hhands : ∀ q, hands q sys.log = hands q s.sys.log)
    (hacc' : ∃ F' M' D', Accounted img sys F' M' D') (ht : s.sys.Traps (.receiveMessage senderID) k left sys) :
    Simulated pids img s c { s with sys := sys } := by
  obtain ⟨F', M', D', hacc'⟩ := hacc'
  have hmess : sys.kernel.mess = s.sys.kernel.mess :=
    (receive_mess hkernel (hres.inIProcess hacc.calm.inIProcess) ht.kernel?).trans hres.mess
  have htable := hres.sameTable.trans (receiveMessage_sameTable hkernel ht.kernel?)
  have henv : ∀ x, ({ s with sys := sys } : Ensemble).envelope x = s.envelope x :=
    fun x => envelope_congr (by rw [hmess]) rfl
  have hmirrors : (∀ senderID, sys.pc sys.kernel.currentPcb = .trapped (.receiveMessage senderID) false →
      ∃ e : Addr, sys.kernel.retCodeRecv = e.val) → (∀ q, sys.carried q ++ (M' q).reverse = (M q).reverse) →
      Mirrors pids { s with sys := sys } M' c := by
    intro hmessage hmail
    refine ⟨fun q => (htable q).1.trans (h.table q), fun q call' left' hpc => ?_, hmessage, fun q => ?_, fun q b hb => ?_,
      h.memory, fun q => ?_, h.careful⟩
    · by_cases hq : q = s.sys.kernel.currentPcb
      · subst hq
        rw [ht.pc, Function.update_self] at hpc
        cases hpc
        exact ⟨op, next, hrest, hcall⟩
      · rw [ht.pc, Function.update_of_ne hq] at hpc
        exact h.trapped q call' left' hpc
    · unfold Ensemble.code
      by_cases hq : q = s.sys.kernel.currentPcb
      · subst hq
        simp only [ht.pc, Function.update_self, hrest]
        rw [hcode, behind_receive hcall]
      · simp only [ht.pc, Function.update_of_ne hq]
        exact h.code q
    · rw [hhands]
      exact h.held q b hb
    · rw [h.mail, hidle.carried, hmail, List.nil_append]
      exact List.map_congr_left fun x _ => (henv x).symm
  refine ⟨F', M', D', [], c, hacc', ?_, .nil c, fun q => (List.append_nil _).symm⟩
  rcases hacc.toOrderly.receive hkernel hres hcur ht with ⟨rfl, -, hidle', hord⟩ | ⟨rfl, hcur', -, -, l, e, hl, he, hord⟩
  · obtain ⟨rfl, -⟩ := hacc'.mail.det hord.mail
    exact hmirrors (fun senderID hpc => absurd hpc (hidle' _ senderID)) fun q => by rw [hidle'.carried, List.nil_append]
  · obtain ⟨rfl, -⟩ := hacc'.mail.det hord.mail
    refine hmirrors (fun _ _ => ⟨e, he⟩) fun q => ?_
    by_cases hq : q = s.sys.kernel.currentPcb
    · subst hq
      have hpc : sys.pc s.sys.kernel.currentPcb = .trapped (.receiveMessage senderID) false := by
        rw [ht.pc, Function.update_self]
      rw [carried_message hpc he, Function.update_self, hl, List.reverse_append]
      rfl
    · rw [carried_of_ne hord.behind fun he => hq (he.trans hcur'), Function.update_of_ne hq, List.nil_append]

/-- A statement that has been answered leaves the other processes alone. -/
theorem Mirrors.goesOn (hacc : Accounted img s.sys F M D) (h : Mirrors pids s M c)
    (hnodes : ∀ q, q ≠ s.sys.kernel.currentPcb → c'.nodes q = c.nodes q)
    (hmail : ∀ q, q ≠ s.sys.kernel.currentPcb → c'.mail q = c.mail q)
    (hmine : c'.mail s.sys.kernel.currentPcb = (M s.sys.kernel.currentPcb).reverse.map s.envelope)
    (hcode : (c'.nodes s.sys.kernel.currentPcb).1 = next x)
    (hheld : ∀ b ∈ (c'.nodes s.sys.kernel.currentPcb).2.held,
      b ∈ hands s.sys.kernel.currentPcb (s.sys.left call value).log)
    (hmemory : ∀ b ∈ (c'.nodes s.sys.kernel.currentPcb).2.held,
      (c'.nodes s.sys.kernel.currentPcb).2.memory b = s.contents b)
    (hspec : (c'.nodes s.sys.kernel.currentPcb).1.Spec (clockEffect pids s.sys.kernel.currentPcb)
      (c'.nodes s.sys.kernel.currentPcb).2 (fun _ => True) fun _ _ _ => True) :
    Mirrors pids ({ s with sys := s.sys.left call value }.goOn s.sys.kernel.currentPcb op x next) M c' := by
  have hpc : ∀ q, q ≠ s.sys.kernel.currentPcb → (s.sys.left call value).pc q = s.sys.pc q := fun q hq =>
    Function.update_of_ne hq _ _
  have huser : (s.sys.left call value).pc s.sys.kernel.currentPcb = .user := Function.update_self ..
  have hrest : ∀ q, q ≠ s.sys.kernel.currentPcb → Function.update s.rest s.sys.kernel.currentPcb (next x) q = s.rest q :=
    fun q hq => Function.update_of_ne hq _ _
  unfold goOn
  refine ⟨h.table, fun q call' left' hpc' => ?_, fun senderID hpc' => absurd (huser.symm.trans hpc') nofun, fun q => ?_,
    fun q b hb => ?_, fun q b hb => ?_, fun q => ?_, fun q => ?_⟩ <;>
    by_cases hq : q = s.sys.kernel.currentPcb
  · subst hq
    exact absurd (huser.symm.trans hpc') nofun
  · show ∃ op' next', Function.update s.rest s.sys.kernel.currentPcb (next x) q = _ ∧ _
    rw [hrest q hq]
    exact h.trapped q call' left' ((hpc q hq).symm.trans hpc')
  · subst hq
    unfold Ensemble.code
    simp only [huser, Function.update_self]
    exact hcode
  · unfold Ensemble.code
    simp only [hpc q hq, hrest q hq, hnodes q hq]
    exact h.code q
  · subst hq
    exact hheld b hb
  · rw [hnodes q hq] at hb
    exact mem_hands_returned.mpr (Or.inr (h.held q b hb))
  · subst hq
    exact hmemory b hb
  · rw [hnodes q hq] at hb ⊢
    exact h.memory q b hb
  · subst hq
    have hcarried : (s.sys.left call value).carried s.sys.kernel.currentPcb = [] :=
      carried_of_not fun senderID => by rw [huser]; exact nofun
    show _ = ((s.sys.left call value).carried s.sys.kernel.currentPcb ++ _).map s.envelope
    rw [hcarried]
    exact hmine
  · have hcarried : (s.sys.left call value).carried q = s.sys.carried q := by
      rw [carried_of_ne hacc.behind hq, carried_of_ne hacc.behind.leaves hq]
    show _ = ((s.sys.left call value).carried q ++ _).map s.envelope
    rw [hmail q hq, h.mail, hcarried]
  · subst hq
    exact hspec
  · rw [hnodes q hq]
    exact h.careful q

/-- No process holds what is about to be given to one. -/
theorem Mirrors.not_inFlight (h : Mirrors pids s M c) (hacc : Accounted img s.sys F M D) (hb : b ∈ s.sys.inFlight) :
    b ∉ (c.nodes p).2.held := fun hheld => by
  cases hacc.custody.apart .inFlight (.hand p) b hb (h.held p b hheld)

/-- A wrapper returns to the running process. -/
theorem Mirrors.leaves (hacc : Accounted img s.sys F M D) (h : Mirrors pids s M c) (hok : s.Sound)
    (hrest : s.rest s.sys.kernel.currentPcb = .call op next)
    (hpc : s.sys.pc s.sys.kernel.currentPcb = .trapped call left) (hv : call.leave s.sys.kernel = some value)
    (hx : s.answer value op = some x) :
    Simulated pids img s c ({ s with sys := s.sys.left call value }.goOn s.sys.kernel.currentPcb op x next) := by
  have hacc' := hacc.leave hok hpc hv
  obtain ⟨hcall, hcode⟩ := h.behind hpc hrest
  have hspec := h.careful s.sys.kernel.currentPcb
  have hmail := h.mail s.sys.kernel.currentPcb
  rcases plain_cases op with ⟨y, hplain⟩ | rfl | rfl
  · -- The network has made the call at its trap.
    have hxy : x = y := Option.some.inj (hx.symm.trans (answer_plain s value hplain))
    subst hxy
    have hcarried : s.sys.carried s.sys.kernel.currentPcb = [] := carried_of_not fun senderID hpc' => by
      cases hpc.symm.trans hpc'
      exact plain_of_receive hcall hplain
    have hcode : (c.nodes s.sys.kernel.currentPcb).1 = next x := hcode.trans (by simp [DoorRtos.behind, hplain])
    rw [hcarried, List.nil_append] at hmail
    refine ⟨F, M, D, [], c, hacc', h.goesOn hacc (fun _ _ => rfl) (fun _ _ => rfl) hmail hcode
      (fun b hb => mem_hands_returned.mpr (Or.inr (h.held _ b hb))) (h.memory _) hspec, .nil c, fun q => ?_⟩
    rw [receivedBy_goOn, received_plain hplain, ite_self, List.append_nil]
    exact (List.append_nil _).symm
  · -- The message goes from the mailbox of the node to the node.
    cases hcall
    obtain ⟨rfl, rfl⟩ := Orderly.received hok.1 hpc hv
    obtain ⟨e, he⟩ := h.message _ hpc
    have hcode : (c.nodes s.sys.kernel.currentPcb).1 = .call (.basic .receiveMessage) next := hcode
    have hxe : x = some (s.envelope e) := by
      refine (Option.some.inj hx).symm.trans ?_
      rw [he, toPtr_val]
      rfl
    subst hxe
    rw [carried_message hpc he] at hmail
    rw [hcode] at hspec
    have hnew : (s.envelope e).addr ∉ (c.nodes s.sys.kernel.currentPcb).2.held := fun hb =>
      h.not_inFlight hacc (mem_inFlight hok hpc hv rfl (by rw [he]; exact toPtr_val e)) hb
    have hact : ClockActs pids s.sys.kernel.currentPcb (c.nodes s.sys.kernel.currentPcb).2 (.basic .receiveMessage)
        (some (s.envelope e)) (.receive (s.envelope e)) _ := .basic (.receive _ _ hnew)
    have hnode : nodeStep pids s.sys.kernel.currentPcb (c.nodes s.sys.kernel.currentPcb) (.receive (s.envelope e))
        (next (some (s.envelope e)), (c.nodes s.sys.kernel.currentPcb).2.obtain e (s.contents e)) := by
      rw [show c.nodes s.sys.kernel.currentPcb = (.call (.basic .receiveMessage) next, (c.nodes s.sys.kernel.currentPcb).2)
        from Prod.ext hcode rfl]
      exact .call hact
    refine ⟨F, M, D, [(s.sys.kernel.currentPcb, .receive (s.envelope e))], _, hacc', h.goesOn hacc (fun q hq => ?_)
      (fun q hq => ?_) ?_ ?_ (fun b hb => ?_) (fun b hb => ?_) ?_, .cons (.receive hmail hnode) (.nil _), fun q => ?_⟩
    · exact Function.update_of_ne hq _ _
    · exact Function.update_of_ne hq _ _
    · exact Function.update_self ..
    · simp only [Function.update_self]
    · simp only [Function.update_self] at hb
      refine mem_hands_returned.mpr ((List.mem_cons.mp hb).imp ?_ (h.held _ b))
      rintro rfl
      exact ⟨⟨rfl, rfl⟩, by rw [he, toPtr_val]⟩
    · simp only [Function.update_self] at hb ⊢
      exact obtain_memory (h.memory _) hb
    · simp only [Function.update_self]
      exact hspec.2.2 _ _ _ hact
    · rw [receivedBy_goOn]
      by_cases hq : q = s.sys.kernel.currentPcb
      · subst hq
        simp [actionsOf, Network.received, Action.receives, basics, DoorRtos.received]
        rfl
      · simp [actionsOf, Network.received, hq, Ne.symm hq]
        rfl
  · -- The block comes with what it holds.
    cases hcall
    cases left with
    | true => exact absurd hpc hok.2
    | false =>
      obtain ⟨b, hb⟩ := hacc.fetched hpc
      cases hv
      have hcode : (c.nodes s.sys.kernel.currentPcb).1 = .call (.basic .requestMemoryBlock) next := hcode
      have hxb : x = b := Option.some.inj (hx.symm.trans (by rw [hb]; exact toPtr_val b))
      subst hxb
      have hcarried : s.sys.carried s.sys.kernel.currentPcb = [] := carried_of_not fun senderID hpc' => by
        cases hpc.symm.trans hpc'
      rw [hcarried, List.nil_append] at hmail
      rw [hcode] at hspec
      have hnew : x ∉ (c.nodes s.sys.kernel.currentPcb).2.held := fun hx =>
        h.not_inFlight hacc (mem_inFlight hok hpc rfl rfl (by rw [hb]; exact toPtr_val x)) hx
      have hact : ClockActs pids s.sys.kernel.currentPcb (c.nodes s.sys.kernel.currentPcb).2 (.basic .requestMemoryBlock)
          x .silent _ := .basic (.request _ x (s.contents x) hnew)
      have hnode : nodeStep pids s.sys.kernel.currentPcb (c.nodes s.sys.kernel.currentPcb) .silent
          (next x, (c.nodes s.sys.kernel.currentPcb).2.obtain x (s.contents x)) := by
        rw [show c.nodes s.sys.kernel.currentPcb =
          (.call (.basic .requestMemoryBlock) next, (c.nodes s.sys.kernel.currentPcb).2) from Prod.ext hcode rfl]
        exact .call hact
      refine ⟨F, M, D, [(s.sys.kernel.currentPcb, .silent)],
        { c with
          nodes := Function.update c.nodes s.sys.kernel.currentPcb
            (next x, (c.nodes s.sys.kernel.currentPcb).2.obtain x (s.contents x)) }, hacc', h.goesOn hacc (fun q hq => ?_)
        (fun _ _ => rfl) hmail ?_ (fun b hb' => ?_) (fun b hb' => ?_) ?_, .cons (.silent hnode) (.nil _), fun q => ?_⟩
      · exact Function.update_of_ne hq _ _
      · simp only [Function.update_self]
      · simp only [Function.update_self] at hb'
        refine mem_hands_returned.mpr ((List.mem_cons.mp hb').imp ?_ (h.held _ b))
        rintro rfl
        exact ⟨⟨rfl, rfl⟩, by rw [hb, toPtr_val]⟩
      · simp only [Function.update_self] at hb' ⊢
        exact obtain_memory (h.memory _) hb'
      · simp only [Function.update_self]
        exact hspec.2.2 _ _ _ hact
      · rw [receivedBy_goOn, received_actionsOf rfl, List.append_nil]
        have hnone : DoorRtos.received (basics [⟨.basic .requestMemoryBlock, x⟩]) = [] := rfl
        rw [hnone, ite_self, List.append_nil]
        rfl

/-- A process that stores to a block that it holds leaves the other blocks and all messages alone. -/
theorem Mirrors.assigns (hacc : Accounted img s.sys F M D) (h : Mirrors pids s M c)
    (hrest : s.rest s.sys.kernel.currentPcb = .call op next) (hcall : op.call = none) (hplain : op.plain = some x)
    (hs : s.assign op = some s') : Simulated pids img s c (s'.goOn s.sys.kernel.currentPcb op x next) := by
  have huser : s.sys.pc s.sys.kernel.currentPcb = .user := by
    cases hpc : s.sys.pc s.sys.kernel.currentPcb with
    | user => rfl
    | trapped call left => exact absurd (hcall.symm.trans (h.behind hpc hrest).1) nofun
  have hcode := h.user huser hrest
  have hspec := h.careful s.sys.kernel.currentPcb
  rw [hcode] at hspec
  obtain ⟨-, ⟨hown, -⟩, hgo⟩ := hspec
  obtain ⟨l, hact, hheld, hmemory, hframe⟩ := assign_inv (p := s.sys.kernel.currentPcb) pids hcall hplain hs
    (h.memory s.sys.kernel.currentPcb)
  have hnode : nodeStep pids s.sys.kernel.currentPcb (c.nodes s.sys.kernel.currentPcb) .silent (next x, l) := by
    rw [show c.nodes s.sys.kernel.currentPcb = (.call op next, (c.nodes s.sys.kernel.currentPcb).2) from Prod.ext hcode rfl]
    exact .call hact
  have hmine : ∀ b, op.operand = some b → b ∈ hands s.sys.kernel.currentPcb s.sys.log := fun b hb => h.held _ b (hown b hb)
  have hsys : s'.sys = { s.sys with kernel := { s.sys.kernel with mess := s'.sys.kernel.mess } } := hframe.sys
  refine ⟨F, M, D, [(s.sys.kernel.currentPcb, .silent)], _, ?_, ?_, .cons (.silent hnode) (.nil _), fun q => ?_⟩
  · show Accounted img s'.sys F M D
    rw [hsys]
    exact ⟨⟨hacc.behind, hacc.hand, hacc.calm.congr (fun _ => rfl) (fun _ => rfl) hacc.calm.inIProcess,
      hacc.mail.congr rfl rfl rfl⟩, hacc.free, hacc.custody, hacc.fetched, hacc.last⟩
  · have hcarried : ∀ q, s'.sys.carried q = s.sys.carried q := fun q => by
      rw [hsys]
      rfl
    have hpcs : s'.sys.pc = s.sys.pc := by rw [hsys]
    have hlog : s'.sys.log = s.sys.log := by rw [hsys]
    have hkernel : s'.sys.kernel = { s.sys.kernel with mess := s'.sys.kernel.mess } := congrArg Sys.kernel hsys
    unfold goOn
    refine ⟨fun q => ?_, fun q call left hpc => ?_, fun senderID hpc => ?_, fun q => ?_, fun q b hb => ?_, fun q b hb => ?_,
      fun q => ?_, fun q => ?_⟩
    · show (s'.sys.kernel.pcbs q).pid = _
      rw [hkernel]
      exact h.table q
    · replace hpc : s'.sys.pc q = .trapped call left := hpc
      rw [hpcs] at hpc
      have hq : q ≠ s.sys.kernel.currentPcb := by
        rintro rfl
        exact absurd (huser.symm.trans hpc) nofun
      show ∃ op' next', Function.update s'.rest s.sys.kernel.currentPcb (next x) q = _ ∧ _
      rw [Function.update_of_ne hq, hframe.rest]
      exact h.trapped q call left hpc
    · replace hpc : s'.sys.pc s'.sys.kernel.currentPcb = .trapped (.receiveMessage senderID) false := hpc
      rw [hpcs, hkernel] at hpc
      exact absurd (huser.symm.trans hpc) nofun
    · unfold Ensemble.code
      by_cases hq : q = s.sys.kernel.currentPcb
      · subst hq
        simp only [hpcs, huser, Function.update_self]
      · simp only [hpcs, Function.update_of_ne hq, hframe.rest]
        exact h.code q
    · show b ∈ hands q s'.sys.log
      rw [hlog]
      by_cases hq : q = s.sys.kernel.currentPcb
      · subst hq
        simp only [Function.update_self, hheld] at hb
        exact h.held _ b hb
      · simp only [Function.update_of_ne hq] at hb
        exact h.held q b hb
    · by_cases hq : q = s.sys.kernel.currentPcb
      · subst hq
        simp only [Function.update_self] at hb ⊢
        exact hmemory b (hheld ▸ hb)
      · simp only [Function.update_of_ne hq] at hb ⊢
        rw [h.memory q b hb]
        refine ((hframe.contents b fun huses => hq ?_)).symm
        cases hacc.custody.apart (.hand q) (.hand s.sys.kernel.currentPcb) b (h.held q b hb) (hmine b huses)
        rfl
    · show _ = (s'.sys.carried q ++ _).map _
      rw [hcarried]
      refine (h.mail q).trans (List.map_congr_left fun x hx => ?_)
      have hne : op.operand ≠ some x := fun huses => by
        rw [carried_nil hacc.behind (by rw [huser]; exact fun _ => nofun), List.nil_append, List.mem_reverse] at hx
        cases hacc.custody.apart (.mailbox q) (.hand s.sys.kernel.currentPcb) x hx (hmine x huses)
      exact (envelope_congr (hframe.sender x hne) (hframe.contents x hne)).symm
    · by_cases hq : q = s.sys.kernel.currentPcb
      · subst hq
        simp only [Function.update_self]
        exact hgo _ _ _ hact
      · simp only [Function.update_of_ne hq]
        exact h.careful q
  · rw [receivedBy_goOn, received_plain hplain, ite_self, received_actionsOf rfl]
    unfold receivedBy
    rw [hframe.past]

/-- What a turn does, the network can do. -/
theorem Mirrors.step (hacc : Accounted img s.sys F M D) (h : Mirrors pids s M c) (hok : s.Sound) (hs : s.step p = some s') :
    Simulated pids img s c s' := by
  obtain ⟨rfl, op, next, hrest, ⟨hcall, x, s₁, hplain, hs₁, rfl⟩ | ⟨call, hcall, ⟨huser, sys, hsys, rfl⟩ |
    ⟨call', left, sys, hpc, hsys, ⟨hleave, rfl⟩ | ⟨value, x, hv, hx, rfl⟩⟩⟩⟩ := step_inv hs
  · exact h.assigns hacc hrest hcall hplain hs₁
  · rcases plain_cases op with ⟨y, hplain⟩ | rfl | rfl
    · exact h.calls hacc hrest hcall hplain hsys
    · cases hcall
      obtain ⟨-, hlog, left, ht⟩ := Sys.step_call hsys
      refine h.receives hacc hrest rfl (h.user huser hrest) rfl (enter_rescheduled _ _) (enter_currentPcb _ _)
        (hacc.behind.idle fun _ => by rw [huser]; exact nofun) (fun q => ?_)
        (hacc.step (a := .call (.receiveMessage 0)) (fun b hb => nomatch hb) hsys) ht
      rw [hlog]
      exact hands_called_none
    · cases hcall
      exact h.requests hacc hrest rfl hsys
  · obtain ⟨hcall', hcode⟩ := h.behind hpc hrest
    cases hcall.symm.trans hcall'
    obtain ⟨⟨senderID, rfl⟩, hflag⟩ := Call.leave_eq_none hleave
    obtain ⟨call, left', hpc', ⟨value, hv, -⟩ | ⟨⟨senderID', rfl⟩, -, hlog, left'', ht⟩⟩ := Sys.step_resume hsys
    · cases hpc.symm.trans hpc'
      exact absurd (hleave.symm.trans hv) nofun
    · cases hpc.symm.trans hpc'
      refine h.receives (k := { s.sys.kernel with kernelCode := KernelCode.receiveMessage }) hacc hrest hcall
        (hcode.trans (behind_receive hcall)) rfl ⟨fun _ => rfl, fun _ => rfl, rfl, rfl, rfl, rfl, rfl, rfl, id⟩ rfl
        (hacc.behind.idle fun senderID he => ?_) (fun q => by rw [hlog]) (hacc.step (a := .resume) hok hsys) ht
      exact absurd (hflag.symm.trans (hacc.hand senderID he)) Bool.false_ne_true
  · obtain ⟨call, left', hpc', ⟨value', hv', rfl⟩ | ⟨⟨senderID', rfl⟩, hflag, -, -⟩⟩ := Sys.step_resume hsys
    · cases hpc.symm.trans hpc'
      cases hv.symm.trans hv'
      exact h.leaves hacc hok hrest hpc hv hx
    · cases hpc.symm.trans hpc'
      simp [Call.leave, hflag] at hv

end
end Ensemble
end DoorRtos
