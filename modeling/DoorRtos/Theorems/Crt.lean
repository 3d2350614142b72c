import DoorRtos.Boot
import DoorRtos.Programs

/-! The blocks that the CRT process requests and those that it sends to the UART. -/

namespace DoorRtos
open Interaction

/-- The CRT process displays a carriage return of the message. -/
def Envelope.Returns (env : Envelope) : Prop :=
  (env.type = MessType.crtDisplayRequest ∨ env.type = MessType.crtDisplayNoPrompt) ∧
    ∃ i < messDataSize, env.data i = carriageReturn ∧ ∀ j < i, env.data j ≠ 0

/-- The bytes that the loop displays from index `i` on. -/
def displayed (data : Nat → UInt8) : Nat → Nat → List UInt8
  | 0, _ => []
  | n + 1, i => if data i ≠ 0 ∧ i < messDataSize then data i :: displayed data n (i + 1) else []

/-- How many blocks more are free after a history than before. -/
def poolChange (h : History Op Ans) : Int := (released h).length - (requested h).length

/-- In the history `h` as many blocks have been sent to the UART as have been requested, every received message has been
    released once, and with the blocks released in `g` the free blocks are those from before the history and those of
    the received messages. -/
structure NoLeak (h g : History Op Ans) : Prop where
  sent : (requested h).length = (envelopesTo uartPid h).length
  released : released h = (received h).map Envelope.addr
  pool : poolChange h + poolChange g = (received h).length

/-- Nothing is received or released, nothing is sent to the UART that has not been requested, and everything that has been
    requested is sent there exactly when `c` holds. -/
structure Outputs (h : History Op Ans) (c : Prop) : Prop where
  received : received h = []
  released : released h = []
  le : (envelopesTo uartPid h).length ≤ (requested h).length
  eq : (requested h).length = (envelopesTo uartPid h).length ↔ c

section
variable {h h₁ h₂ g : History Op Ans} {c c₁ c₂ : Prop} {env : Envelope} {data : Nat → UInt8} {n i : Nat}

theorem Outputs.nil : Outputs [] True := ⟨rfl, rfl, Nat.le_refl _, iff_of_true rfl trivial⟩

theorem Outputs.append (h₁' : Outputs h₁ c₁) (h₂' : Outputs h₂ c₂) : Outputs (h₁ ++ h₂) (c₁ ∧ c₂) where
  received := by rw [received_append, h₁'.received, h₂'.received, List.append_nil]
  released := by rw [released_append, h₁'.released, h₂'.released, List.append_nil]
  le := by
    rw [envelopesTo_append, requested_append, List.length_append, List.length_append]
    exact Nat.add_le_add h₁'.le h₂'.le
  eq := by
    rw [envelopesTo_append, requested_append, List.length_append, List.length_append, ← h₁'.eq, ← h₂'.eq]
    have hle₁ := h₁'.le
    have hle₂ := h₂'.le
    omega

theorem Outputs.iff (ho : Outputs h c₁) (hc : c₁ ↔ c₂) : Outputs h c₂ := ⟨ho.received, ho.released, ho.le, ho.eq.trans hc⟩

/-! ### One message -/

theorem putChar_outputs (x : Nat) : (putChar x).Sat fun h _ => Outputs h True := by
  refine .call fun b => .call fun _ => .call fun _ => .call fun _ => .ret ?_
  exact ⟨rfl, rfl, Nat.le_refl _, iff_of_true rfl trivial⟩

theorem Outputs.append_of_true (h₁' : Outputs h₁ True) (h₂' : Outputs h₂ c) : Outputs (h₁ ++ h₂) c :=
  (h₁'.append h₂').iff (iff_of_eq (true_and c))

theorem putChars_outputs (cs : List Char) : (putChars cs).Sat fun h _ => Outputs h True := by
  induction cs with
  | nil => exact .ret .nil
  | cons x cs ih => exact .bind (putChar_outputs x.toNat) fun h₁ _ ho₁ => ih.imp fun h₂ _ ho₂ => ho₁.append_of_true ho₂

/-- The block that is requested behind a line feed is not sent. -/
theorem Outputs.wasted {b : Addr} (ho : Outputs h True) : Outputs (⟨.requestMemoryBlock, b⟩ :: h) False where
  received := ho.received
  released := ho.released
  le := Nat.le_trans ho.le (Nat.le_succ _)
  eq := by
    refine iff_of_false (fun he => ?_) id
    have hreq : (requested h).length + 1 = (envelopesTo uartPid h).length := he
    have hle := ho.le
    omega

theorem displayByte_outputs (prompt : Bool) (x : UInt8) :
    (displayByte prompt x).Sat fun h _ => Outputs h (x ≠ carriageReturn) := by
  unfold displayByte
  by_cases hx : x = carriageReturn
  · rw [if_pos hx]
    refine .bind (putChar_outputs _) fun h₁ _ ho₁ => .bind (putChar_outputs _) fun h₂ _ ho₂ => .call fun b => ?_
    have hprompt : (if prompt then fancyPrompt else pure () : Proc Unit).Sat fun h _ => Outputs h True := by
      cases prompt with
      | true => exact putChars_outputs _
      | false => exact .ret .nil
    refine Prog.Sat.imp hprompt fun h₃ _ ho₃ => ?_
    exact (ho₁.append_of_true (ho₂.append_of_true (ho₃.wasted (b := b)))).iff (by simp [hx])
  · rw [if_neg hx]
    exact (putChar_outputs _).imp fun h _ ho => ho.iff (by simp [hx])

theorem displayFrom_outputs (prompt : Bool) (data : Nat → UInt8) (n i : Nat) :
    (displayFrom prompt data n i).Sat fun h _ => Outputs h (carriageReturn ∉ displayed data n i) := by
  induction n generalizing i with
  | zero => exact .ret (Outputs.nil.iff (by simp [displayed]))
  | succ n ih =>
    unfold displayFrom displayed
    by_cases hi : data i ≠ 0 ∧ i < messDataSize
    · rw [if_pos hi, if_pos hi]
      refine .bind (displayByte_outputs prompt (data i)) fun h₁ _ ho₁ => (ih (i + 1)).imp fun h₂ _ ho₂ => ?_
      exact (ho₁.append ho₂).iff (by simp [eq_comm])
    · rw [if_neg hi, if_neg hi]
      exact .ret (Outputs.nil.iff (by simp))

theorem mem_displayed {x : UInt8} : x ∈ displayed data n i ↔
    ∃ j, i ≤ j ∧ j < i + n ∧ j < messDataSize ∧ data j = x ∧ ∀ l, i ≤ l → l ≤ j → data l ≠ 0 := by
  induction n generalizing i with
  | zero =>
    refine iff_of_false List.not_mem_nil ?_
    rintro ⟨j, hij, hj, -⟩
    omega
  | succ n ih =>
    unfold displayed
    split
    next hi =>
      rw [List.mem_cons, ih]
      constructor
      · rintro (rfl | ⟨j, hij, hj, hsize, hx, hall⟩)
        · refine ⟨i, Nat.le_refl i, by omega, hi.2, rfl, fun l hil hli => ?_⟩
          rw [Nat.le_antisymm hli hil]
          exact hi.1
        · refine ⟨j, by omega, by omega, hsize, hx, fun l hil hlj => ?_⟩
          rcases Nat.eq_or_lt_of_le hil with rfl | hlt
          · exact hi.1
          · exact hall l hlt hlj
      · rintro ⟨j, hij, hj, hsize, hx, hall⟩
        rcases Nat.eq_or_lt_of_le hij with rfl | hlt
        · exact Or.inl hx.symm
        · exact Or.inr ⟨j, hlt, by omega, hsize, hx, fun l hil hlj => hall l (by omega) hlj⟩
    next hi =>
      refine iff_of_false List.not_mem_nil ?_
      rintro ⟨j, hij, -, hsize, -, hall⟩
      exact hi ⟨hall i (Nat.le_refl i) hij, by omega⟩

theorem display_outputs (prompt : Bool) (env : Envelope) : (display prompt env).Sat fun h _ =>
    Outputs h ¬∃ i < messDataSize, env.data i = carriageReturn ∧ ∀ j < i, env.data j ≠ 0 := by
  refine (displayFrom_outputs prompt env.data _ 0).imp fun h _ ho => ho.iff (not_congr ?_)
  rw [mem_displayed]
  constructor
  · rintro ⟨j, -, -, hsize, hx, hall⟩
    exact ⟨j, hsize, hx, fun l hlj => hall l (Nat.zero_le l) (Nat.le_of_lt hlj)⟩
  · rintro ⟨j, hsize, hx, hall⟩
    refine ⟨j, Nat.zero_le j, by omega, hsize, hx, fun l _ hlj => ?_⟩
    rcases Nat.eq_or_lt_of_le hlj with rfl | hlt
    · rw [hx]
      decide
    · exact hall l hlt

theorem crtHandle_outputs (env : Envelope) : (crtHandle env).Sat fun h _ => Outputs h ¬env.Returns := by
  unfold crtHandle
  split
  next htype => exact (display_outputs true env).imp fun h _ ho => ho.iff (by simp [Envelope.Returns, htype])
  next hreq =>
    split
    next htype => exact (display_outputs false env).imp fun h _ ho => ho.iff (by simp [Envelope.Returns, htype])
    next htype => exact .ret (Outputs.nil.iff (by simp [Envelope.Returns, hreq, htype]))

/-! ### The whole history -/

/-- What the CRT process does with the messages that it receives: nothing that has not been requested is sent to the
    UART, and everything that has been requested is sent there exactly when `c` holds. -/
structure Serves (h : History Op Ans) (c : Prop) : Prop where
  released : released h = (received h).map Envelope.addr
  le : (envelopesTo uartPid h).length ≤ (requested h).length
  eq : (requested h).length = (envelopesTo uartPid h).length ↔ c

theorem crtProcess_serves (n : Nat) : (crtProcess n).Sat fun h _ => Serves h (∀ env ∈ received h, ¬env.Returns) := by
  refine serve_sat ⟨rfl, Nat.le_refl _, iff_of_true rfl fun _ hm => nomatch hm⟩
    (fun h hs => ⟨hs.released, hs.le, hs.eq⟩) ?_ n
  intro env h₁ h₂ hd hs
  have ho := crtHandle_outputs env h₁ () hd
  have hreq : requested (⟨.receiveMessage, some env⟩ :: (h₁ ++ ⟨.releaseMemoryBlock env.addr, ()⟩ :: h₂)) =
      requested h₁ ++ requested h₂ := requested_append
  have hsent : envelopesTo uartPid (⟨.receiveMessage, some env⟩ :: (h₁ ++ ⟨.releaseMemoryBlock env.addr, ()⟩ :: h₂)) =
      envelopesTo uartPid h₁ ++ envelopesTo uartPid h₂ := envelopesTo_append uartPid
  have hreceived : received (⟨.receiveMessage, some env⟩ :: (h₁ ++ ⟨.releaseMemoryBlock env.addr, ()⟩ :: h₂)) =
      env :: (received h₁ ++ received h₂) := congrArg (env :: ·) received_append
  have hreleased : DoorRtos.released (⟨.receiveMessage, some env⟩ :: (h₁ ++ ⟨.releaseMemoryBlock env.addr, ()⟩ :: h₂)) =
      DoorRtos.released h₁ ++ env.addr :: DoorRtos.released h₂ := released_append
  refine ⟨?_, ?_, ?_⟩
  · rw [hreleased, hreceived, ho.released, ho.received, hs.released]
    rfl
  · rw [hsent, hreq, List.length_append, List.length_append]
    exact Nat.add_le_add ho.le hs.le
  · rw [hsent, hreq, hreceived, ho.received, List.length_append, List.length_append, List.nil_append,
      List.forall_mem_cons, ← ho.eq, ← hs.eq]
    have hle₁ := ho.le
    have hle₂ := hs.le
    omega

/-! ### The output of the UART -/

/-- The UART releases everything that it has received, once it finds nothing more. -/
theorem uartOutputFrom_releases (n : Nat) (next : Option Envelope) : (uartOutputFrom n next).Sat fun g a =>
    a = none → released g = (next.toList ++ received g).map Envelope.addr ∧ requested g = [] := by
  induction n generalizing next with
  | zero =>
    cases next with
    | none => exact .ret fun _ => ⟨rfl, rfl⟩
    | some env => exact .ret fun he => nomatch he
  | succ n ih =>
    cases next with
    | none => exact .ret fun _ => ⟨rfl, rfl⟩
    | some env =>
      refine .call fun _ => .call fun _ => .call fun next => .call fun _ => (ih next).imp fun g a hg ha => ?_
      obtain ⟨hrel, hreq⟩ := hg ha
      refine ⟨(congrArg (env.addr :: ·) hrel).trans ?_, hreq⟩
      cases next <;> rfl

theorem uartOutput_releases (n : Nat) : (uartOutput n).Sat fun g a =>
    a = none → released g = (received g).map Envelope.addr ∧ requested g = [] := by
  refine .call fun next => (uartOutputFrom_releases n next).imp fun g a hg ha => ?_
  obtain ⟨hrel, hreq⟩ := hg ha
  refine ⟨hrel.trans ?_, hreq⟩
  cases next <;> rfl

/-- Several visits of the UART i-process to its output side. -/
theorem uartVisits_release {gs : List (History Op Ans)} (hu : ∀ g ∈ gs, ∃ n, (uartOutput n).Does g none) :
    released gs.flatten = (received gs.flatten).map Envelope.addr ∧ requested gs.flatten = [] := by
  induction gs with
  | nil => exact ⟨rfl, rfl⟩
  | cons g gs ih =>
    obtain ⟨n, hd⟩ := hu g List.mem_cons_self
    obtain ⟨hrel, hreq⟩ := uartOutput_releases n g none hd rfl
    obtain ⟨hrels, hreqs⟩ := ih fun g hg => hu g (List.mem_cons_of_mem _ hg)
    rw [List.flatten_cons, released_append, received_append, requested_append, List.map_append, hrel, hrels, hreq, hreqs]
    exact ⟨rfl, rfl⟩

/-- The CRT process sends every block that it requests to the UART, and none is missing from the pool once the UART has
    released what it was sent, exactly when no carriage return is displayed. -/
theorem crtProcess_noLeak_iff {gs : List (History Op Ans)} (hd : (crtProcess n).Does h ())
    (hu : ∀ g ∈ gs, ∃ n, (uartOutput n).Does g none)
    (hsent : ((received gs.flatten).map Envelope.addr).Perm (envelopesTo uartPid h)) :
    NoLeak h gs.flatten ↔ ∀ env ∈ received h, ¬env.Returns := by
  have hs := crtProcess_serves n h () hd
  rw [← hs.eq]
  refine ⟨NoLeak.sent, fun heq => ⟨heq, hs.released, ?_⟩⟩
  obtain ⟨hrel, hreq⟩ := uartVisits_release hu
  have hlen := hsent.length_eq
  unfold poolChange
  rw [hs.released, hrel, hreq, List.length_map, hlen, heq]
  simp

end

/-- A display request with the single byte `'A'`: one block is requested, sent to the UART and released there. -/
theorem crtProcess_noLeak_letter :
    ∃ h g, (crtProcess 1).Does h () ∧ (uartOutput 1).Does g none ∧
      received h = [textMessage firstBlock MessType.crtDisplayRequest [65]] ∧ NoLeak h g := by
  have hd : (crtProcess 1).Does
      [⟨.receiveMessage, some (textMessage firstBlock MessType.crtDisplayRequest [65])⟩,
        ⟨.requestMemoryBlock, secondBlock⟩, ⟨.store secondBlock (.data 0) 65, ()⟩, ⟨.sendMessage uartPid secondBlock, ()⟩,
        ⟨.write .serial1Imr 3, ()⟩, ⟨.releaseMemoryBlock firstBlock, ()⟩] () :=
    .call (.call (.call (.call (.call (.call (.ret ()))))))
  have hu : (uartOutput 1).Does
      [⟨.receiveMessage, some (textMessage secondBlock 0 [65])⟩, ⟨.write .serial1Wd 65, ()⟩,
        ⟨.releaseMemoryBlock secondBlock, ()⟩, ⟨.receiveMessage, none⟩, ⟨.write .serial1Imr 2, ()⟩] none :=
    .call (.call (.call (.call (.call (.ret none)))))
  refine ⟨_, _, hd, hu, rfl, ?_⟩
  have hall := crtProcess_noLeak_iff hd (List.forall_mem_singleton.mpr ⟨1, hu⟩) (.refl _)
  rw [List.flatten_singleton] at hall
  refine hall.mpr fun env hm => ?_
  rw [List.mem_singleton.mp hm]
  rintro ⟨-, i, -, hi, -⟩
  cases i with
  | zero => exact absurd hi (by decide)
  | succ i => exact absurd (show (0 : UInt8) = carriageReturn from hi) (by decide)

/-- A message with a carriage return, displayed without a prompt: three blocks are requested and two are sent. -/
theorem crtProcess_carriageReturn :
    ∃ h, (crtProcess 1).Does h () ∧
      received h = [textMessage firstBlock MessType.crtDisplayNoPrompt [carriageReturn]] ∧ ∀ g, ¬NoLeak h g := by
  have hd : (crtProcess 1).Does
      [⟨.receiveMessage, some (textMessage firstBlock MessType.crtDisplayNoPrompt [carriageReturn])⟩,
        ⟨.requestMemoryBlock, rtosMap.block 1⟩, ⟨.store (rtosMap.block 1) (.data 0) 13, ()⟩,
        ⟨.sendMessage uartPid (rtosMap.block 1), ()⟩, ⟨.write .serial1Imr 3, ()⟩,
        ⟨.requestMemoryBlock, rtosMap.block 2⟩, ⟨.store (rtosMap.block 2) (.data 0) 10, ()⟩,
        ⟨.sendMessage uartPid (rtosMap.block 2), ()⟩, ⟨.write .serial1Imr 3, ()⟩,
        ⟨.requestMemoryBlock, rtosMap.block 3⟩, ⟨.releaseMemoryBlock firstBlock, ()⟩] () :=
    .call (.call (.call (.call (.call (.call (.call (.call (.call (.call (.call (.ret ())))))))))))
  exact ⟨_, hd, rfl, fun g h => absurd h.sent (by decide)⟩

end DoorRtos
