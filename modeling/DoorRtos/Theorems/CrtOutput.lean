import DoorRtos.Theorems.Crt

/-! The characters that the CRT process outputs. -/

namespace DoorRtos
open Interaction

/-- The bytes at the start of the data of the envelopes that have been sent to process `p`, which hold `data` before. -/
def bytesTo (p : PcbRef) (data : Addr → Nat) : History Op Ans → List Nat
  | [] => []
  | ⟨.store e (.data 0) c, _⟩ :: h => bytesTo p (Function.update data e c) h
  | ⟨.sendMessage q e, _⟩ :: h => if q = p then data e :: bytesTo p data h else bytesTo p data h
  | _ :: h => bytesTo p data h

def promptText : List Nat := "u@door:~# ".toList.map Char.toNat

/-- What is output for one character of a message. -/
def expansion (prompt : Bool) (c : UInt8) : List Nat :=
  if c = carriageReturn then ['\r'.toNat, '\n'.toNat] ++ if prompt then promptText else [] else [c.toNat]

namespace Envelope

/-- The data up to the first `'\0'`. -/
def text (env : Envelope) : List UInt8 := ((List.range messDataSize).map env.data).takeWhile (· ≠ 0)

/-- What is output for a message. -/
def expanded (env : Envelope) : List Nat :=
  if env.type = MessType.crtDisplayRequest then env.text.flatMap (expansion true)
  else if env.type = MessType.crtDisplayNoPrompt then env.text.flatMap (expansion false)
  else []

end Envelope

/-- Whatever the envelopes hold before, the history outputs the bytes `out`. -/
def Emits (h : History Op Ans) (out : List Nat) : Prop := ∀ data, bytesTo uartPid data h = out

section
variable {h h₁ h₂ : History Op Ans} {out out₁ out₂ : List Nat} {data : Nat → UInt8} {n i : Nat} {b : Addr}

theorem bytesTo_append (p : PcbRef) (data : Addr → Nat) (h₁ : History Op Ans) :
    ∃ data', ∀ h₂, bytesTo p data (h₁ ++ h₂) = bytesTo p data h₁ ++ bytesTo p data' h₂ := by
  induction h₁ generalizing data with
  | nil => exact ⟨data, fun _ => rfl⟩
  | cons ev h ih =>
    obtain ⟨op, x⟩ := ev
    cases op with
    | store e field c =>
      cases field with
      | data i =>
        cases i with
        | zero => exact ih (Function.update data e c)
        | succ i => exact ih data
      | _ => exact ih data
    | sendMessage q e =>
      obtain ⟨data', hdata'⟩ := ih data
      refine ⟨data', fun h₂ => ?_⟩
      show (if q = p then data e :: bytesTo p data (h ++ h₂) else bytesTo p data (h ++ h₂)) =
        (if q = p then data e :: bytesTo p data h else bytesTo p data h) ++ bytesTo p data' h₂
      rw [hdata']
      split <;> rfl
    | _ => exact ih data

theorem Emits.nil : Emits [] [] := fun _ => rfl

theorem Emits.append (h₁' : Emits h₁ out₁) (h₂' : Emits h₂ out₂) : Emits (h₁ ++ h₂) (out₁ ++ out₂) := fun data => by
  obtain ⟨data', hdata'⟩ := bytesTo_append uartPid data h₁
  rw [hdata', h₁' data, h₂' data']

theorem Emits.requested (he : Emits h out) : Emits (⟨.requestMemoryBlock, b⟩ :: h) out := he

/-! ### One message -/

theorem putChar_emits (c : Nat) : (putChar c).Sat fun h _ => Emits h [c] := by
  refine .call fun b => .call fun _ => .call fun _ => .call fun _ => .ret fun data => ?_
  show [Function.update data b c b] = [c]
  rw [Function.update_self]

theorem putChars_emits (cs : List Char) : (putChars cs).Sat fun h _ => Emits h (cs.map Char.toNat) := by
  induction cs with
  | nil => exact .ret .nil
  | cons c cs ih => exact .bind (putChar_emits c.toNat) fun h₁ _ he₁ => ih.imp fun h₂ _ he₂ => he₁.append he₂

theorem fancyPrompt_emits : fancyPrompt.Sat fun h _ => Emits h promptText := putChars_emits _

theorem displayByte_emits (prompt : Bool) (c : UInt8) :
    (displayByte prompt c).Sat fun h _ => Emits h (expansion prompt c) := by
  unfold displayByte expansion
  by_cases hc : c = carriageReturn
  · rw [if_pos hc, if_pos hc]
    refine .bind (putChar_emits _) fun h₁ _ he₁ => .bind (putChar_emits _) fun h₂ _ he₂ => .call fun b => ?_
    have hprompt : (if prompt then fancyPrompt else pure () : Proc Unit).Sat fun h _ =>
        Emits h (if prompt then promptText else []) := by
      cases prompt with
      | true => exact fancyPrompt_emits
      | false => exact .ret .nil
    exact hprompt.imp fun h₃ _ he₃ => he₁.append (he₂.append he₃.requested)
  · rw [if_neg hc, if_neg hc]
    exact putChar_emits _

theorem displayFrom_emits (prompt : Bool) (data : Nat → UInt8) (n i : Nat) :
    (displayFrom prompt data n i).Sat fun h _ => Emits h ((displayed data n i).flatMap (expansion prompt)) := by
  induction n generalizing i with
  | zero => exact .ret .nil
  | succ n ih =>
    unfold displayFrom displayed
    by_cases hi : data i ≠ 0 ∧ i < messDataSize
    · rw [if_pos hi, if_pos hi]
      exact .bind (displayByte_emits prompt (data i)) fun h₁ _ he₁ => (ih (i + 1)).imp fun h₂ _ he₂ => he₁.append he₂
    · rw [if_neg hi, if_neg hi]
      exact .ret .nil

/-- The loop displays the data from its index on up to the first `'\0'`. It reads the byte behind the data, too. -/
theorem displayed_eq (hn : messDataSize < n + i) (hi : i ≤ messDataSize) :
    displayed data n i = ((List.range' i (messDataSize - i)).map data).takeWhile (· ≠ 0) := by
  induction n generalizing i with
  | zero => omega
  | succ n ih =>
    unfold displayed
    rcases Nat.eq_or_lt_of_le hi with rfl | hlt
    · rw [if_neg fun h => Nat.lt_irrefl _ h.2, Nat.sub_self]
      rfl
    · rw [show messDataSize - i = messDataSize - (i + 1) + 1 by omega, List.range'_succ, List.map_cons]
      by_cases h0 : data i = 0
      · rw [if_neg fun h => h.1 h0, List.takeWhile_cons_of_neg (by simp [h0])]
      · rw [if_pos ⟨h0, hlt⟩, List.takeWhile_cons_of_pos (by simp [h0]), ih (by omega) hlt]

theorem display_emits (prompt : Bool) (env : Envelope) :
    (display prompt env).Sat fun h _ => Emits h (env.text.flatMap (expansion prompt)) := by
  have htext : displayed env.data (messDataSize + 1) 0 = env.text := by
    rw [displayed_eq (by omega) (Nat.zero_le _), ← List.range_eq_range']
    rfl
  exact htext ▸ displayFrom_emits prompt env.data (messDataSize + 1) 0

theorem crtHandle_emits (env : Envelope) : (crtHandle env).Sat fun h _ => Emits h env.expanded := by
  unfold crtHandle Envelope.expanded
  split
  next => exact display_emits true env
  next =>
    split
    next => exact display_emits false env
    next => exact .ret .nil

/-! ### The whole history -/

theorem crtProcess_emits (n : Nat) :
    (crtProcess n).Sat fun h _ => Emits h ((received h).flatMap Envelope.expanded) := by
  refine serve_sat .nil (fun h he => he) (fun env h₁ h₂ hd he => ?_) n
  have hreceived : received (⟨.receiveMessage, some env⟩ :: (h₁ ++ ⟨.releaseMemoryBlock env.addr, ()⟩ :: h₂)) =
      env :: received h₂ := by
    have happend : received (⟨.receiveMessage, some env⟩ :: (h₁ ++ ⟨.releaseMemoryBlock env.addr, ()⟩ :: h₂)) =
        env :: (received h₁ ++ received h₂) := congrArg (env :: ·) received_append
    rw [happend, (crtHandle_outputs env h₁ () hd).received, List.nil_append]
  rw [hreceived, List.flatMap_cons]
  exact (crtHandle_emits env h₁ () hd).append he

/-- The bytes that the CRT process sends to the UART are the expansions of its messages, one behind the other, whatever
    the blocks hold that it is given. -/
theorem crtProcess_outputs (hd : (crtProcess n).Does h ()) (data : Addr → Nat) :
    bytesTo uartPid data h = (received h).flatMap Envelope.expanded := crtProcess_emits n h () hd data

end

/-- A message with a carriage return, displayed without a prompt. -/
theorem crtProcess_outputs_newline :
    ∃ h, (crtProcess 1).Does h () ∧
      received h = [textMessage firstBlock MessType.crtDisplayNoPrompt [65, carriageReturn]] ∧
      bytesTo uartPid (fun _ => 0) h = [65, 13, 10] := by
  have hd : (crtProcess 1).Does
      [⟨.receiveMessage, some (textMessage firstBlock MessType.crtDisplayNoPrompt [65, carriageReturn])⟩,
        ⟨.requestMemoryBlock, rtosMap.block 1⟩, ⟨.store (rtosMap.block 1) (.data 0) 65, ()⟩,
        ⟨.sendMessage uartPid (rtosMap.block 1), ()⟩, ⟨.write .serial1Imr 3, ()⟩,
        ⟨.requestMemoryBlock, rtosMap.block 2⟩, ⟨.store (rtosMap.block 2) (.data 0) 13, ()⟩,
        ⟨.sendMessage uartPid (rtosMap.block 2), ()⟩, ⟨.write .serial1Imr 3, ()⟩,
        ⟨.requestMemoryBlock, rtosMap.block 3⟩, ⟨.store (rtosMap.block 3) (.data 0) 10, ()⟩,
        ⟨.sendMessage uartPid (rtosMap.block 3), ()⟩, ⟨.write .serial1Imr 3, ()⟩,
        ⟨.requestMemoryBlock, rtosMap.block 4⟩, ⟨.releaseMemoryBlock firstBlock, ()⟩] () :=
    .call (.call (.call (.call (.call (.call (.call (.call (.call (.call (.call (.call (.call (.call (.call
      (.ret ())))))))))))))))
  refine ⟨_, hd, rfl, (crtProcess_outputs hd fun _ => 0).trans ?_⟩
  decide

end DoorRtos
