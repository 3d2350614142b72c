import DoorRtos.Contexts
import DoorRtos.Runs
import DoorRtos.Theorems.Endings
import DoorRtos.Theorems.Preemption

/-! Every process has the processor to itself: while others run, its registers and its stack wait as it left them. -/

namespace DoorRtos
open Stack Runs

section
variable {c c' : Cpu} {r : Reg} {rs : List Reg} {a hi sp : Nat}

/-! ### Pushing and popping -/

namespace Cpu

@[simp] theorem push_reg (c : Cpu) (r : Reg) : (c.push r).reg = c.reg := rfl
@[simp] theorem push_sp (c : Cpu) (r : Reg) : (c.push r).sp = c.sp - 4 := rfl
@[simp] theorem push_memory (c : Cpu) (r : Reg) : (c.push r).memory = Stack.store c.memory (c.sp - 4) (c.reg r) := rfl
@[simp] theorem pop_reg (c : Cpu) (r : Reg) : (c.pop r).reg = Function.update c.reg r (load c.memory c.sp) := rfl
@[simp] theorem pop_sp (c : Cpu) (r : Reg) : (c.pop r).sp = c.sp + 4 := rfl
@[simp] theorem pop_memory (c : Cpu) (r : Reg) : (c.pop r).memory = c.memory := rfl

theorem foldl_push_sp (rs : List Reg) (c : Cpu) : (rs.foldl push c).sp = c.sp - 4 * rs.length := by
  induction rs generalizing c with
  | nil => rfl
  | cons r rs ih =>
    rw [List.foldl_cons, ih, push_sp, List.length_cons]
    omega

theorem foldl_pop_sp (rs : List Reg) (c : Cpu) : (rs.foldl pop c).sp = c.sp + 4 * rs.length := by
  induction rs generalizing c with
  | nil => rfl
  | cons r rs ih =>
    rw [List.foldl_cons, ih, pop_sp, List.length_cons]
    omega

theorem foldl_pop_memory (rs : List Reg) (c : Cpu) : (rs.foldl pop c).memory = c.memory := by
  induction rs generalizing c with
  | nil => rfl
  | cons r rs ih => exact (ih (c.pop r)).trans (pop_memory c r)

/-- Only what is pushed changes the memory. -/
theorem foldl_push_outside (hroom : 4 * rs.length ≤ c.sp) (ha : a < c.sp - 4 * rs.length ∨ c.sp ≤ a) :
    (rs.foldl push c).memory a = c.memory a := by
  induction rs generalizing c with
  | nil => rfl
  | cons r rs ih =>
    rw [List.length_cons] at hroom ha
    refine (ih (c := c.push r) (by rw [push_sp]; omega) (by rw [push_sp]; omega)).trans ?_
    rcases ha with ha | ha
    · exact store_of_lt (by omega)
    · exact store_of_ge (by omega)

theorem foldl_push_agree (hroom : 4 * rs.length ≤ c.sp) : Agree c.sp hi c.memory (rs.foldl push c).memory :=
  fun _ ha _ => foldl_push_outside hroom (Or.inr ha)

/-- Registers that are pushed and popped in the opposite order come back. -/
theorem foldl_pop_push (hroom : 4 * rs.length ≤ c.sp) (hsp : c'.sp = c.sp - 4 * rs.length)
    (hmemory : Agree c'.sp c.sp (rs.foldl push c).memory c'.memory) :
    (rs.reverse.foldl pop c').sp = c.sp ∧ ∀ r ∈ rs, (rs.reverse.foldl pop c').reg r = c.reg r := by
  refine ⟨by rw [foldl_pop_sp, hsp, List.length_reverse]; omega, ?_⟩
  induction rs generalizing c with
  | nil => exact fun _ hr => absurd hr List.not_mem_nil
  | cons r rs ih =>
    rw [List.length_cons] at hroom hsp
    have hroom' : 4 * rs.length ≤ (c.push r).sp := by rw [push_sp]; omega
    have hsp' : c'.sp = (c.push r).sp - 4 * rs.length := by rw [push_sp]; omega
    have hrest := ih hroom' hsp' (hmemory.mono (Nat.le_refl _) (by rw [push_sp]; omega))
    intro x hx
    rw [List.reverse_cons, List.foldl_append, List.foldl_cons, List.foldl_nil, pop_reg]
    by_cases hxr : x = r
    · subst hxr
      have hword : Agree (c.push x).sp ((c.push x).sp + 4) (c.push x).memory c'.memory :=
        (foldl_push_agree hroom').trans (hmemory.mono (by omega) (by rw [push_sp]; omega))
      rw [Function.update_self, foldl_pop_memory, foldl_pop_sp, List.length_reverse, hsp', Nat.sub_add_cancel hroom',
        load_congr hword, push_sp, push_memory, load_store]
    · rw [Function.update_of_ne hxr]
      exact hrest x ((List.mem_cons.mp hx).resolve_left hxr)

/-- What is popped depends only on the words that are popped. -/
theorem foldl_pop_congr (hsp : c'.sp = c.sp) (hmemory : Agree c.sp (c.sp + 4 * rs.length) c.memory c'.memory)
    (hr : r ∈ rs ∨ c'.reg r = c.reg r) : (rs.foldl pop c').reg r = (rs.foldl pop c).reg r := by
  induction rs generalizing c c' with
  | nil => exact hr.resolve_left List.not_mem_nil
  | cons x rs ih =>
    rw [List.length_cons] at hmemory
    refine @ih (c.pop x) (c'.pop x) (by rw [pop_sp, pop_sp, hsp]) ?_ ?_
    · exact hmemory.mono (by rw [pop_sp]; omega) (by rw [pop_sp]; omega)
    · by_cases hrx : r = x
      · subst hrx
        refine Or.inr ?_
        rw [pop_reg, pop_reg, Function.update_self, Function.update_self, hsp]
        exact load_congr (hmemory.mono (Nat.le_refl _) (by omega))
      · refine hr.imp (fun hmem => (List.mem_cons.mp hmem).resolve_left hrx) fun he => ?_
        rw [pop_reg, pop_reg, Function.update_of_ne hrx, Function.update_of_ne hrx, he]

/-! ### Saving and resuming -/

theorem mem_saveOrder (r : Reg) : r ∈ saveOrder := by cases r <;> decide

theorem mem_restoreOrder (r : Reg) : r ∈ restoreOrder := List.mem_reverse.mpr (mem_saveOrder r)

theorem saveContext_sp (c : Cpu) : c.saveContext.sp = c.sp - 60 := foldl_push_sp saveOrder c

theorem restoreContext_sp (c : Cpu) : c.restoreContext.sp = c.sp + 60 := foldl_pop_sp restoreOrder c

theorem restoreContext_memory (c : Cpu) : c.restoreContext.memory = c.memory := foldl_pop_memory restoreOrder c

@[simp] theorem returnFromException_memory (c : Cpu) : c.returnFromException.memory = c.memory := rfl

@[simp] theorem resume_memory (sp : Nat) (c : Cpu) : (c.resume sp).memory = c.memory := by
  rw [resume, returnFromException_memory, restoreContext_memory]

theorem saveContext_outside (hroom : 60 ≤ c.sp) (ha : a < c.sp - 60 ∨ c.sp ≤ a) : c.saveContext.memory a = c.memory a := by
  unfold saveContext
  exact foldl_push_outside hroom ha

theorem exception_outside {vector : Nat} (hroom : 8 ≤ c.sp / 4 * 4) (ha : a < c.sp / 4 * 4 - 8 ∨ c.sp ≤ a) :
    (c.exception vector).memory a = c.memory a := by
  rcases ha with ha | ha
  · exact (store_of_lt ha).trans (store_of_lt (by omega))
  · exact (store_of_ge (by omega)).trans (store_of_ge (by omega))

theorem returnFromException_congr (hreg : c'.reg = c.reg) (hsp : c'.sp = c.sp)
    (hmemory : Agree c.sp (c.sp + 8) c.memory c'.memory) :
    c'.returnFromException.toContext = c.returnFromException.toContext := by
  have hframe : load c'.memory c.sp = load c.memory c.sp := load_congr (hmemory.mono (Nat.le_refl _) (by omega))
  have hpc : load c'.memory (c.sp + 4) = load c.memory (c.sp + 4) := load_congr (hmemory.mono (by omega) (by omega))
  simp only [returnFromException, hreg, hsp, hframe, hpc]

/-- What is resumed depends only on the frame. -/
theorem resume_congr (h : Agree sp (sp + 68) c.memory c'.memory) : (c'.resume sp).toContext = (c.resume sp).toContext := by
  have hregs : Agree sp (sp + 4 * restoreOrder.length) c.memory c'.memory :=
    h.mono (Nat.le_refl _) (Nat.add_le_add_left (by decide) _)
  refine returnFromException_congr ?_ ?_ ?_
  · funext r
    exact @foldl_pop_congr { c with sp := sp } { c' with sp := sp } r restoreOrder rfl hregs (Or.inl (mem_restoreOrder r))
  · rw [restoreContext_sp, restoreContext_sp]
  · rw [restoreContext_memory, restoreContext_memory, restoreContext_sp]
    exact h.mono (by simp) (by simp [Nat.add_assoc])

/-- Resuming undoes `SAVE_CONTEXT`. -/
theorem resume_saved (hroom : 60 ≤ c.sp) (h : Agree (c.sp - 60) (c.sp + 8) c.saveContext.memory c'.memory) :
    (c'.resume (c.sp - 60)).toContext = c.returnFromException.toContext := by
  have hpop := @foldl_pop_push c { c' with sp := c.sp - 60 } saveOrder hroom rfl (h.mono (Nat.le_refl _) (by omega))
  refine returnFromException_congr (funext fun r => hpop.2 r (mem_saveOrder r)) hpop.1 ?_
  rw [restoreContext_memory]
  have hsaved : Agree c.sp (c.sp + 8) c.memory c.saveContext.memory := fun _ ha _ => saveContext_outside hroom (Or.inr ha)
  exact hsaved.trans (h.mono (by omega) (Nat.le_refl _))

/-- Returning undoes an exception. -/
theorem returnFromException_exception {vector : Nat} (hvector : vector < 256) (hroom : 8 ≤ c.sp / 4 * 4)
    (hreg : c'.reg = c.reg)
    (hsp : c'.sp = (c.exception vector).sp) (h : Agree c'.sp (c'.sp + 8) (c.exception vector).memory c'.memory) :
    c'.returnFromException.toContext = c.toContext := by
  have hsr := c.sr.toNat_lt
  have hframe : load c'.memory c'.sp = UInt32.ofNat ((4 + c.sp % 4) * 2 ^ 28 + vector * 2 ^ 18 + c.sr.toNat) := by
    rw [load_congr (h.mono (Nat.le_refl _) (by omega)), hsp]
    exact load_store _ _ _
  have hpc : load c'.memory (c'.sp + 4) = c.pc := by
    rw [load_congr (h.mono (by omega) (by omega)), hsp]
    exact (load_store_of_disjoint (Or.inr (Nat.le_refl _))).trans (load_store _ _ _)
  have hvalue : (load c'.memory c'.sp).toNat = (4 + c.sp % 4) * 2 ^ 28 + vector * 2 ^ 18 + c.sr.toNat := by
    rw [hframe, UInt32.toNat_ofNat']
    omega
  have hstatus : (load c'.memory c'.sp).toUInt16 = c.sr := by
    rw [← UInt16.toNat_inj, UInt32.toNat_toUInt16, hvalue]
    omega
  have hback : c'.sp + 8 + (load c'.memory c'.sp).toNat / 2 ^ 28 % 4 = c.sp := by
    have hat : c'.sp = c.sp / 4 * 4 - 8 := hsp
    rw [hvalue, hat]
    omega
  unfold returnFromException
  simp only [hreg, hpc, hstatus, hback]

theorem le_returnFromException_sp (c : Cpu) : c.sp + 8 ≤ c.returnFromException.sp := Nat.le_add_right _ _

theorem le_resume_sp (sp : Nat) (c : Cpu) : sp + 68 ≤ (c.resume sp).sp := by
  have hsp := le_returnFromException_sp ({ c with sp := sp } : Cpu).restoreContext
  rw [restoreContext_sp] at hsp
  exact hsp

end Cpu
end

/-! ### The stacks -/

/-- The stacks have room for a frame each, and stay above `floor`. -/
def Room (floor : Nat) : List (PcbRef × Nat) → Nat → Prop
  | [], _ => True
  | process :: processes, offset => 72 ≤ process.2 ∧ floor + process.2 ≤ offset ∧ Room floor processes (offset - process.2)

section
variable {img : Layout} {L : List (PcbRef × Nat)} {p q : PcbRef} {floor offset o o' size size' lo hi lo' hi' : Nat}

theorem place_cons {process : PcbRef × Nat} (h : place (process :: L) offset p = some (o, size)) :
    p = process.1 ∧ o = offset ∧ size = process.2 ∨ p ≠ process.1 ∧ place L (offset - process.2) p = some (o, size) := by
  by_cases hp : p = process.1
  · rw [place, if_pos hp] at h
    cases h
    exact Or.inl ⟨hp, rfl, rfl⟩
  · rw [place, if_neg hp] at h
    exact Or.inr ⟨hp, h⟩

theorem place_bounds (hroom : Room floor L offset) (h : place L offset p = some (o, size)) :
    72 ≤ size ∧ floor + size ≤ o ∧ o ≤ offset := by
  induction L generalizing offset with
  | nil => cases h
  | cons process L ih =>
    obtain ⟨hsize, hfloor, hrest⟩ := hroom
    rcases place_cons h with ⟨-, rfl, rfl⟩ | ⟨-, h⟩
    · exact ⟨hsize, hfloor, Nat.le_refl _⟩
    · obtain ⟨h₁, h₂, h₃⟩ := ih hrest h
      exact ⟨h₁, h₂, h₃.trans (Nat.sub_le _ _)⟩

theorem place_apart (hroom : Room floor L offset) (h : place L offset p = some (o, size))
    (h' : place L offset q = some (o', size')) (hne : p ≠ q) : o' + size ≤ o ∨ o + size' ≤ o' := by
  induction L generalizing offset with
  | nil => cases h
  | cons process L ih =>
    obtain ⟨-, hfloor, hrest⟩ := hroom
    rcases place_cons h with ⟨rfl, rfl, rfl⟩ | ⟨-, h⟩ <;> rcases place_cons h' with ⟨hq, rfl, rfl⟩ | ⟨-, h'⟩
    · exact absurd hq.symm hne
    · obtain ⟨-, -, h₃⟩ := place_bounds hrest h'
      exact Or.inl (by omega)
    · obtain ⟨-, -, h₃⟩ := place_bounds hrest h
      exact Or.inr (by omega)
    · exact ih hrest h h'

/-- The stacks of `init.c` fit between the memory pool and the top. -/
theorem room_stackSizes : Room (numMemBlocks * sizeofMemoryBlock) stackSizes topOfKernelStack := by
  simp [Room, stackSizes, tasks, stressProcesses, defaultStackSize, topOfKernelStack, numMemBlocks, sizeofMemoryBlock,
    memBlockSize]

theorem stack_inv (h : img.stack p = some (lo, hi)) :
    ∃ o size, place stackSizes topOfKernelStack p = some (o, size) ∧
      lo = img.endAddr + o + 4 - size ∧ hi = img.endAddr + o + 4 := by
  obtain ⟨⟨o, size⟩, hplace, he⟩ := Option.map_eq_some_iff.mp h
  cases he
  exact ⟨o, size, hplace, rfl, rfl⟩

/-- Every created process has a stack. -/
theorem exists_stack (img : Layout) (hp : IProcess p ∨ p ∈ readyProcesses.map Prod.fst) :
    ∃ lo hi, img.stack p = some (lo, hi) := by
  have hplaces : ∀ q : PcbRef, IProcess q ∨ q ∈ readyProcesses.map Prod.fst →
      (place stackSizes topOfKernelStack q).isSome := by decide
  obtain ⟨⟨o, size⟩, hplace⟩ := Option.isSome_iff_exists.mp (hplaces p hp)
  exact ⟨_, _, congrArg (Option.map _) hplace⟩

/-- Two stacks have no byte in common. -/
theorem stack_apart (h : img.stack p = some (lo, hi)) (h' : img.stack q = some (lo', hi')) (hne : p ≠ q) :
    hi' ≤ lo ∨ hi ≤ lo' := by
  obtain ⟨o, size, hplace, rfl, rfl⟩ := stack_inv h
  obtain ⟨o', size', hplace', rfl, rfl⟩ := stack_inv h'
  rcases place_apart room_stackSizes hplace hplace' hne with he | he
  · exact Or.inl (by omega)
  · exact Or.inr (by omega)

/-- A stack is above the memory pool. -/
theorem stack_above_pool (h : img.stack p = some (lo, hi)) : img.endAddr + numMemBlocks * sizeofMemoryBlock ≤ lo := by
  obtain ⟨o, size, hplace, rfl, rfl⟩ := stack_inv h
  obtain ⟨-, hfloor, -⟩ := place_bounds room_stackSizes hplace
  omega

end

/-! ### What the code of one process leaves alone -/

section
variable {img : Layout} {p q : PcbRef} {lo hi sp sp' a : Nat} {m m' m'' : Memory}

theorem Layout.Spares.mono (h : img.Spares p sp m m') (hsp : sp ≤ sp') : img.Spares p sp' m m' := fun q lo hi hq => by
  refine (h q lo hi hq).mono ?_ (Nat.le_refl hi)
  split
  · exact hsp
  · exact Nat.le_refl lo

theorem Layout.Spares.trans (h : img.Spares p sp m m') (h' : img.Spares p sp m' m'') : img.Spares p sp m m'' :=
  fun q lo hi hq => (h q lo hi hq).trans (h' q lo hi hq)

theorem Layout.Spares.own (h : img.Spares p sp m m') (hp : img.stack p = some (lo, hi)) : Agree sp hi m m' := by
  have hagree := h p lo hi hp
  rwa [if_pos rfl] at hagree

theorem Layout.Spares.other (h : img.Spares p sp m m') (hq : img.stack q = some (lo, hi)) (hne : q ≠ p) :
    Agree lo hi m m' := by
  have hagree := h q lo hi hq
  rwa [if_neg hne] at hagree

/-- What changes only bytes of the stack of `p` below `sp` spares the stacks. -/
theorem spares_of_outside (hp : img.stack p = some (lo, hi)) (hsp : sp ≤ hi) (h : ∀ a, a < lo ∨ sp ≤ a → m' a = m a) :
    img.Spares p sp m m' := fun q lo' hi' hq a ha ha' => by
  by_cases hqp : q = p
  · rw [if_pos hqp] at ha
    exact h a (Or.inr ha)
  · rw [if_neg hqp] at ha
    refine h a ?_
    rcases stack_apart hp hq (Ne.symm hqp) with he | he
    · exact Or.inl (ha'.trans_le he)
    · exact Or.inr (hsp.trans (he.trans ha))

end

/-! ### Who runs behind a handler -/

section
variable {k k' : Kernel} {e : Exception}

theorem swiTrapHandler_current (h : swiTrapHandler k = .returned k') : k'.currentPcb = k.currentPcb := by
  have hpointer : ∀ {w : Nat} {o : Addr → Outcome Kernel}, (liftM (toPtr w) >>= o) = .returned k' →
      ∃ b, o b = .returned k' := fun {w o} hs => by
    cases hw : toPtr w with
    | none =>
      rw [hw] at hs
      cases hs
    | some b =>
      rw [hw] at hs
      exact ⟨b, hs⟩
  have hends : ∀ {o : Outcome Kernel} {S : PcbRef → Prop}, o = .returned k' → Ends id k S o →
      k'.currentPcb = k.currentPcb :=
    fun hs hends => (hs ▸ hends).1
  by_cases h₁ : k.kernelCode = KernelCode.sendMessage
  · rw [swiTrapHandler_sendMessage h₁] at h
    obtain ⟨b, h⟩ := hpointer h
    exact hends h ((kernelSendMessage_ends k.param1 k.param2 b k).store (fun _ => rfl) fun _ => rfl)
  by_cases h₂ : k.kernelCode = KernelCode.receiveMessage
  · rw [swiTrapHandler_receiveMessage h₂] at h
    exact hends h ((kernelReceiveMessage_ends 0 k).store (fun _ => rfl) fun _ => rfl)
  by_cases h₃ : k.kernelCode = KernelCode.requestMemory
  · rw [swiTrapHandler_requestMemory h₃] at h
    exact hends h ((kernelRequestMemoryBlock_ends k).store (fun _ => rfl) fun _ => rfl)
  by_cases h₄ : k.kernelCode = KernelCode.releaseMemory
  · rw [swiTrapHandler_releaseMemory h₄] at h
    obtain ⟨b, h⟩ := hpointer h
    exact hends h ((kernelReleaseMemoryBlock_ends k.param1 b k).store (fun _ => rfl) fun _ => rfl)
  by_cases h₅ : k.kernelCode = KernelCode.releaseProcessor
  · rw [swiTrapHandler_releaseProcessor h₅] at h
    exact hends h (processSwitch_ends k)
  by_cases h₆ : k.kernelCode = KernelCode.delayedSend
  · rw [swiTrapHandler_delayedSend h₆] at h
    obtain ⟨b, h⟩ := hpointer h
    exact hends h ((kernelDelayedSend_ends k.param1 k.param2 k.param3 b k).store (fun _ => rfl) fun _ => rfl)
  by_cases h₇ : k.kernelCode = KernelCode.setPrio
  · rw [swiTrapHandler_setPrio h₇] at h
    exact hends h ((kernelSetProcessPriority_ends k.param1 k.param2 k).store (fun _ => rfl) fun _ => rfl)
  by_cases h₈ : k.kernelCode = KernelCode.getPrio
  · rw [swiTrapHandler_getPrio h₈] at h
    unfold kernelGetProcessPriority at h
    split at h <;> cases h <;> rfl
  · unfold swiTrapHandler at h
    rw [if_neg h₁, if_neg h₂, if_neg h₃, if_neg h₄, if_neg h₅, if_neg h₆, if_neg h₇, if_neg h₈] at h
    cases h
    rfl

theorem interruptHandler_switches (q : PcbRef) (k k' : Kernel) : interruptHandler q k ≠ .returned k' := by
  intro h
  have h : (liftM (enqueuePCBByPriority .ready k.currentPcb { k with inIProcess := true }) >>= contextSwitch (some q)) =
      Outcome.returned k' := h
  cases hput : enqueuePCBByPriority .ready k.currentPcb { k with inIProcess := true } with
  | none =>
    rw [hput] at h
    cases h
  | some k₁ =>
    rw [hput] at h
    cases h

/-- A handler that returns has not changed the running process. -/
theorem handler_current (h : e.handler k = .returned k') : k'.currentPcb = k.currentPcb := by
  cases e with
  | trap => exact swiTrapHandler_current h
  | interrupt i =>
    have hs : i.handler k = .returned k' := h
    rw [handler_eq] at hs
    exact absurd hs (interruptHandler_switches _ _ _)

end

namespace Processor

section
variable {img : Layout} {s s' s₁ : Processor} {p q : PcbRef} {d : Activity} {e : Exception} {prologue body : Memory}
  {k : Kernel} {lo hi : Nat}

/-- The stack pointers are inside of the stacks. -/
structure Sheltered (img : Layout) (s : Processor) : Prop where
  running : ∀ lo hi, img.stack s.kernel.currentPcb = some (lo, hi) → lo ≤ s.cpu.sp ∧ s.cpu.sp ≤ hi
  waiting : ∀ p lo hi, img.stack p = some (lo, hi) → p ≠ s.kernel.currentPcb →
    lo ≤ s.stackPointer p ∧ (s.context p).sp ≤ hi

theorem context_current (s : Processor) : s.context s.kernel.currentPcb = s.cpu.toContext := if_pos rfl

theorem context_waiting (h : p ≠ s.kernel.currentPcb) :
    s.context p = (s.cpu.resume (s.stackPointer p)).toContext :=
  if_neg h

theorem Sheltered.context (hs : s.Sheltered img) (h : img.stack p = some (lo, hi)) :
    lo ≤ (s.context p).sp ∧ (s.context p).sp ≤ hi := by
  by_cases hp : p = s.kernel.currentPcb
  · subst hp
    rw [context_current]
    exact hs.running lo hi h
  · obtain ⟨hlo, hhi⟩ := hs.waiting p lo hi h hp
    refine ⟨?_, hhi⟩
    rw [context_waiting hp]
    exact hlo.trans ((Nat.le_add_right _ _).trans (Cpu.le_resume_sp _ _))

/-- The frame of a process that waits is inside of its stack. -/
theorem Sheltered.frame (hs : s.Sheltered img) (h : img.stack p = some (lo, hi)) (hp : p ≠ s.kernel.currentPcb) :
    lo ≤ s.stackPointer p ∧ s.stackPointer p + 68 ≤ hi := by
  obtain ⟨hlo, hhi⟩ := hs.waiting p lo hi h hp
  rw [context_waiting hp] at hhi
  exact ⟨hlo, (Cpu.le_resume_sp _ _).trans hhi⟩

/-! ### The handlers -/

theorem enter_tmpSp (s : Processor) (vector : Nat) (prologue : Memory) :
    (s.enter vector prologue).tmpSp = s.cpu.sp / 4 * 4 - 8 - 60 :=
  Cpu.saveContext_sp _

theorem handled_tmpSp (s : Processor) : (s.handled e prologue body).tmpSp = s.cpu.sp / 4 * 4 - 8 - 60 := enter_tmpSp s _ _

/-- A handler changes nothing in the stacks but what is below the stack pointer of the process that it interrupts. -/
theorem Enters.spares (h : s.Enters img e prologue body) (hs : s.Sheltered img) :
    img.Spares s.kernel.currentPcb s.cpu.sp s.cpu.memory (s.handled e prologue body).cpu.memory := by
  obtain ⟨lo, hi, hstack, hroom⟩ := h.room
  obtain ⟨-, hhi⟩ := hs.running lo hi hstack
  have hexception : img.Spares s.kernel.currentPcb s.cpu.sp s.cpu.memory (s.cpu.exception e.vector).memory :=
    spares_of_outside hstack hhi fun a ha => Cpu.exception_outside (by omega) (by omega)
  have hprologue : img.Spares s.kernel.currentPcb s.cpu.sp (s.cpu.exception e.vector).memory prologue :=
    h.prologue_spares.mono (show s.cpu.sp / 4 * 4 - 8 ≤ s.cpu.sp by omega)
  have hsave : img.Spares s.kernel.currentPcb s.cpu.sp prologue (s.enter e.vector prologue).cpu.memory := by
    refine spares_of_outside hstack hhi fun a ha => ?_
    have hat : (s.cpu.exception e.vector).sp = s.cpu.sp / 4 * 4 - 8 := rfl
    exact Cpu.saveContext_outside (show 60 ≤ (s.cpu.exception e.vector).sp by omega)
      (show a < (s.cpu.exception e.vector).sp - 60 ∨ (s.cpu.exception e.vector).sp ≤ a by omega)
  have hbody : img.Spares s.kernel.currentPcb s.cpu.sp (s.enter e.vector prologue).cpu.memory body :=
    h.body_spares.mono (by rw [enter_tmpSp]; omega)
  exact ((hexception.trans hprologue).trans hsave).trans hbody

/-- The process that is interrupted can be resumed as it was. -/
theorem Enters.resumes (h : s.Enters img e prologue body) (hs : s.Sheltered img) :
    ((s.handled e prologue body).cpu.resume (s.handled e prologue body).tmpSp).toContext = s.cpu.toContext := by
  obtain ⟨lo, hi, hstack, hroom⟩ := h.room
  obtain ⟨-, hhi⟩ := hs.running lo hi hstack
  have hat : (s.cpu.exception e.vector).sp = s.cpu.sp / 4 * 4 - 8 := rfl
  have hvector : e.vector < 256 := by
    rcases e with _ | _ | _ <;> decide
  rw [handled_tmpSp, ← hat]
  refine (Cpu.resume_saved (c := { s.cpu.exception e.vector with sr := 0x2700, memory := prologue }) ?_ ?_).trans ?_
  · show 60 ≤ (s.cpu.exception e.vector).sp
    omega
  · have hbody := h.body_spares.own hstack
    refine hbody.mono ?_ ?_
    · exact Nat.le_of_eq (Cpu.saveContext_sp _)
    · show (s.cpu.exception e.vector).sp + 8 ≤ hi
      omega
  · refine Cpu.returnFromException_exception hvector (by omega) rfl rfl
      ((h.prologue_spares.own hstack).mono (Nat.le_refl _) ?_)
    show (s.cpu.exception e.vector).sp + 8 ≤ hi
    omega

/-- Every stack can still be resumed as it was, the one of the interrupted process from `tmp_sp`. -/
theorem Enters.contexts (h : s.Enters img e prologue body) (hs : s.Sheltered img) (hq : img.stack q = some (lo, hi)) :
    ((s.handled e prologue body).cpu.resume
      (if q = s.kernel.currentPcb then (s.handled e prologue body).tmpSp else s.stackPointer q)).toContext =
        s.context q := by
  by_cases hp : q = s.kernel.currentPcb
  · subst hp
    rw [if_pos rfl, context_current]
    exact h.resumes hs
  · rw [if_neg hp, context_waiting hp]
    obtain ⟨hlo, hhi⟩ := hs.frame hq hp
    exact Cpu.resume_congr (((h.spares hs).other hq hp).mono hlo hhi)

theorem leave_context (s : Processor) (q : PcbRef) :
    s.leave.context q = (s.cpu.resume (if q = s.kernel.currentPcb then s.tmpSp else s.stackPointer q)).toContext := by
  by_cases hq : q = s.kernel.currentPcb
  · rw [if_pos hq]
    exact if_pos hq
  · rw [if_neg hq]
    refine (context_waiting (s := s.leave) hq).trans (Cpu.resume_congr ?_)
    rw [leave, Cpu.resume_memory]
    exact .refl _ _ _

theorem contextSwitch_context (k : Kernel) (s : Processor) (q : PcbRef) :
    (s.contextSwitch k).context q =
      (s.cpu.resume (if q = s.kernel.currentPcb then s.tmpSp else s.stackPointer q)).toContext := by
  unfold contextSwitch
  rw [leave_context, ← Function.update_apply s.stackPointer s.kernel.currentPcb s.tmpSp q]
  by_cases hq : q = k.currentPcb
  · rw [if_pos hq, ← hq]
  · rw [if_neg hq]

/-! ### The steps -/

/-- What a step leaves to a process: its registers, and what is on its stack. -/
structure Keeps (s s' : Processor) (q : PcbRef) (hi : Nat) : Prop where
  context : s'.context q = s.context q
  stack : Agree (s.context q).sp hi s.cpu.memory s'.cpu.memory

theorem Keeps.refl (s : Processor) (q : PcbRef) (hi : Nat) : s.Keeps s q hi := ⟨rfl, .refl _ _ _⟩

theorem Keeps.trans {s'' : Processor} (h : s.Keeps s' q hi) (h' : s'.Keeps s'' q hi) : s.Keeps s'' q hi :=
  ⟨h'.context.trans h.context, h.stack.trans (h.context ▸ h'.stack)⟩

/-- A handler has run and a process has been resumed. -/
theorem Enters.keeps (h : s.Enters img e prologue body) (hs : s.Sheltered img)
    (hcontext : ∀ q, s'.context q = ((s.handled e prologue body).cpu.resume
      (if q = s.kernel.currentPcb then (s.handled e prologue body).tmpSp else s.stackPointer q)).toContext)
    (hmemory : s'.cpu.memory = (s.handled e prologue body).cpu.memory) (hq : img.stack q = some (lo, hi)) :
    s.Keeps s' q hi := by
  refine ⟨(hcontext q).trans (h.contexts hs hq), ?_⟩
  rw [hmemory]
  by_cases hp : q = s.kernel.currentPcb
  · subst hp
    rw [context_current]
    exact (h.spares hs).own hq
  · exact ((h.spares hs).other hq hp).mono (hs.context hq).1 (Nat.le_refl hi)

theorem Sheltered.of_keeps (hs : s.Sheltered img) (hkeeps : ∀ q lo hi, img.stack q = some (lo, hi) → s.Keeps s' q hi)
    (hpointer : ∀ q lo hi, img.stack q = some (lo, hi) → q ≠ s'.kernel.currentPcb → lo ≤ s'.stackPointer q) :
    s'.Sheltered img where
  running lo hi hstack := by
    have hbounds := hs.context hstack
    rwa [← (hkeeps _ lo hi hstack).context, context_current] at hbounds
  waiting q lo hi hstack hq := by
    refine ⟨hpointer q lo hi hstack hq, ?_⟩
    rw [(hkeeps q lo hi hstack).context]
    exact (hs.context hstack).2

theorem Step.kept (h : Step img s (p, d) s') (hs : s.Sheltered img) :
    s'.Sheltered img ∧ ∀ q lo hi, img.stack q = some (lo, hi) → (q = p → d ≠ .compute) → s.Keeps s' q hi := by
  cases h with
  | @compute lo hi cpu k hstack hlo hhi hsr hmemory hcurrent =>
    have hwait : ∀ q, q ≠ s.kernel.currentPcb →
        ({ s with cpu := cpu, kernel := k } : Processor).context q = (cpu.resume (s.stackPointer q)).toContext :=
      fun q hq => context_waiting (s := { s with cpu := cpu, kernel := k }) (hcurrent ▸ hq)
    have hkept : ∀ q lo hi, img.stack q = some (lo, hi) → q ≠ s.kernel.currentPcb →
        s.Keeps { s with cpu := cpu, kernel := k } q hi := fun q lo' hi' hq hne => by
      obtain ⟨hlo', hhi'⟩ := hs.frame hq hne
      refine ⟨?_, (hmemory.other hq hne).mono (hs.context hq).1 (Nat.le_refl _)⟩
      rw [hwait q hne, context_waiting hne]
      exact Cpu.resume_congr ((hmemory.other hq hne).mono hlo' hhi')
    refine ⟨⟨fun lo' hi' hstack' => ?_, fun q lo' hi' hq hne => ?_⟩,
      fun q lo hi hq hd => hkept q lo hi hq fun hp => hd hp rfl⟩
    · have hstack' : img.stack k.currentPcb = some (lo', hi') := hstack'
      rw [hcurrent, hstack] at hstack'
      cases hstack'
      exact ⟨hlo, hhi⟩
    · have hne : q ≠ s.kernel.currentPcb := fun he => hne (he.trans hcurrent.symm)
      rw [(hkept q lo' hi' hq hne).context]
      exact hs.waiting q lo' hi' hq hne
  | @returns e prologue body k henters hhandler =>
    have hcurrent := handler_current hhandler
    have hkeeps : ∀ q lo hi, img.stack q = some (lo, hi) →
        s.Keeps { s.handled e prologue body with kernel := k }.leave q hi := fun q lo hi hq =>
      henters.keeps hs (fun q => ?_) ?_ hq
    · refine ⟨hs.of_keeps hkeeps fun q lo hi hq hne => ?_, fun q lo hi hq _ => hkeeps q lo hi hq⟩
      have hne : q ≠ k.currentPcb := hne
      exact (hs.waiting q lo hi hq (hcurrent ▸ hne)).1
    · rw [leave_context]
      show (Cpu.resume (if q = k.currentPcb then _ else _) _).toContext = _
      rw [hcurrent]
      rfl
    · exact Cpu.resume_memory _ _
  | @switches e prologue body k henters hhandler =>
    have hkeeps : ∀ q lo hi, img.stack q = some (lo, hi) → s.Keeps ((s.handled e prologue body).contextSwitch k) q hi :=
      fun q lo hi hq => henters.keeps hs (contextSwitch_context k _) (Cpu.resume_memory _ _) hq
    refine ⟨hs.of_keeps hkeeps fun q lo hi hq hne => ?_, fun q lo hi hq _ => hkeeps q lo hi hq⟩
    show lo ≤ Function.update s.stackPointer s.kernel.currentPcb (s.handled e prologue body).tmpSp q
    by_cases hp : q = s.kernel.currentPcb
    · subst hp
      obtain ⟨lo', hi', hstack, hroom⟩ := henters.room
      rw [hq] at hstack
      cases hstack
      rw [Function.update_self, handled_tmpSp]
      omega
    · rw [Function.update_of_ne hp]
      exact (hs.waiting q lo hi hq hp).1

theorem Sheltered.run {log : List (PcbRef × Activity)} (hs : s.Sheltered img) (hp : Path (Step img) s log s') :
    s'.Sheltered img ∧ ∀ q lo hi, img.stack q = some (lo, hi) → (q, Activity.compute) ∉ log → s.Keeps s' q hi := by
  induction hp with
  | nil s => exact ⟨hs, fun q lo hi _ _ => .refl s q hi⟩
  | @cons s t u x log h _ ih =>
    obtain ⟨p, d⟩ := x
    obtain ⟨ht, hkept⟩ := h.kept hs
    obtain ⟨hu, hrest⟩ := ih ht
    refine ⟨hu, fun q lo hi hq hlog => ?_⟩
    have hfirst : q = p → d ≠ .compute := by
      rintro rfl rfl
      exact hlog List.mem_cons_self
    exact (hkept q lo hi hq hfirst).trans (hrest q lo hi hq fun hmem => hlog (List.mem_cons_of_mem _ hmem))

end
end Processor

/-! ### The first contexts -/

/-- The registers that a process starts with. -/
def initialReg : Reg → UInt32
  | .d0 => 0xD0
  | .d1 => 0xD1
  | .d2 => 0xD2
  | .d3 => 0xD3
  | .d4 => 0xD4
  | .d5 => 0xD5
  | .d6 => 0xD6
  | .d7 => 0xD7
  | .a0 => 0xA0
  | .a1 => 0xA1
  | .a2 => 0xA2
  | .a3 => 0xA3
  | .a4 => 0xA4
  | .a5 => 0xA5
  | .a6 => 0xA6

/-- The context that a process starts with. -/
def Context.initial (sp : Nat) (procEntry : UInt32) (isIProcess : Bool) : Context :=
  ⟨initialReg, sp, procEntry, if isIProcess then 0x2700 else 0⟩

section
variable {img : Layout} {procEntry : PcbRef → UInt32} {L : List (PcbRef × Nat)} {s : Stacks} {c : Cpu} {m : Memory}
  {p : PcbRef} {a sp floor o size lo hi : Nat} {entry : UInt32} {i : Bool}

theorem initLocalStack_sp (m : Memory) (sp : Nat) (entry : UInt32) (i : Bool) :
    (initLocalStack m sp entry i).2 = sp - 64 := by
  unfold initLocalStack
  rw [pushAll_sp]
  exact Nat.add_sub_add_right sp 4 64

theorem initLocalStack_above (hroom : 64 ≤ sp) (ha : sp + 4 ≤ a) : (initLocalStack m sp entry i).1 a = m a :=
  pushAll_above (show 68 ≤ sp + 4 by omega) ha

theorem firstFrame_format (i : Bool) : (firstFrame i).toNat / 2 ^ 28 % 4 = 0 := by cases i <;> decide

theorem firstFrame_sr (i : Bool) : (firstFrame i).toUInt16 = if i then 0x2700 else 0 := by cases i <;> decide

/-- The frame of `init_local_stack` is resumed with the first context. -/
theorem resume_initLocalStack (hroom : 64 ≤ sp) (h : Agree (sp - 64) (sp + 4) (initLocalStack m sp entry i).1 c.memory) :
    (c.resume (sp - 64)).toContext = .initial (sp + 4) entry i := by
  let first : Cpu := ⟨⟨initialReg, sp - 4, entry, 0⟩, Stack.store (Stack.store m sp entry) (sp - 4) (firstFrame i)⟩
  have hsaved : first.saveContext.memory = (initLocalStack m sp entry i).1 := by
    simp [first, initLocalStack, pushAll, Cpu.saveContext, saveOrder, initialReg]
  have hstatus : load first.memory first.sp = firstFrame i := load_store _ _ _
  have hpc : load first.memory (first.sp + 4) = entry := by
    have hat : first.sp + 4 = sp := Nat.sub_add_cancel (by omega)
    rw [hat]
    exact (load_store_of_disjoint (Or.inr (by omega))).trans (load_store _ _ _)
  have hback : first.sp + 8 + (firstFrame i).toNat / 2 ^ 28 % 4 = sp + 4 := by
    rw [firstFrame_format]
    show sp - 4 + 8 + 0 = sp + 4
    omega
  have hat : sp - 64 = first.sp - 60 := show sp - 64 = sp - 4 - 60 by omega
  have hagree : Agree (first.sp - 60) (first.sp + 8) first.saveContext.memory c.memory := by
    rw [hsaved, ← hat]
    exact h.mono (Nat.le_refl _) (show sp - 4 + 8 ≤ sp + 4 by omega)
  rw [hat, Cpu.resume_saved (show 60 ≤ sp - 4 by omega) hagree]
  unfold Cpu.returnFromException Context.initial
  simp only [hstatus, hpc, hback, firstFrame_sr]
  rfl

/-- Creating processes changes nothing above their stacks. -/
theorem initStacks_above (hroom : Room floor L s.stackOffset) (hfloor : 64 ≤ floor)
    (ha : img.endAddr + s.stackOffset + 4 ≤ a) :
    (L.foldl (initStack img procEntry) s).memory a = s.memory a := by
  induction L generalizing s with
  | nil => rfl
  | cons process L ih =>
    obtain ⟨hsize, hfit, hrest⟩ := hroom
    have hoffset : (initStack img procEntry s process).stackOffset = s.stackOffset - process.2 := rfl
    exact (ih (s := initStack img procEntry s process) hrest (by omega)).trans (initLocalStack_above (by omega) ha)

theorem initStacks_stackPointer (hp : p ∉ L.map Prod.fst) :
    (L.foldl (initStack img procEntry) s).stackPointer p = s.stackPointer p := by
  induction L generalizing s with
  | nil => rfl
  | cons process L ih =>
    obtain ⟨hne, hrest⟩ := not_or.mp (mt List.mem_cons.mpr hp)
    exact (ih hrest).trans (Function.update_of_ne hne _ _)

/-- The first frame of every process is on its stack. -/
theorem initStacks_spec (hroom : Room floor L s.stackOffset) (hfloor : 64 ≤ floor) (hnodup : (L.map Prod.fst).Nodup)
    (hplace : place L s.stackOffset p = some (o, size)) :
    (L.foldl (initStack img procEntry) s).stackPointer p = img.endAddr + o - 64 ∧
    ∃ m, Agree (img.endAddr + o - 64) (img.endAddr + o + 4)
      (initLocalStack m (img.endAddr + o) (procEntry p) (IProcess p)).1
      (L.foldl (initStack img procEntry) s).memory := by
  induction L generalizing s with
  | nil => cases hplace
  | cons process L ih =>
    obtain ⟨hsize, hfit, hrest⟩ := hroom
    obtain ⟨hnot, hnodup⟩ := List.nodup_cons.mp hnodup
    rcases place_cons hplace with ⟨rfl, rfl, rfl⟩ | ⟨-, hplace⟩
    · refine ⟨?_, s.memory, fun a hlo hhi => ?_⟩
      · rw [List.foldl_cons, initStacks_stackPointer hnot]
        exact (Function.update_self ..).trans (initLocalStack_sp s.memory _ (procEntry process.1) (IProcess process.1))
      · refine initStacks_above (s := initStack img procEntry s process) hrest hfloor ?_
        show img.endAddr + (s.stackOffset - process.2) + 4 ≤ a
        omega
    · exact ih (s := initStack img procEntry s process) hrest hnodup hplace

end

namespace Processor

section
variable {img : Layout} {procEntry : PcbRef → UInt32} {cpu : Cpu} {k : Kernel} {p : PcbRef} {lo hi : Nat}

theorem initStacks_frame (h : img.stack p = some (lo, hi)) (m : Memory) :
    (initStacks img procEntry m).stackPointer p = hi - 68 ∧
    ∃ m', Agree (hi - 68) hi (initLocalStack m' (hi - 4) (procEntry p) (IProcess p)).1
      (initStacks img procEntry m).memory := by
  obtain ⟨o, size, hplace, rfl, rfl⟩ := stack_inv h
  have hspec := @initStacks_spec img procEntry stackSizes ⟨m, fun _ => 0, topOfKernelStack⟩ p _ o size room_stackSizes
    (by decide) (by decide) hplace
  rw [show img.endAddr + o + 4 - 68 = img.endAddr + o - 64 by omega,
    show img.endAddr + o + 4 - 4 = img.endAddr + o by omega]
  exact hspec

theorem stack_size (h : img.stack p = some (lo, hi)) : lo + 72 ≤ hi := by
  obtain ⟨o, size, hplace, rfl, rfl⟩ := stack_inv h
  obtain ⟨hsize, hfloor, -⟩ := place_bounds room_stackSizes hplace
  omega

/-- Every process begins with its first context. -/
theorem start_context (h : img.stack p = some (lo, hi)) :
    (start img procEntry cpu k).context p = .initial hi (procEntry p) (IProcess p) := by
  obtain ⟨hpointer, m, hframe⟩ := @initStacks_frame img procEntry p lo hi h cpu.memory
  have hsize := stack_size h
  have hsp : (if p = k.currentPcb then (initStacks img procEntry cpu.memory).stackPointer k.currentPcb else
      (initStacks img procEntry cpu.memory).stackPointer p) = hi - 4 - 64 := by
    split
    next hp => exact hp ▸ hpointer
    next => exact hpointer
  unfold start
  rw [leave_context]
  show (Cpu.resume (if p = k.currentPcb then _ else _) _).toContext = _
  rw [hsp]
  have hat : hi - 4 + 4 = hi := by omega
  refine (@resume_initLocalStack _ m (hi - 4) (procEntry p) (IProcess p) (show 64 ≤ hi - 4 by omega) ?_).trans ?_
  · rw [hat]
    exact hframe
  · rw [hat]

theorem start_sheltered (img : Layout) (procEntry : PcbRef → UInt32) (cpu : Cpu) (k : Kernel) :
    (start img procEntry cpu k).Sheltered img where
  running lo hi h := by
    have hcontext := @start_context img procEntry cpu k _ lo hi h
    have hsize := stack_size h
    rw [context_current] at hcontext
    rw [hcontext]
    show lo ≤ hi ∧ hi ≤ hi
    omega
  waiting p lo hi h _ := by
    have hsize := stack_size h
    rw [start_context h]
    refine ⟨?_, Nat.le_refl hi⟩
    rw [show (start img procEntry cpu k).stackPointer p = _ from (initStacks_frame h cpu.memory).1]
    omega

end

/-! ### The status register -/

/-- The upper half of the status register: the interrupt processes run in supervisor mode with interrupts held off, the
    others in user mode with interrupts let through. -/
def Guarded (img : Layout) (s : Processor) : Prop :=
  ∀ p lo hi, img.stack p = some (lo, hi) → (s.context p).sr.toNat / 2 ^ 8 = if IProcess p then 0x27 else 0

section
variable {img : Layout} {s s' : Processor} {p : PcbRef} {d : Activity} {log : List (PcbRef × Activity)}

theorem start_guarded (img : Layout) (procEntry : PcbRef → UInt32) (cpu : Cpu) (k : Kernel) :
    (start img procEntry cpu k).Guarded img := fun p lo hi h => by
  rw [start_context h]
  by_cases hp : IProcess p
  · simp [Context.initial, hp]
  · simp [Context.initial, hp]

theorem Step.guarded (h : Step img s (p, d) s') (hs : s.Sheltered img) (hg : s.Guarded img) : s'.Guarded img :=
  fun q lo hi hq => by
    by_cases hd : q = p → d ≠ .compute
    · rw [((h.kept hs).2 q lo hi hq hd).context]
      exact hg q lo hi hq
    · obtain ⟨rfl, hd⟩ := Classical.not_imp.mp hd
      cases h with
      | @compute lo hi cpu k hstack hlo hhi hsr hmemory hcurrent =>
        have hcontext := context_current { s with cpu := cpu, kernel := k }
        have hbefore := hg _ lo hi hstack
        rw [context_current] at hbefore
        rw [← hcurrent]
        rw [hcontext, hsr, hcurrent]
        exact hbefore
      | returns => exact absurd nofun hd
      | switches => exact absurd nofun hd

theorem Guarded.run (hg : s.Guarded img) (hs : s.Sheltered img) (hp : Path (Step img) s log s') : s'.Guarded img := by
  induction hp with
  | nil s => exact hg
  | @cons s t u x log h _ ih => exact ih (h.guarded hs hg) (h.kept hs).1

theorem Step.room (h : Step img s (p, d) s') : p = s.kernel.currentPcb ∧ ∃ lo hi, img.stack p = some (lo, hi) := by
  cases h with
  | compute hstack => exact ⟨rfl, _, _, hstack⟩
  | returns henters | switches henters =>
    obtain ⟨lo, hi, hstack, -⟩ := henters.room
    exact ⟨rfl, lo, hi, hstack⟩

theorem Step.accepted {e : Exception} (h : Step img s (p, .exception e) s') : e.Accepted s.cpu.mask := by
  cases h with
  | returns henters | switches henters => exact henters.accepted

/-- An exception whose handler stores only what it saves. -/
theorem Enters.storeless {e : Exception} (haccepted : e.Accepted s.cpu.mask)
    (hroom : ∃ lo hi, img.stack s.kernel.currentPcb = some (lo, hi) ∧ lo + 68 ≤ s.cpu.sp / 4 * 4) :
    s.Enters img e (s.cpu.exception e.vector).memory (s.enter e.vector (s.cpu.exception e.vector).memory).cpu.memory :=
  ⟨haccepted, hroom, fun _ _ _ _ _ _ _ => rfl, fun _ _ _ _ _ _ _ => rfl⟩

/-- The first process may be interrupted as soon as it runs. -/
theorem start_interrupt (h : Booted img k) (procEntry : PcbRef → UInt32) (cpu : Cpu) (i : Interrupt) :
    ∃ s', Step img (start img procEntry cpu k) (wcPid, .exception (.interrupt i)) s' := by
  have hcurrent : (start img procEntry cpu k).kernel.currentPcb = wcPid := h.started.current
  have hwc : k.current = ⟨wcPid.val, .ready, Priority.high, some wcPid⟩ := by
    unfold Kernel.current
    rw [h.started.current]
    exact h.started.pcb (wcPid, Priority.high) (by decide)
  have hprio : k.current.priority = (0 : Level).val := by rw [hwc]; rfl
  obtain ⟨k', hs, -⟩ := interruptHandler_spec h.started.rep (by rw [h.started.current]; decide) hprio i.pid
  obtain ⟨lo, hi, hstack⟩ := exists_stack img (Or.inr (show wcPid ∈ readyProcesses.map Prod.fst by decide))
  have hcontext : (start img procEntry cpu k).cpu.toContext = .initial hi (procEntry wcPid) (IProcess wcPid) := by
    rw [← start_context hstack, ← hcurrent, context_current]
  have hsp : (start img procEntry cpu k).cpu.sp = hi := congrArg Context.sp hcontext
  have hmask : (start img procEntry cpu k).cpu.mask = 0 := by
    unfold Cpu.mask
    rw [show (start img procEntry cpu k).cpu.sr = 0 from congrArg Context.sr hcontext]
    rfl
  rw [← hcurrent] at hstack ⊢
  have haccepted : (Exception.interrupt i).Accepted (start img procEntry cpu k).cpu.mask := by
    show (start img procEntry cpu k).cpu.mask < Exception.level i
    rw [hmask]
    cases i <;> decide
  have hroom : lo + 68 ≤ (start img procEntry cpu k).cpu.sp / 4 * 4 := by
    have hsize := stack_size hstack
    rw [hsp]
    omega
  exact ⟨_, .switches (.storeless haccepted ⟨lo, hi, hstack, hroom⟩) ((handler_eq i k).trans hs)⟩

end
end Processor

/-- A processor with nothing in its registers and its memory. -/
def Cpu.blank : Cpu := ⟨⟨fun _ => 0, 0, 0, 0⟩, fun _ => 0⟩

/-- Every created process has a stack of its own, above the memory pool. In every such run, it runs first at its own entry,
    with its stack empty and the registers of `init_local_stack`. -/
theorem first_contexts (img : Layout) (procEntry : PcbRef → UInt32) (cpu : Cpu) :
    ∃ k, boot img = .switched k ∧ (∀ p, k.Created p → ∃ lo hi, img.stack p = some (lo, hi)) ∧
      ∀ p lo hi, img.stack p = some (lo, hi) →
      (img.endAddr + numMemBlocks * sizeofMemoryBlock ≤ lo ∧
        ∀ q lo' hi', img.stack q = some (lo', hi') → p ≠ q → hi' ≤ lo ∨ hi ≤ lo') ∧
      ∀ log s, Path (Processor.Step img) (.start img procEntry cpu k) log s → (p, Activity.compute) ∉ log →
        s.context p = .initial hi (procEntry p) (IProcess p) := by
  obtain ⟨k, hboot, h⟩ := boot_spec img
  refine ⟨k, hboot, fun p hp => exists_stack img (h.started.created_iff.mp hp), fun p lo hi hp =>
    ⟨⟨stack_above_pool hp, fun q lo' hi' hq hne => stack_apart hp hq hne⟩, fun log s hs hlog => ?_⟩⟩
  rw [(((Processor.start_sheltered img procEntry cpu k).run hs).2 p lo hi hp hlog).context]
  exact Processor.start_context hp

/-- Behind the interrupt the first process has still its first context. -/
theorem first_contexts_interrupt :
    ∃ k s' hi, boot rtosMap = .switched k ∧
      Processor.Step rtosMap (.start rtosMap (fun _ => 0) .blank k) (wcPid, .exception (.interrupt .timer)) s' ∧
      s'.context wcPid = .initial hi 0 false := by
  obtain ⟨k, hboot, hstacks, hfirst⟩ := first_contexts rtosMap (fun _ => 0) .blank
  obtain ⟨k', hboot', h⟩ := boot_spec rtosMap
  cases hboot.symm.trans hboot'
  obtain ⟨s', hs⟩ := Processor.start_interrupt h (fun _ => 0) .blank .timer
  obtain ⟨lo, hi, hstack⟩ := hstacks wcPid (h.started.created_iff.mpr (Or.inr (by decide)))
  exact ⟨k, s', hi, hboot, hs, (hfirst wcPid lo hi hstack).2 _ s' (.cons hs (.nil s')) (by decide)⟩

/-- In every such run, an interrupt is never taken while an interrupt process runs, and the other processes run in user
    mode with interrupts let through. -/
theorem interrupts_meet_processes (img : Layout) (procEntry : PcbRef → UInt32) (cpu : Cpu) :
    ∃ k, boot img = .switched k ∧ ∀ log s, Path (Processor.Step img) (.start img procEntry cpu k) log s →
      (∀ p i s', Processor.Step img s (p, .exception (.interrupt i)) s' → ¬IProcess s.kernel.currentPcb) ∧
      ∀ lo hi, img.stack s.kernel.currentPcb = some (lo, hi) → ¬IProcess s.kernel.currentPcb →
        s.cpu.sr.toNat / 2 ^ 8 = 0 := by
  obtain ⟨k, hboot, -⟩ := boot_spec img
  refine ⟨k, hboot, fun log s hs => ?_⟩
  have hguarded := (Processor.start_guarded img procEntry cpu k).run (Processor.start_sheltered img procEntry cpu k) hs
  refine ⟨fun p i s' h hi => ?_, fun lo hi hp hi' => ?_⟩
  · obtain ⟨rfl, lo, hi', hstack⟩ := h.room
    have hsr := hguarded _ lo hi' hstack
    rw [Processor.context_current, if_pos hi] at hsr
    have haccepted : s.cpu.mask < Exception.level i := h.accepted
    have hmask : s.cpu.mask = 7 := by
      unfold Cpu.mask
      rw [hsr]
    rw [hmask] at haccepted
    cases i <;> exact absurd haccepted (by decide)
  · have hsr := hguarded _ lo hi hp
    rwa [Processor.context_current, if_neg hi'] at hsr

/-- The timer meets the first process, which runs in user mode. -/
theorem interrupts_meet_processes_timer :
    ∃ k s', boot rtosMap = .switched k ∧
      Processor.Step rtosMap (.start rtosMap (fun _ => 0) .blank k) (wcPid, .exception (.interrupt .timer)) s' ∧
      ¬IProcess k.currentPcb ∧ (Processor.start rtosMap (fun _ => 0) .blank k).cpu.sr.toNat / 2 ^ 8 = 0 := by
  obtain ⟨k, hboot, hmeets⟩ := interrupts_meet_processes rtosMap (fun _ => 0) .blank
  obtain ⟨k', hboot', h⟩ := boot_spec rtosMap
  cases hboot.symm.trans hboot'
  obtain ⟨s', hs⟩ := Processor.start_interrupt h (fun _ => 0) .blank .timer
  obtain ⟨hprocess, huser⟩ := hmeets [] _ (.nil _)
  have hip := hprocess _ _ s' hs
  obtain ⟨lo, hi, hstack⟩ := exists_stack rtosMap (h.started.created_iff.mp h.started.created_current)
  exact ⟨k, s', hboot, hs, hip, huser lo hi hstack hip⟩

end DoorRtos
