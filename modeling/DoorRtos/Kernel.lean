import DoorRtos.Linked.Family
import Mathlib.Data.Fintype.Prod

/-! The data of the kernel: process control blocks, envelopes, memory blocks, the queues that link them
    and the global cells of `primitives.c` and `swi.c`.

    The `next` fields of the three linked records are kept apart from the records, one map a field, so that
    the queues of `DoorRtos.Linked` work on them. Stacks and saved registers are not modelled: the code a
    process resumes is kept by the systems built over the kernel. -/

namespace DoorRtos
open Linked

/-! ### Constants -/

abbrev maxProcesses : Nat := 0x40
abbrev numPrio : Nat := 5
abbrev numMemBlocks : Nat := 256
abbrev memBlockSize : Nat := 256

/-- `RTX_SUCCESS` and `RTX_ERROR` as the 32-bit words that the return cells hold. -/
def rtxSuccess : Nat := 0
def rtxError : Nat := 2 ^ 32 - 1

namespace Priority
def high : Nat := 0
def medium : Nat := 1
def low : Nat := 2
def lowest : Nat := 3
def null : Nat := 4
end Priority

/-! ### Pointers -/

/-- A `PCB *` other than `NULL`: `pcbs + i`. -/
abbrev PcbRef := Fin maxProcesses

def nullPid : PcbRef := ⟨0, by decide⟩
def crtPid : PcbRef := ⟨0x20, by decide⟩
def kcdPid : PcbRef := ⟨0x21, by decide⟩
def wcPid : PcbRef := ⟨0x22, by decide⟩
def setPrioPid : PcbRef := ⟨0x23, by decide⟩
def timerPid : PcbRef := ⟨0x30, by decide⟩
def uartPid : PcbRef := ⟨0x31, by decide⟩

/-- The pid that `start_scheduler` gives to the unused slots of the process table. -/
def dummyPid : Nat := 100

/-- The two interrupt processes. -/
def IProcess (p : PcbRef) : Prop := p = timerPid ∨ p = uartPid

instance (p : PcbRef) : Decidable (IProcess p) := inferInstanceAs (Decidable (p = timerPid ∨ p = uartPid))

/-- The number of 32-bit addresses. -/
abbrev addressSpace : Nat := 2 ^ 32

/-- An address other than `NULL`, as a pointer to an envelope or to a memory block holds it. -/
structure Addr where
  val : Nat
  pos : 0 < val
  lt : val < addressSpace
  deriving DecidableEq, Repr

/-- The cast of a pointer to `UINT32`. -/
def toWord : Option Addr → Nat
  | none => 0
  | some a => a.val

/-- The cast of a `UINT32` to a pointer. -/
def toPtr (w : Nat) : Option Addr :=
  if h : 0 < w ∧ w < addressSpace then some ⟨w, h.1, h.2⟩ else none

/-- The cast of a `UINT32` to `int`. -/
def toInt (w : Nat) : Int := if w < 2 ^ 31 then w else (w : Int) - 2 ^ 32

/-- The conversion of an `int` to a 32-bit word. -/
def ofInt (n : Int) : Nat := (BitVec.ofInt 32 n).toNat

@[simp] theorem toWord_some (a : Addr) : toWord (some a) = a.val := rfl

@[simp] theorem toPtr_val (a : Addr) : toPtr a.val = some a := dif_pos ⟨a.pos, a.lt⟩

theorem Addr.ext_val {a b : Addr} (h : a.val = b.val) : a = b := by
  cases a
  cases b
  cases h
  rfl

/-- There are fewer addresses than steps in the walks over envelopes and blocks. -/
theorem Addr.length_lt {l : List Addr} (hl : l.Nodup) : l.length < addressSpace := by
  have hmap : (l.map Addr.val).Nodup := hl.map fun a b h => Addr.ext_val h
  have hnil : 0 ∉ l.map Addr.val := fun h => by
    obtain ⟨a, -, ha⟩ := List.mem_map.mp h
    exact absurd a.pos (by omega)
  have hsub : 0 :: l.map Addr.val ⊆ List.range addressSpace := fun v hv => by
    rcases List.mem_cons.mp hv with rfl | hv
    · exact List.mem_range.mpr (by decide)
    · obtain ⟨a, -, rfl⟩ := List.mem_map.mp hv
      exact List.mem_range.mpr a.lt
  have hlen := List.Nodup.length_le_of_subset (List.nodup_cons.mpr ⟨hnil, hmap⟩) hsub
  rw [List.length_cons, List.length_map, List.length_range] at hlen
  exact hlen

/-- What is before the last node of a queue is no longer than a walk over envelopes or blocks. -/
theorem Addr.length_le {l : List Addr} {a : Addr} (hl : (l ++ [a]).Nodup) : l.length ≤ addressSpace := by
  have hlen := Addr.length_lt hl
  rw [List.length_append] at hlen
  omega

theorem PcbRef.length_le {l : List PcbRef} (hl : l.Nodup) : l.length ≤ maxProcesses := by
  have hlen := List.Nodup.length_le_of_subset hl fun p _ => List.mem_finRange p
  rwa [List.length_finRange] at hlen

/-! ### Records -/

/-- `enum states`. -/
inductive ProcState where
  | ready
  | messageWait
  | memoryWait
  | running
  deriving DecidableEq, Repr

/-- `struct PCB_t`. The mailbox is one of the `m_queues`. -/
structure PCB where
  pid : Nat
  state : ProcState
  priority : Nat
  messQueue : Option PcbRef

/-- `struct mess_t`, as far as the kernel reads it. -/
structure Mess where
  senderPid : Nat
  destPid : Nat
  delay : Nat

abbrev PCBQueue := Queue PcbRef
abbrev MessagesQueue := Queue Addr
abbrev FreeMemoryQueue := Queue Addr

/-- The index of a subqueue of a `METAPCB_queue_t`. -/
abbrev Level := Fin (numPrio + 1)

/-- `struct METAPCB_queue_t`. -/
structure METAPCBQueue where
  highestPrio : Nat
  subqueues : Level → PCBQueue

/-- The two `METAPCB_queue`s. -/
inductive QueueId where
  | ready
  | memoryWait
  deriving DecidableEq, Repr

instance : Fintype QueueId := ⟨{.ready, .memoryWait}, fun w => by cases w <;> decide⟩

/-- A subqueue of one of the two queues. -/
abbrev Slot := QueueId × Level

/-- The kernel's data. `pastSubqueues` tells whether the word just past the last subqueue, which the loops
    that raise `highest_prio` read, is `NULL`. -/
structure Kernel where
  pcbs : PcbRef → PCB
  pcbNext : Links PcbRef
  readyQueue : METAPCBQueue
  memoryWaitQueue : METAPCBQueue
  pastSubqueues : Bool
  mess : Addr → Mess
  messNext : Links Addr
  mQueues : PcbRef → MessagesQueue
  delayedSendQueue : MessagesQueue
  blockNext : Links Addr
  freeMemQ : FreeMemoryQueue
  currentPcb : PcbRef
  inIProcess : Bool
  kernelCode : Nat
  param1 : Nat
  param2 : Nat
  param3 : Nat
  retCode : Nat
  retCodeRecv : Nat
  retCodeGetPrio : Nat
  msgReturn : Bool

namespace Kernel

/-- The running process's PCB. -/
def current (k : Kernel) : PCB := k.pcbs k.currentPcb

def queue (k : Kernel) : QueueId → METAPCBQueue
  | .ready => k.readyQueue
  | .memoryWait => k.memoryWaitQueue

/-- A subqueue of one of the two queues. -/
def sub (k : Kernel) (s : Slot) : PCBQueue := (k.queue s.1).subqueues s.2

/-- Stores one of the two queues together with the links of the PCBs. -/
def setQueue (k : Kernel) (w : QueueId) (next : Links PcbRef) (q : METAPCBQueue) : Kernel :=
  match w with
  | .ready => { k with pcbNext := next, readyQueue := q }
  | .memoryWait => { k with pcbNext := next, memoryWaitQueue := q }

def setState (k : Kernel) (p : PcbRef) (st : ProcState) : Kernel :=
  { k with pcbs := Function.update k.pcbs p { k.pcbs p with state := st } }

def setPriority (k : Kernel) (p : PcbRef) (priority : Nat) : Kernel :=
  { k with pcbs := Function.update k.pcbs p { k.pcbs p with priority := priority } }

def setMess (k : Kernel) (e : Addr) (m : Mess) : Kernel := { k with mess := Function.update k.mess e m }

def setMessNext (k : Kernel) (e : Addr) (next : Option Addr) : Kernel :=
  { k with messNext := Function.update k.messNext e next }

/-- Process `p` has been initialised: its slot of the process table carries its own pid. -/
def Created (k : Kernel) (p : PcbRef) : Prop := (k.pcbs p).pid = p.val

instance (k : Kernel) (p : PcbRef) : Decidable (k.Created p) := inferInstanceAs (Decidable (_ = _))

/-- Every slot of the process table is in use or carries the dummy pid. -/
def TableOk (k : Kernel) : Prop := ∀ p, k.Created p ∨ (k.pcbs p).pid = dummyPid

instance (k : Kernel) : Decidable k.TableOk :=
  inferInstanceAs (Decidable (∀ p, k.Created p ∨ (k.pcbs p).pid = dummyPid))

/-! ### What the updates leave alone -/

section
variable (k : Kernel) (w w' : QueueId) (next : Links PcbRef) (q : METAPCBQueue) (p p' : PcbRef) (st : ProcState)
  (n : Nat)

@[simp] theorem setQueue_pcbs : (k.setQueue w next q).pcbs = k.pcbs := by cases w <;> rfl

@[simp] theorem setQueue_messNext : (k.setQueue w next q).messNext = k.messNext := by cases w <;> rfl

@[simp] theorem setQueue_mQueues : (k.setQueue w next q).mQueues = k.mQueues := by cases w <;> rfl

@[simp] theorem setQueue_delayedSendQueue : (k.setQueue w next q).delayedSendQueue = k.delayedSendQueue := by
  cases w <;> rfl

@[simp] theorem setQueue_freeMemQ : (k.setQueue w next q).freeMemQ = k.freeMemQ := by cases w <;> rfl

@[simp] theorem setQueue_blockNext : (k.setQueue w next q).blockNext = k.blockNext := by cases w <;> rfl

@[simp] theorem setQueue_currentPcb : (k.setQueue w next q).currentPcb = k.currentPcb := by cases w <;> rfl

@[simp] theorem setQueue_inIProcess : (k.setQueue w next q).inIProcess = k.inIProcess := by cases w <;> rfl

@[simp] theorem setQueue_retCode : (k.setQueue w next q).retCode = k.retCode := by cases w <;> rfl

@[simp] theorem setQueue_retCodeRecv : (k.setQueue w next q).retCodeRecv = k.retCodeRecv := by cases w <;> rfl

@[simp] theorem setQueue_retCodeGetPrio : (k.setQueue w next q).retCodeGetPrio = k.retCodeGetPrio := by cases w <;> rfl

@[simp] theorem setQueue_msgReturn : (k.setQueue w next q).msgReturn = k.msgReturn := by cases w <;> rfl

@[simp] theorem setQueue_pastSubqueues : (k.setQueue w next q).pastSubqueues = k.pastSubqueues := by cases w <;> rfl

@[simp] theorem setQueue_mess : (k.setQueue w next q).mess = k.mess := by cases w <;> rfl

@[simp] theorem setQueue_pcbNext : (k.setQueue w next q).pcbNext = next := by cases w <;> rfl

@[simp] theorem setQueue_queue_self : (k.setQueue w next q).queue w = q := by cases w <;> rfl

theorem setQueue_queue_of_ne (h : w' ≠ w) : (k.setQueue w next q).queue w' = k.queue w' := by
  cases w <;> cases w' <;> first | rfl | exact absurd rfl h

/-- Storing a queue that differs in one subqueue changes that subqueue only. -/
theorem setQueue_sub (i : Level) (h : Nat) (c : PCBQueue) :
    (k.setQueue w next ⟨h, Function.update (k.queue w).subqueues i c⟩).sub = Function.update k.sub (w, i) c := by
  funext s
  obtain ⟨w', j⟩ := s
  by_cases hw : w' = w
  · subst hw
    by_cases hj : j = i
    · subst hj
      simp [sub]
    · simp [sub, hj]
  · have hs : (w', j) ≠ (w, i) := fun e => hw (congrArg Prod.fst e)
    rw [Function.update_of_ne hs]
    simp only [sub]
    rw [setQueue_queue_of_ne k w w' next _ hw]

theorem setQueue_current : (k.setQueue w next q).current = k.current := by simp [current]

theorem setState_pcbs_of_ne (h : p' ≠ p) : (k.setState p st).pcbs p' = k.pcbs p' := Function.update_of_ne h _ _

@[simp] theorem setState_state :
    ((k.setState p st).pcbs p').state = if p' = p then st else (k.pcbs p').state := by
  unfold setState
  by_cases h : p' = p
  · subst h
    simp
  · simp [h]

@[simp] theorem setState_priority : ((k.setState p st).pcbs p').priority = (k.pcbs p').priority := by
  unfold setState
  by_cases h : p' = p
  · subst h
    simp
  · simp [h]

@[simp] theorem setState_pid : ((k.setState p st).pcbs p').pid = (k.pcbs p').pid := by
  unfold setState
  by_cases h : p' = p
  · subst h
    simp
  · simp [h]

@[simp] theorem setState_messQueue : ((k.setState p st).pcbs p').messQueue = (k.pcbs p').messQueue := by
  unfold setState
  by_cases h : p' = p
  · subst h
    simp
  · simp [h]

@[simp] theorem setPriority_priority :
    ((k.setPriority p n).pcbs p').priority = if p' = p then n else (k.pcbs p').priority := by
  unfold setPriority
  by_cases h : p' = p
  · subst h
    simp
  · simp [h]

@[simp] theorem setPriority_state : ((k.setPriority p n).pcbs p').state = (k.pcbs p').state := by
  unfold setPriority
  by_cases h : p' = p
  · subst h
    simp
  · simp [h]

@[simp] theorem setPriority_pid : ((k.setPriority p n).pcbs p').pid = (k.pcbs p').pid := by
  unfold setPriority
  by_cases h : p' = p
  · subst h
    simp
  · simp [h]

@[simp] theorem setPriority_messQueue : ((k.setPriority p n).pcbs p').messQueue = (k.pcbs p').messQueue := by
  unfold setPriority
  by_cases h : p' = p
  · subst h
    simp
  · simp [h]

@[simp] theorem setState_queue : (k.setState p st).queue = k.queue := rfl

@[simp] theorem setState_sub : (k.setState p st).sub = k.sub := rfl

@[simp] theorem setState_pcbNext : (k.setState p st).pcbNext = k.pcbNext := rfl

@[simp] theorem setState_currentPcb : (k.setState p st).currentPcb = k.currentPcb := rfl

@[simp] theorem setState_inIProcess : (k.setState p st).inIProcess = k.inIProcess := rfl

@[simp] theorem setState_pastSubqueues : (k.setState p st).pastSubqueues = k.pastSubqueues := rfl

@[simp] theorem setState_messNext : (k.setState p st).messNext = k.messNext := rfl

@[simp] theorem setState_mQueues : (k.setState p st).mQueues = k.mQueues := rfl

@[simp] theorem setState_delayedSendQueue : (k.setState p st).delayedSendQueue = k.delayedSendQueue := rfl

@[simp] theorem setState_blockNext : (k.setState p st).blockNext = k.blockNext := rfl

@[simp] theorem setState_freeMemQ : (k.setState p st).freeMemQ = k.freeMemQ := rfl

@[simp] theorem setPriority_queue : (k.setPriority p n).queue = k.queue := rfl

@[simp] theorem setPriority_sub : (k.setPriority p n).sub = k.sub := rfl

@[simp] theorem setPriority_pcbNext : (k.setPriority p n).pcbNext = k.pcbNext := rfl

@[simp] theorem setPriority_currentPcb : (k.setPriority p n).currentPcb = k.currentPcb := rfl

@[simp] theorem setPriority_inIProcess : (k.setPriority p n).inIProcess = k.inIProcess := rfl

@[simp] theorem setPriority_pastSubqueues : (k.setPriority p n).pastSubqueues = k.pastSubqueues := rfl

@[simp] theorem setPriority_messNext : (k.setPriority p n).messNext = k.messNext := rfl

@[simp] theorem setPriority_mQueues : (k.setPriority p n).mQueues = k.mQueues := rfl

@[simp] theorem setPriority_delayedSendQueue : (k.setPriority p n).delayedSendQueue = k.delayedSendQueue := rfl

@[simp] theorem setPriority_blockNext : (k.setPriority p n).blockNext = k.blockNext := rfl

@[simp] theorem setPriority_freeMemQ : (k.setPriority p n).freeMemQ = k.freeMemQ := rfl

end

end Kernel

/-! ### How a primitive ends -/

/-- A primitive returns to its caller, or leaves the kernel through `context_switch` and never returns, or
    does what C gives no meaning to: it follows `NULL`, indexes past an array or loops for ever. -/
inductive Outcome (α : Type) where
  | returned (a : α)
  | switched (k : Kernel)
  | stuck

namespace Outcome
variable {α β : Type}

def bind : Outcome α → (α → Outcome β) → Outcome β
  | returned a, f => f a
  | switched k, _ => switched k
  | stuck, _ => stuck

def ofOption : Option α → Outcome α
  | some a => returned a
  | none => stuck

instance : Monad Outcome where
  pure := returned
  bind := bind

instance : MonadLift Option Outcome where
  monadLift := ofOption

/-- The kernel's data once a primitive that yields only them has left the kernel. -/
def kernel? : Outcome Kernel → Option Kernel
  | returned k => some k
  | switched k => some k
  | stuck => none

/-- The kernel's data once a primitive that also yields a result has left the kernel. -/
def last : Outcome (α × Kernel) → Option Kernel
  | returned r => some r.2
  | switched k => some k
  | stuck => none

@[simp] theorem pure_eq (a : α) : (pure a : Outcome α) = returned a := rfl

@[simp] theorem returned_bind (a : α) (f : α → Outcome β) : (returned a >>= f) = f a := rfl

@[simp] theorem switched_bind (k : Kernel) (f : α → Outcome β) : (switched k >>= f) = switched k := rfl

@[simp] theorem stuck_bind (f : α → Outcome β) : (stuck >>= f) = stuck := rfl

theorem bind_assoc {γ : Type} (o : Outcome α) (f : α → Outcome β) (g : β → Outcome γ) :
    (o >>= f >>= g) = o >>= fun a => f a >>= g := by cases o <;> rfl

@[simp] theorem liftM_some (a : α) : (liftM (some a) : Outcome α) = returned a := rfl

@[simp] theorem liftM_none : (liftM (none : Option α) : Outcome α) = stuck := rfl

@[simp] theorem kernel?_returned (k : Kernel) : (returned k).kernel? = some k := rfl

@[simp] theorem kernel?_switched (k : Kernel) : (switched k : Outcome Kernel).kernel? = some k := rfl

@[simp] theorem kernel?_stuck : (stuck : Outcome Kernel).kernel? = none := rfl

@[simp] theorem last_returned (a : α) (k : Kernel) : (returned (a, k)).last = some k := rfl

@[simp] theorem last_switched (k : Kernel) : (switched k : Outcome (α × Kernel)).last = some k := rfl

@[simp] theorem last_stuck : (stuck : Outcome (α × Kernel)).last = none := rfl

theorem bind_eq_returned {o : Outcome α} {f : α → Outcome β} {b : β} :
    (o >>= f) = returned b ↔ ∃ a, o = returned a ∧ f a = returned b := by
  cases o <;> simp

theorem bind_eq_switched {o : Outcome α} {f : α → Outcome β} {k : Kernel} :
    (o >>= f) = switched k ↔ o = switched k ∨ ∃ a, o = returned a ∧ f a = switched k := by
  cases o <;> simp

theorem kernel?_eq_some {o : Outcome Kernel} {k : Kernel} : o.kernel? = some k ↔ o = returned k ∨ o = switched k := by
  cases o <;> simp

theorem last_eq_some {o : Outcome (α × Kernel)} {k : Kernel} :
    o.last = some k ↔ (∃ a, o = returned (a, k)) ∨ o = switched k := by
  cases o with
  | returned r => simp [last, Prod.ext_iff]
  | switched k₁ => simp
  | stuck => simp

/-- Adding a result to a primitive that yields only the kernel's data. -/
theorem last_bind (o : Outcome Kernel) (a : α) : (o >>= fun k => returned (a, k)).last = o.kernel? := by cases o <;> rfl

theorem kernel?_bind_snd (o : Outcome (α × Kernel)) : (o >>= fun r => returned r.2).kernel? = o.last := by
  cases o <;> rfl

/-- Storing the result of a primitive. -/
theorem kernel?_bind (o : Outcome (α × Kernel)) (f : α → Kernel → Kernel) :
    (o >>= fun r => returned (f r.1 r.2)).kernel? = match o with
      | returned r => some (f r.1 r.2)
      | switched k => some k
      | stuck => none := by cases o <;> rfl

end Outcome
end DoorRtos
