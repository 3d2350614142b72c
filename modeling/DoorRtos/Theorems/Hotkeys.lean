import DoorRtos.Hotkeys
import DoorRtos.Theorems.Blocks
import DoorRtos.Theorems.Pool
import DoorRtos.Theorems.Preemption
import DoorRtos.Theorems.Strings
import Mathlib.Algebra.GroupWithZero.Nat

/-! The blocks that the dump of a queue takes. -/

namespace DoorRtos
open Linked

/-- From its head the subqueue runs through exactly the PCBs of `l`, up to its tail; without any, both pointers are
    `NULL`. Nothing is said of the link of the tail. -/
structure Walk (next : Links PcbRef) (q : PCBQueue) (l : List PcbRef) : Prop where
  head : q.head = l.head?
  tail : q.tail = l.getLast?
  nodup : l.Nodup
  chain : l.IsChain fun x y => next x = some y

/-- Both pointers of an empty subqueue are `NULL`. -/
def Cleared (k : Kernel) : Prop := ∀ t, (k.sub t).head = none → (k.sub t).tail = none

instance (k : Kernel) : Decidable (Cleared k) :=
  inferInstanceAs (Decidable (∀ t, (k.sub t).head = none → (k.sub t).tail = none))

/-- What the interrupt process finds: the subqueues run through the PCBs of `L`, and the blocks of `F` are free. -/
structure Answering (k : Kernel) (L : Slot → List PcbRef) (F : List Addr) : Prop where
  walk : ∀ t, Walk k.pcbNext (k.sub t) (L t)
  free : Queue.Holds k.blockNext k.freeMemQ F
  inIProcess : k.inIProcess = true
  tableOk : k.TableOk
  created : k.Created crtPid
  mailbox : (k.pcbs crtPid).messQueue.isSome
  waiting : (k.pcbs crtPid).state = .messageWait → Unlinked L crtPid ∧ (k.pcbs crtPid).priority ≤ numPrio

/-- The subqueues once the CRT process has been woken, if it waits. -/
def afterWake (k : Kernel) (L : Slot → List PcbRef) (t : Slot) : List PcbRef :=
  if (k.pcbs crtPid).state = .messageWait ∧ t.1 = .ready ∧ t.2.val = (k.pcbs crtPid).priority then crtPid :: L t else L t

/-- The blocks taken for one subqueue. -/
def blocksFor (l : List PcbRef) : Nat := if l = [] then 3 else 5 * l.length

/-- The blocks taken for a queue: the CRT process is woken by the first text, when the first subqueue has already been
    looked at. -/
def blocksForQueue (k : Kernel) (L : Slot → List PcbRef) (w : QueueId) : Nat :=
  ((List.finRange (numPrio + 1)).map fun i => blocksFor ((if i.val = 0 then L else afterWake k L) (w, i))).sum

/-- The blocks that a hotkey takes. -/
def blocksForHotkey (recv : UInt8) (k : Kernel) (L : Slot → List PcbRef) : Nat :=
  if recv.toNat = 'Q'.toNat then blocksForQueue k L .ready
  else if recv.toNat = 'M'.toNat then blocksForQueue k L .memoryWait
  else 0

section
variable {k k' : Kernel} {L : Slot → List PcbRef} {F F' : List Addr} {l : List PcbRef} {q : PCBQueue} {next : Links PcbRef}
  {x : PcbRef} {w : QueueId}

/-! ### The subqueues -/

theorem isChain_of_isList {ptr : Option PcbRef} (h : IsList next ptr l) : l.IsChain fun x y => next x = some y := by
  induction l generalizing ptr with
  | nil => exact .nil
  | cons x l ih =>
    cases l with
    | nil => exact .singleton x
    | cons y l => exact .cons_cons h.2.1 (ih h.2)

theorem Rep.walk (hrep : Rep k L) (hc : Cleared k) (t : Slot) : Walk k.pcbNext (k.sub t) (L t) where
  head := (hrep.holds.holds t).head_eq
  tail := by
    have hq := hrep.holds.holds t
    by_cases hl : L t = []
    · rw [hl] at hq ⊢
      exact hc t hq.head_eq
    · exact hq.tail hl
  nodup := (hrep.holds.holds t).nodup
  chain := isChain_of_isList (hrep.holds.holds t).list

theorem enqueuePCBByPriority_cleared (hc : Cleared k) (hs : enqueuePCBByPriority w x k = some k') : Cleared k' := by
  obtain ⟨i, -, rfl⟩ := enqueuePCBByPriority_pushed hs
  intro t
  rw [Kernel.setQueue_sub]
  by_cases ht : t = (w, i)
  · subst ht
    rw [Function.update_self, enqueuePCB, Queue.push_head]
    exact fun h => by cases h
  · rw [Function.update_of_ne ht]
    exact hc t

/-! ### Waking the CRT process -/

/-- Pushing a PCB that the list does not hold leaves its links alone. -/
theorem Walk.links (h : Walk next q l) (q' : PCBQueue) (hx : x ∉ l) :
    l.IsChain fun y z => (q'.push next x).1 y = some z :=
  h.chain.imp_of_mem_imp fun y _ hy _ hyz => (Queue.push_of_ne fun e : y = x => hx (e ▸ hy)).trans hyz

theorem Walk.push_other (h : Walk next q l) (q' : PCBQueue) (hx : x ∉ l) : Walk (q'.push next x).1 q l :=
  ⟨h.head, h.tail, h.nodup, h.links q' hx⟩

theorem Walk.push (h : Walk next q l) (hx : x ∉ l) : Walk (q.push next x).1 (q.push next x).2 (x :: l) where
  head := Queue.push_head next q x
  tail := by
    unfold Queue.push Queue.isEmpty
    rw [h.head]
    cases l with
    | nil => rfl
    | cons y l =>
      rw [List.getLast?_cons_cons, ← h.tail]
      rfl
  nodup := List.nodup_cons.mpr ⟨hx, h.nodup⟩
  chain := by
    have hold := h.links q hx
    cases l with
    | nil => exact .singleton x
    | cons y l =>
      refine .cons_cons ?_ hold
      rw [Queue.push_links, Function.update_self, h.head]
      rfl

theorem afterWake_of_awake (hst : (k.pcbs crtPid).state ≠ .messageWait) : afterWake k L = L :=
  funext fun _ => if_neg fun h => hst h.1

theorem afterWake_suffix (k : Kernel) (L : Slot → List PcbRef) (t : Slot) : ∃ c, afterWake k L t = c ++ L t := by
  unfold afterWake
  split
  · exact ⟨[crtPid], rfl⟩
  · exact ⟨[], rfl⟩

theorem Answering.congr (h : Answering k L F) (hpcbs : k'.pcbs = k.pcbs) (hnext : k'.pcbNext = k.pcbNext)
    (hq : k'.queue = k.queue) (hfree : Queue.Holds k'.blockNext k'.freeMemQ F') (hi : k'.inIProcess = k.inIProcess) :
    Answering k' L F' where
  walk t := by
    unfold Kernel.sub
    rw [hnext, hq]
    exact h.walk t
  free := hfree
  inIProcess := hi.trans h.inIProcess
  tableOk p := by
    unfold Kernel.Created
    rw [hpcbs]
    exact h.tableOk p
  created := by
    unfold Kernel.Created
    rw [hpcbs]
    exact h.created
  mailbox := hpcbs ▸ h.mailbox
  waiting := hpcbs ▸ h.waiting

/-- The CRT process is put into the subqueue of its priority. -/
theorem Answering.wake (h : Answering k L F) (hst : (k.pcbs crtPid).state = .messageWait) :
    ∃ k', enqueuePCBByPriority .ready crtPid (k.setState crtPid .ready) = some k' ∧ Answering k' (afterWake k L) F ∧
      (k'.pcbs crtPid).state ≠ .messageWait := by
  obtain ⟨hun, hle⟩ := h.waiting hst
  obtain ⟨i, hi⟩ : ∃ i : Level, (k.pcbs crtPid).priority = i.val := ⟨⟨_, Nat.lt_succ_of_le hle⟩, rfl⟩
  have hput := enqueuePCBByPriority_eq (k := k.setState crtPid .ready) (p := crtPid) (w := .ready) (i := i) (by simp [hi])
  refine ⟨_, hput, ⟨fun t => ?_, by simpa using h.free, by simpa using h.inIProcess, fun p => ?_, ?_,
    by simpa using h.mailbox, fun hw => ?_⟩, by simp⟩
  · rw [Kernel.setQueue_pcbNext, Kernel.setQueue_sub]
    by_cases ht : t = (.ready, i)
    · subst ht
      rw [Function.update_self, afterWake, if_pos ⟨hst, rfl, hi.symm⟩]
      exact (h.walk (.ready, i)).push (hun _)
    · rw [Function.update_of_ne ht, afterWake, if_neg fun hand => ht (Prod.ext hand.2.1 (Fin.ext (hand.2.2.trans hi)))]
      exact (h.walk t).push_other _ (hun t)
  · have := h.tableOk p
    simpa [Kernel.Created] using this
  · have := h.created
    simpa [Kernel.Created] using this
  · simp at hw

/-- Sending the text wakes the CRT process, if it waits. -/
theorem Answering.send (h : Answering k L F) (e : Addr) :
    ∃ r k', kernelSendMessage crtPid.val e k = .returned (r, k') ∧ Answering k' (afterWake k L) F ∧
      (k'.pcbs crtPid).state ≠ .messageWait := by
  obtain ⟨mq, hmq⟩ := Option.isSome_iff_exists.mp h.mailbox
  have hcrt : getPcb k crtPid.val = some crtPid := by
    have := getPcb_of_created h.tableOk h.created
    rwa [h.created] at this
  by_cases hst : (k.pcbs crtPid).state = .messageWait
  · have hdel : Answering (k.delivered crtPid.val e mq) L F := h.congr rfl rfl rfl h.free rfl
    obtain ⟨k', hput, hans, hawake⟩ := hdel.wake hst
    obtain ⟨source, hsrc⟩ : ∃ source, getPcb k' k.current.pid = some source := by
      have hres := (Rescheduled.setState (k.delivered crtPid.val e mq) crtPid .ready).trans
        (enqueuePCBByPriority_rescheduled hput)
      rw [getPcb_congr hres.pid]
      exact Option.isSome_iff_exists.mp (getPcb_isSome k k.currentPcb)
    refine ⟨rtxSuccess, k', ?_, hans, hawake⟩
    rw [kernelSendMessage_woken hcrt hmq hst hput hsrc, if_neg fun hand => hand.2 hans.inIProcess]
  · exact ⟨rtxSuccess, _, kernelSendMessage_deliver hcrt hmq hst,
      afterWake_of_awake hst ▸ h.congr rfl rfl rfl h.free rfl, hst⟩

end

/-! ### Printing -/

namespace Uart

/-- The CRT process has been woken, and `m` blocks are free. -/
structure Awake (L : Slot → List PcbRef) (m : Nat) (s : Uart) : Prop where
  answering : ∃ F, Answering s.kernel L F ∧ F.length = m
  awake : (s.kernel.pcbs crtPid).state ≠ .messageWait

/-- The code takes `n` of `m` free blocks, or it stores through `NULL` because there are fewer. -/
structure Costs (n : Nat) (L : Slot → List PcbRef) (m : Nat) (o : Except Fault Uart) : Prop where
  enough : n ≤ m → ∃ s, o = .ok s ∧ Awake L (m - n) s
  short : m < n → o = .error .nullWrite

section
variable {L L₀ : Slot → List PcbRef} {F : List Addr} {s : Uart} {m n n' : Nat} {w : QueueId} {i : Level}
  {o : Except Fault Uart} {f : Uart → Except Fault Uart} {l : List PcbRef} {p : PcbRef}
  {text : Uart → Option ((Nat → UInt8) × Uart)}

/-! ### Costs -/

theorem Costs.bind (h : Costs n L m o) (hf : ∀ s, Awake L (m - n) s → Costs n' L (m - n) (f s)) :
    Costs (n + n') L m (o >>= f) where
  enough hle := by
    obtain ⟨s, rfl, hs⟩ := h.enough (by omega)
    obtain ⟨s', hs', ha⟩ := (hf s hs).enough (by omega)
    exact ⟨s', hs', Nat.sub_sub m n n' ▸ ha⟩
  short hlt := by
    by_cases hn : m < n
    · rw [h.short hn]
      rfl
    · obtain ⟨s, rfl, hs⟩ := h.enough (by omega)
      exact (hf s hs).short (by omega)

/-! ### The texts -/

theorem requestMemoryBlock_none (hans : Answering s.kernel L []) : s.requestMemoryBlock = .ok (none, s) := by
  unfold requestMemoryBlock
  rw [kernelRequestMemoryBlock_idle hans.free.shift_nil hans.inIProcess]
  rfl

theorem requestMemoryBlock_some {b : Addr} (hans : Answering s.kernel L (F ++ [b])) :
    ∃ k, s.requestMemoryBlock = .ok (some b, { s with kernel := k }) ∧ Answering k L F ∧ k.pcbs = s.kernel.pcbs := by
  obtain ⟨next, q, hreq, hfree⟩ := request_take hans.free
  refine ⟨{ s.kernel with blockNext := next, freeMemQ := q }, ?_, hans.congr rfl rfl rfl hfree rfl, rfl⟩
  unfold requestMemoryBlock
  rw [hreq]
  rfl

theorem sendMessage_crt (hans : Answering s.kernel L F) (e : Addr) :
    ∃ s', sendMessage crtPid e s = .ok s' ∧ Answering s'.kernel (afterWake s.kernel L) F ∧
      (s'.kernel.pcbs crtPid).state ≠ .messageWait := by
  obtain ⟨r, k, hsend, hans', hst⟩ := hans.send e
  refine ⟨{ s with kernel := k }, ?_, hans', hst⟩
  unfold sendMessage
  rw [hsend]
  rfl

/-- One text takes one block. -/
theorem uartPrint_costs (hans : Answering s.kernel L F)
    (htext : ∀ s : Uart, ∃ t s', text s = some (t, s') ∧ s'.kernel = s.kernel) :
    Costs 1 (afterWake s.kernel L) F.length (uartPrint text s) := by
  rcases List.eq_nil_or_concat F with rfl | ⟨F, b, rfl⟩
  · refine ⟨fun hle => absurd hle (by decide), fun _ => ?_⟩
    unfold uartPrint
    rw [requestMemoryBlock_none hans]
    rfl
  · rw [List.concat_eq_append] at hans ⊢
    rw [List.length_append]
    refine ⟨fun _ => ?_, fun hlt => absurd hlt (by simp)⟩
    obtain ⟨k, hreq, hans₁, hpcbs⟩ := requestMemoryBlock_some hans
    obtain ⟨t, s₂, ht, hk⟩ := htext { s with kernel := k }
    have hans₂ : Answering s₂.kernel L F := hk ▸ hans₁
    have hcrt := fun contents => sendMessage_crt (s := { s₂ with contents := contents }) hans₂ b
    obtain ⟨s₃, hsend, hans₃, hst⟩ := hcrt (Function.update s₂.contents b
      ⟨MessType.crtDisplayNoPrompt, (strncpyTraced (s₂.contents b).data t messDataSize).2⟩)
    have hwake : afterWake s₂.kernel L = afterWake s.kernel L := by
      unfold afterWake
      rw [hk, hpcbs]
    refine ⟨s₃, ?_, ⟨F, hwake ▸ hans₃, rfl⟩, hst⟩
    unfold uartPrint
    rw [hreq]
    dsimp only [bind, Except.bind]
    rw [ht]
    exact hsend

/-- What takes blocks when it is entered before the CRT process has been woken takes as many afterwards. -/
theorem Awake.costs (h : Awake L m s)
    (hf : ∀ F, Answering s.kernel L F → Costs n (afterWake s.kernel L) F.length (f s)) : Costs n L m (f s) := by
  obtain ⟨⟨F, hans, rfl⟩, hst⟩ := h
  have hcosts := hf F hans
  rwa [afterWake_of_awake hst] at hcosts

theorem uartPrintString_costs (string : String) (hans : Answering s.kernel L F) :
    Costs 1 (afterWake s.kernel L) F.length (uartPrintString string s) :=
  uartPrint_costs hans fun s => ⟨literal string, s, rfl, rfl⟩

theorem uartPrintInteger_costs (num : Nat) (hans : Answering s.kernel L F) :
    Costs 1 (afterWake s.kernel L) F.length (uartPrintInteger num s) :=
  uartPrint_costs hans fun s => by
    obtain ⟨t, temp, hs, -⟩ := intToStr_spec s.stringHolder s.stringHolderTemp (UInt32.ofNat num)
    exact ⟨_, { s with stringHolder := _, stringHolderTemp := temp }, by rw [hs]; rfl, rfl⟩

theorem Awake.printString (string : String) (h : Awake L m s) : Costs 1 L m (uartPrintString string s) :=
  h.costs fun _ => uartPrintString_costs string

theorem Awake.printInteger (num : Nat) (h : Awake L m s) : Costs 1 L m (uartPrintInteger num s) :=
  h.costs fun _ => uartPrintInteger_costs num

theorem printPcbInfos_costs (p : PcbRef) (hans : Answering s.kernel L F) :
    Costs 5 (afterWake s.kernel L) F.length (printPcbInfos (some p) s) :=
  (uartPrintString_costs "PID " hans).bind fun s₁ h₁ => (h₁.printInteger (s₁.kernel.pcbs p).pid).bind fun _ h₂ =>
    (h₂.printString "  |  PRIORITY : ").bind fun s₃ h₃ => (h₃.printInteger (s₃.kernel.pcbs p).priority).bind fun _ h₄ =>
      h₄.printString "\r"

/-- The walk from a PCB to the tail. -/
theorem printPcbs_costs {c : List PcbRef} (hans : Answering s.kernel L F) (hl : L (w, i) = c ++ p :: l)
    (hn : l.length < n) :
    Costs (5 * (l.length + 1)) (afterWake s.kernel L) F.length (printPcbs w i n (some p) s) := by
  induction n generalizing s L F c p l with
  | zero => cases hn
  | succ n ih =>
    have hwalk := hans.walk (w, i)
    have htail : (s.kernel.sub (w, i)).tail = (p :: l).getLast? := by rw [hwalk.tail, hl, List.getLast?_append_cons]
    unfold printPcbs
    cases l with
    | nil =>
      rw [if_neg fun hne => hne htail.symm]
      exact printPcbInfos_costs p hans
    | cons x l =>
      have hne : some p ≠ (s.kernel.sub (w, i)).tail := by
        rw [htail, List.getLast?_cons_cons]
        intro he
        have hnd := hl ▸ hwalk.nodup
        exact (List.nodup_cons.mp (List.nodup_append.mp hnd).2.1).1 (List.mem_of_getLast? he.symm)
      rw [if_pos hne]
      have hsum : 5 * ((x :: l).length + 1) = 5 + 5 * (l.length + 1) := by rw [List.length_cons]; omega
      rw [hsum]
      refine (printPcbInfos_costs p hans).bind fun s' h' => ?_
      obtain ⟨⟨F', hans', hF'⟩, hst⟩ := h'
      obtain ⟨c', hc'⟩ := afterWake_suffix s.kernel L (w, i)
      have hl' : afterWake s.kernel L (w, i) = (c' ++ c ++ [p]) ++ x :: l := by rw [hc', hl]; simp
      have hnext : s'.kernel.pcbNext p = some x := by
        have hchain := (hans'.walk (w, i)).chain
        rw [hl', List.append_assoc] at hchain
        exact (List.isChain_append.mp hchain).2.1.rel
      show Costs _ _ _ (printPcbs w i n (s'.kernel.pcbNext p) s')
      rw [hnext, ← hF', ← afterWake_of_awake (L := afterWake s.kernel L) hst]
      exact ih hans' hl' (Nat.lt_of_succ_lt_succ hn)

theorem printSubqueue_costs (isEmptyText : String) (hans : Answering s.kernel L F) :
    Costs (blocksFor (L (w, i))) (afterWake s.kernel L) F.length (printSubqueue w isEmptyText s i) := by
  have hwalk := hans.walk (w, i)
  unfold blocksFor
  show Costs _ _ _ (if (s.kernel.sub (w, i)).head = none ∧ (s.kernel.sub (w, i)).tail = none then _ else _)
  cases hl : L (w, i) with
  | nil =>
    rw [hl] at hwalk
    rw [if_pos rfl, if_pos ⟨hwalk.head, hwalk.tail⟩]
    exact (uartPrintString_costs "QUEUE " hans).bind fun _ h₁ => (h₁.printInteger i.val).bind fun _ h₂ =>
      h₂.printString isEmptyText
  | cons p l =>
    rw [hl] at hwalk
    rw [if_neg (List.cons_ne_nil p l)]
    have hhead : (s.kernel.sub (w, i)).head = some p := hwalk.head
    rw [hhead, if_neg fun h => Option.some_ne_none p h.1]
    exact printPcbs_costs (c := []) hans hl (PcbRef.length_le hwalk.nodup)

theorem printSubqueues_costs (isEmptyText : String) (is : List Level) (h : Awake L m s) :
    Costs (is.map fun i => blocksFor (L (w, i))).sum L m (is.foldlM (printSubqueue w isEmptyText) s) := by
  induction is generalizing s m with
  | nil => exact ⟨fun _ => ⟨s, rfl, h⟩, fun hlt => absurd hlt (Nat.not_lt_zero m)⟩
  | cons i is ih =>
    rw [List.map_cons, List.sum_cons, List.foldlM_cons]
    exact (h.costs (f := (printSubqueue w isEmptyText · i)) fun _ => printSubqueue_costs isEmptyText).bind fun _ h' => ih h'

theorem printQueue_costs (isEmptyText : String) (hans : Answering s.kernel L F) :
    Costs (blocksForQueue s.kernel L w) (afterWake s.kernel L) F.length (printQueue w isEmptyText s) := by
  have hlevels : List.finRange (numPrio + 1) = 0 :: (List.finRange (numPrio + 1)).tail := rfl
  have hlater : ∀ i ∈ (List.finRange (numPrio + 1)).tail, i.val ≠ 0 := by decide
  have hsum : blocksForQueue s.kernel L w = blocksFor (L (w, 0)) +
      ((List.finRange (numPrio + 1)).tail.map fun i => blocksFor (afterWake s.kernel L (w, i))).sum := by
    unfold blocksForQueue
    rw [hlevels, List.map_cons, List.sum_cons, if_pos (show (0 : Level).val = 0 from rfl), List.tail_cons]
    exact congrArg (_ + List.sum ·) (List.map_congr_left fun i hi => by rw [if_neg (hlater i hi)])
  unfold printQueue
  rw [hsum, hlevels, List.foldlM_cons]
  exact (printSubqueue_costs isEmptyText hans).bind fun _ h => printSubqueues_costs isEmptyText _ h

theorem printQueue_nullWrite_iff (isEmptyText : String) (hans : Answering s.kernel L F) :
    printQueue w isEmptyText s = .error .nullWrite ↔ F.length < blocksForQueue s.kernel L w := by
  have hcosts := printQueue_costs (w := w) isEmptyText hans
  refine ⟨fun he => Nat.lt_of_not_le fun hle => ?_, hcosts.short⟩
  obtain ⟨s', hs', -⟩ := hcosts.enough hle
  cases hs'.symm.trans he

theorem parseHotkey_nullWrite_iff (recv : UInt8) (hans : Answering s.kernel L F) :
    parseHotkey recv s = .error .nullWrite ↔ F.length < blocksForHotkey recv s.kernel L := by
  unfold parseHotkey blocksForHotkey
  split
  · exact printQueue_nullWrite_iff _ hans
  · split
    · exact printQueue_nullWrite_iff _ hans
    · exact ⟨fun he => (by cases he), fun hlt => absurd hlt (Nat.not_lt_zero _)⟩

theorem returned_ne_nullWrite {α : Type} (o : Outcome α) : returned o ≠ .error .nullWrite := by
  cases o <;> exact fun he => by cases he

theorem bind_nullWrite_iff {α β : Type} {o : Except Fault α} {f : α → Except Fault β} (hf : ∀ a, f a ≠ .error .nullWrite) :
    (o >>= f) = .error .nullWrite ↔ o = .error .nullWrite := by
  cases o with
  | ok a => exact ⟨fun he => absurd he (hf a), fun he => by cases he⟩
  | error x =>
    constructor <;> intro he <;> cases he <;> rfl

theorem sendMessage_ne_nullWrite (p : PcbRef) (e : Addr) (s : Uart) : sendMessage p e s ≠ .error .nullWrite := fun he =>
  returned_ne_nullWrite _ ((bind_nullWrite_iff fun _ he => by cases he).mp he)

theorem requestMemoryBlock_ne_nullWrite (s : Uart) : s.requestMemoryBlock ≠ .error .nullWrite := fun he =>
  returned_ne_nullWrite _ ((bind_nullWrite_iff fun _ he => by cases he).mp he)

/-- Behind the hotkey the block is tested. -/
theorem handleCharacter_nullWrite_iff (recv : UInt8) (s : Uart) :
    handleCharacter recv s = .error .nullWrite ↔ parseHotkey recv s = .error .nullWrite := by
  refine bind_nullWrite_iff fun s he => requestMemoryBlock_ne_nullWrite s ((bind_nullWrite_iff fun r he => ?_).mp he)
  obtain ⟨_ | envPtr, s⟩ := r
  · cases he
  · exact sendMessage_ne_nullWrite _ _ _ he

/-- Handling a character stores nothing through `NULL` exactly when there are as many free blocks as its hotkey takes. -/
theorem handleCharacter_safe_iff (recv : UInt8) (hans : Answering s.kernel L F) :
    handleCharacter recv s ≠ .error .nullWrite ↔ blocksForHotkey recv s.kernel L ≤ F.length := by
  rw [Ne, handleCharacter_nullWrite_iff, parseHotkey_nullWrite_iff recv hans, Nat.not_lt]

end
end Uart

theorem boot_cleared {k : Kernel} (hboot : boot rtosMap = .switched k) : Cleared k := by
  have hrun : (boot rtosMap).kernel?.any (fun k => decide (Cleared k)) = true := by decide +kernel
  rw [hboot] at hrun
  exact of_decide_eq_true hrun

/-- The first interrupt of the serial port, when the blocks of `F` are free. -/
theorem Booted.uart {k : Kernel} (k₀ : Kernel) {F : List Addr} (h : Booted rtosMap k) (hboot : boot rtosMap = .switched k)
    (hpcbs : k₀.pcbs = k.pcbs) (hnext : k₀.pcbNext = k.pcbNext) (hq : k₀.queue = k.queue)
    (hcur : k₀.currentPcb = k.currentPcb) (hfree : Queue.Holds k₀.blockNext k₀.freeMemQ F) :
    ∃ k₁, uartHandler k₀ = .switched k₁ ∧ Answering k₁ (insertAt bootContents .ready 0 wcPid) F ∧
      (k₁.pcbs crtPid).state ≠ .messageWait := by
  have hcur₀ : k₀.currentPcb = wcPid := hcur.trans h.started.current
  have hcrt := h.started.pcb (crtPid, Priority.high) (by decide)
  have hrep : Rep { k₀ with inIProcess := true } bootContents := h.started.rep.congr hnext hq
  obtain ⟨next, c, hput, hrep₁⟩ := enqueuePCBByPriority_spec (w := .ready) (p := wcPid) (i := 0) hrep (by decide)
    (by rw [hpcbs, h.started.pcb (wcPid, Priority.high) (by decide)]; rfl)
  have hcleared : Cleared { k₀ with inIProcess := true } := by
    have hc := boot_cleared hboot
    unfold Cleared Kernel.sub at hc ⊢
    rwa [← hq] at hc
  refine ⟨{ { k₀ with inIProcess := true }.setQueue .ready next c with currentPcb := uartPid }, ?_,
    ⟨hrep₁.walk (enqueuePCBByPriority_cleared hcleared hput), by simpa using hfree, by simp, fun p => ?_, ?_, ?_,
      fun hst => ?_⟩, ?_⟩
  · show (liftM (enqueuePCBByPriority .ready k₀.currentPcb { k₀ with inIProcess := true }) >>= _) = _
    rw [← hcur₀] at hput
    rw [hput]
    rfl
  · have htable := h.tableOk p
    simpa [Kernel.Created, hpcbs] using htable
  · simp [Kernel.Created, hpcbs, hcrt]
  · simp [hpcbs, hcrt]
  · simp [hpcbs, hcrt] at hst
  · simp [hpcbs, hcrt]

/-- The hotkey `'Q'` in the first interrupt of the serial port. -/
theorem handleCharacter_safe_booted :
    ∃ k k₁, boot rtosMap = .switched k ∧ uartHandler k = .switched k₁ ∧
      Uart.handleCharacter 81 ⟨k₁, fun _ => ⟨0, fun _ => 0⟩, fun _ => 0, fun _ => 0⟩ ≠ .error .nullWrite := by
  obtain ⟨k, hboot, h⟩ := boot_spec rtosMap
  obtain ⟨k₁, huart, hans, hst⟩ := Booted.uart k h hboot rfl rfl rfl rfl h.free
  refine ⟨k, k₁, hboot, huart, (Uart.handleCharacter_safe_iff 81 hans).mpr ?_⟩
  have hpool : rtosMap.pool.reverse.length = 256 := by
    rw [List.length_reverse, Layout.pool, List.length_map, List.length_finRange]
  rw [hpool]
  unfold blocksForHotkey blocksForQueue
  rw [if_pos (by decide), afterWake_of_awake hst]
  decide

/-- The same key when the first process has taken all blocks. -/
theorem handleCharacter_null :
    ∃ k s k₁ L, boot rtosMap = .switched k ∧ Runs.exec Sys.step (.start k) (requests 256) = some s ∧
      uartHandler s.kernel = .switched k₁ ∧ Answering k₁ L [] ∧
      Uart.handleCharacter 81 ⟨k₁, fun _ => ⟨0, fun _ => 0⟩, fun _ => 0, fun _ => 0⟩ = .error .nullWrite := by
  obtain ⟨k, hboot, h⟩ := boot_spec rtosMap
  obtain ⟨k₁, huart, hans, hst⟩ := Booted.uart
    ((Sys.start k).drained rtosMap.pool.dropLast (rtosMap.block (Fin.last 255))).kernel h hboot rfl rfl rfl rfl
    (Queue.holds_empty _)
  refine ⟨k, _, k₁, _, hboot, h.drained, huart, hans, ?_⟩
  rw [Uart.handleCharacter_nullWrite_iff, Uart.parseHotkey_nullWrite_iff 81 hans]
  unfold blocksForHotkey blocksForQueue
  rw [if_pos (by decide), afterWake_of_awake hst]
  decide

end DoorRtos
