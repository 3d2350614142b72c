import DoorRtos.Theorems.Hotkeys

/-! The hotkeys show the queues: the texts that come to the CRT process are those of the PCBs, in the order of the queue. -/

namespace DoorRtos
open Buffer Linked

/-- A part of a dump: a fixed text, or a number. -/
inductive Item where
  | text (string : String)
  | number (n : Nat)

def Item.Shown : Item → List UInt8 → Prop
  | text string, t => t = string.toList.map fun c => UInt8.ofNat c.toNat
  | number n, t => Numeral (UInt32.ofNat n).toNat t

/-- The message displays the item. -/
structure Content.Shows (c : Content) (item : Item) : Prop where
  type : c.type = MessType.crtDisplayNoPrompt
  text : ∃ t, IsString c.data t ∧ item.Shown t

/-- The line of a PCB. -/
def pcbItems (k : Kernel) (p : PcbRef) : List Item :=
  [.text "PID ", .number (k.pcbs p).pid, .text "  |  PRIORITY : ", .number (k.pcbs p).priority, .text "\r"]

def subqueueItems (k : Kernel) (isEmptyText : String) (i : Level) (l : List PcbRef) : List Item :=
  if l = [] then [.text "QUEUE ", .number i.val, .text isEmptyText] else l.flatMap (pcbItems k)

/-- The dump of a queue, level by level. The CRT process is woken by the first text, when the first subqueue has already
    been looked at. -/
def queueItems (w : QueueId) (isEmptyText : String) (k : Kernel) (L : Slot → List PcbRef) : List Item :=
  (List.finRange (numPrio + 1)).flatMap fun i =>
    subqueueItems k isEmptyText i ((if i.val = 0 then L else afterWake k L) (w, i))

def hotkeyItems (recv : UInt8) (k : Kernel) (L : Slot → List PcbRef) : List Item :=
  if recv.toNat = 'Q'.toNat then queueItems .ready "IS EMPTY\r" k L
  else if recv.toNat = 'M'.toNat then queueItems .memoryWait " IS EMPTY\n\r" k L
  else []

section
variable {k : Kernel} {string : String} {t : List UInt8}

/-! ### The number of items -/

theorem length_subqueueItems (k : Kernel) (isEmptyText : String) (i : Level) (l : List PcbRef) :
    (subqueueItems k isEmptyText i l).length = blocksFor l := by
  unfold subqueueItems blocksFor
  split
  · rfl
  · rw [List.length_flatMap]
    simp [pcbItems, Nat.mul_comm]

theorem length_queueItems (w : QueueId) (isEmptyText : String) (k : Kernel) (L : Slot → List PcbRef) :
    (queueItems w isEmptyText k L).length = blocksForQueue k L w := by
  unfold queueItems blocksForQueue
  rw [List.length_flatMap]
  simp only [length_subqueueItems]

/-- Every item takes one block. -/
theorem length_hotkeyItems (recv : UInt8) (k : Kernel) (L : Slot → List PcbRef) :
    (hotkeyItems recv k L).length = blocksForHotkey recv k L := by
  unfold hotkeyItems blocksForHotkey
  split
  · exact length_queueItems _ _ k L
  · split
    · exact length_queueItems _ _ k L
    · rfl

/-! ### The texts -/

theorem literal_isString (h : (0 : UInt8) ∉ string.toList.map fun c => UInt8.ofNat c.toNat) :
    IsString (literal string) (string.toList.map fun c => UInt8.ofNat c.toNat) where
  holds j x hj := by
    unfold literal
    rw [Nat.zero_add, List.getD_eq_getElem?_getD]
    by_cases hlt : j < (string.toList.map fun c => UInt8.ofNat c.toNat).length
    · rw [List.getElem?_append_left hlt] at hj
      rw [hj, Option.getD_some]
    · rw [List.getElem?_append_right (Nat.le_of_not_lt hlt)] at hj
      rw [List.getElem?_eq_none (Nat.le_of_not_lt hlt), Option.getD_none]
      exact (List.mem_singleton.mp (List.mem_of_getElem? hj)).symm
  noNul := h

/-- A call that returns has put the envelope into the mailbox, and changes no priority. -/
theorem kernelSendMessage_kept {pid r : Nat} {b : Addr} {k' : Kernel} {d mq : PcbRef} (hd : getPcb k pid = some d)
    (hmq : (k.pcbs d).messQueue = some mq) (hs : kernelSendMessage pid b k = .returned (r, k')) :
    Rescheduled (k.delivered pid b mq) k' ∧ ∀ p, (k'.pcbs p).priority = (k.pcbs p).priority := by
  rcases kernelSendMessage_cases pid b k with ⟨hnone, -⟩ | ⟨d', mq', hd', hmq', hcases⟩ | hstuck
  · rw [hd] at hnone
    cases hnone
  · rw [hd] at hd'
    cases hd'
    rw [hmq] at hmq'
    cases hmq'
    rcases hcases with ⟨-, ho⟩ | ⟨-, k₁, source, hput, -, ho⟩
    · rw [ho] at hs
      cases hs
      exact ⟨.refl _, fun _ => rfl⟩
    · have hres := (Rescheduled.setState (k.delivered pid b mq) d .ready).trans (enqueuePCBByPriority_rescheduled hput)
      have hprio : ∀ p, (k₁.pcbs p).priority = (k.pcbs p).priority := fun p => by
        obtain ⟨-, next, c, rfl⟩ := enqueuePCBByPriority_inv hput
        rw [Kernel.setQueue_pcbs, Kernel.setState_priority, delivered_pcbs]
      rw [ho] at hs
      split at hs
      · rcases htake : dequeuePCBFIFOByPriority .ready k₁ with _ | ⟨_ | p, k₂⟩ <;> rw [htake] at hs <;> cases hs
      · cases hs
        exact ⟨hres, hprio⟩
  · rw [hstuck] at hs
    cases hs

/-- A text that fits is copied as it is. -/
theorem IsString.copied {old : Nat → UInt8} (h : IsString old t) (new : Nat → UInt8) (hfits : t.length ≤ messDataSize) :
    IsString (strncpyTraced new old messDataSize).2 t := by
  rw [strncpyTraced_eq h]
  simp only [Int.toNat_natCast]
  rw [List.take_of_length_le hfits]
  exact isString_put new h.noNul

end

namespace Uart

/-- What the interrupt process finds when it prints: the blocks of `F` are free, and the messages of `M` wait at the CRT
    process, the newest first. -/
structure Mailing (L : Slot → List PcbRef) (F M : List Addr) (mq : PcbRef) (s : Uart) : Prop where
  answering : Answering s.kernel L F
  mailbox : (s.kernel.pcbs crtPid).messQueue = some mq
  holds : Queue.Holds s.kernel.messNext (s.kernel.mQueues mq) M
  apart : (F ++ M).Nodup

/-- The items have been stored, each in one of the blocks `posted`. -/
structure Stored (s : Uart) (items : List Item) (posted : List Addr) (s' : Uart) : Prop where
  shown : List.Forall₂ (fun e item => (s'.contents e).Shows item) posted items
  contents : ∀ e, e ∉ posted → s'.contents e = s.contents e
  pid : ∀ p, (s'.kernel.pcbs p).pid = (s.kernel.pcbs p).pid
  priority : ∀ p, (s'.kernel.pcbs p).priority = (s.kernel.pcbs p).priority
  awake : (s'.kernel.pcbs crtPid).state ≠ .messageWait

/-- With enough free blocks the code sends the items to the CRT process. -/
def Prints (L : Slot → List PcbRef) (items : List Item) (s : Uart) (o : Except Fault Uart) : Prop :=
  ∀ F M mq, Mailing L F M mq s → items.length ≤ F.length →
    ∃ s' F' posted, o = .ok s' ∧ F = F' ++ posted.reverse ∧ Mailing (afterWake s.kernel L) F' (posted.reverse ++ M) mq s' ∧
      Stored s items posted s'

section
variable {L : Slot → List PcbRef} {F M : List Addr} {mq p : PcbRef} {s s' : Uart} {items items' : List Item}
  {posted posted' : List Addr} {o : Except Fault Uart} {f : Uart → Except Fault Uart} {e : Addr}

theorem Stored.trans {s'' : Uart} (h : Stored s items posted s') (h' : Stored s' items' posted' s'')
    (hapart : ∀ e ∈ posted, e ∉ posted') : Stored s (items ++ items') (posted ++ posted') s'' where
  shown := by
    have hshown := (List.forall₂_and_left posted items).mpr ⟨hapart, h.shown⟩
    exact List.rel_append (hshown.imp fun e item he => h'.contents e he.1 ▸ he.2) h'.shown
  contents e he := by
    rw [List.mem_append, not_or] at he
    exact (h'.contents e he.2).trans (h.contents e he.1)
  pid p := (h'.pid p).trans (h.pid p)
  priority p := (h'.priority p).trans (h.priority p)
  awake := h'.awake

theorem Prints.bind (h : Prints L items s o)
    (hf : ∀ s', (s'.kernel.pcbs crtPid).state ≠ .messageWait → (∀ p, (s'.kernel.pcbs p).pid = (s.kernel.pcbs p).pid) →
      (∀ p, (s'.kernel.pcbs p).priority = (s.kernel.pcbs p).priority) → Prints (afterWake s.kernel L) items' s' (f s')) :
    Prints L (items ++ items') s (o >>= f) := fun F M mq hs hle => by
  rw [List.length_append] at hle
  obtain ⟨s₁, F₁, posted, rfl, rfl, hs₁, hstored⟩ := h F M mq hs (by omega)
  have hposted := hstored.shown.length_eq
  obtain ⟨s₂, F₂, posted', hf₂, rfl, hs₂, hstored'⟩ := hf s₁ hstored.awake hstored.pid hstored.priority F₁ _ mq hs₁ (by
    rw [List.length_append, List.length_reverse] at hle
    omega)
  have hapart : ∀ e ∈ posted, e ∉ posted' := fun e he he' => by
    have hnodup := hs.apart
    rw [List.append_assoc, List.append_assoc, List.nodup_append] at hnodup
    obtain ⟨-, hnodup, -⟩ := hnodup
    rw [List.nodup_append] at hnodup
    exact hnodup.2.2 e (List.mem_reverse.mpr he') e (List.mem_append_left _ (List.mem_reverse.mpr he)) rfl
  refine ⟨s₂, F₂, posted ++ posted', hf₂, by simp, ?_, hstored.trans hstored' hapart⟩
  rw [afterWake_of_awake hstored.awake] at hs₂
  rw [List.reverse_append, List.append_assoc]
  exact hs₂

/-- What prints when it is entered before the CRT process has been woken prints the same afterwards. -/
theorem Prints.awake (hst : (s.kernel.pcbs crtPid).state ≠ .messageWait)
    (h : Prints L items s o) : Prints (afterWake s.kernel L) items s o := by
  rwa [afterWake_of_awake hst]

/-! ### Printing a text -/

/-- Sending a text puts it behind the messages that wait. -/
theorem Mailing.send (hs : Mailing L F M mq s) (he : e ∉ F ++ M) :
    ∃ s', sendMessage crtPid e s = .ok s' ∧ Mailing (afterWake s.kernel L) F (e :: M) mq s' ∧ s'.contents = s.contents ∧
      (∀ p, (s'.kernel.pcbs p).pid = (s.kernel.pcbs p).pid) ∧
      (∀ p, (s'.kernel.pcbs p).priority = (s.kernel.pcbs p).priority) ∧
      (s'.kernel.pcbs crtPid).state ≠ .messageWait := by
  obtain ⟨r, k', hsend, hans, hst⟩ := hs.answering.send e
  have hapart : (F ++ e :: M).Nodup := by
    rw [List.nodup_middle]
    exact List.nodup_cons.mpr ⟨he, hs.apart⟩
  have hcrt : getPcb s.kernel crtPid.val = some crtPid := by
    have := getPcb_of_created hs.answering.tableOk hs.answering.created
    rwa [hs.answering.created] at this
  have hsame := kernelSendMessage_kept hcrt hs.mailbox hsend
  refine ⟨{ s with kernel := k' }, ?_, ⟨hans, (hsame.1.messQueue crtPid).trans hs.mailbox, ?_, hapart⟩, rfl, hsame.1.pid,
    hsame.2, hst⟩
  · unfold sendMessage
    rw [hsend]
    rfl
  · show Queue.Holds k'.messNext (k'.mQueues mq) (e :: M)
    rw [hsame.1.messNext, hsame.1.mQueues]
    have hpush := hs.holds.push fun hmem => he (List.mem_append_right F hmem)
    show Queue.Holds _ (Function.update s.kernel.mQueues mq _ mq) (e :: M)
    rw [Function.update_self]
    exact hpush

/-- A request takes the block that has been free the longest. -/
theorem Mailing.request {b : Addr} (hs : Mailing L (F ++ [b]) M mq s) :
    ∃ k, s.requestMemoryBlock = .ok (some b, { s with kernel := k }) ∧ k.pcbs = s.kernel.pcbs ∧ b ∉ F ++ M ∧
      ∀ s' : Uart, s'.kernel = k → Mailing L F M mq s' := by
  obtain ⟨next, q, hreq, hfree⟩ := request_take hs.answering.free
  have hapart := hs.apart
  rw [List.append_assoc, List.singleton_append, List.nodup_middle, List.nodup_cons] at hapart
  refine ⟨{ s.kernel with blockNext := next, freeMemQ := q }, ?_, rfl, hapart.1, ?_⟩
  · unfold requestMemoryBlock
    rw [hreq]
    rfl
  · rintro s' hk
    exact ⟨hk ▸ hs.answering.congr rfl rfl rfl hfree rfl, hk ▸ hs.mailbox, hk ▸ hs.holds, hapart.2⟩

/-- A text is stored in a free block and sent. -/
theorem uartPrint_prints {item : Item} {text : Uart → Option ((Nat → UInt8) × Uart)}
    (htext : ∀ s : Uart, ∃ string s' t, text s = some (string, s') ∧ s'.kernel = s.kernel ∧ s'.contents = s.contents ∧
      IsString string t ∧ t.length ≤ messDataSize ∧ item.Shown t) :
    Prints L [item] s (uartPrint text s) := fun F M mq hs hle => by
  rcases List.eq_nil_or_concat F with rfl | ⟨F, b, rfl⟩
  · exact absurd hle (by simp)
  · rw [List.concat_eq_append] at hs ⊢
    obtain ⟨k, hreq, hpcbs, hb, hmailing⟩ := hs.request
    obtain ⟨string, s₁, t, ht, hk, hcontents, hstring, hfits, hshown⟩ := htext { s with kernel := k }
    let c : Content := ⟨MessType.crtDisplayNoPrompt, (strncpyTraced (s₁.contents b).data string messDataSize).2⟩
    obtain ⟨s₂, hsend, hs₂, hcontents₂, hpid, hprio, hst⟩ :=
      (hmailing { s₁ with contents := Function.update s₁.contents b c } hk).send hb
    have hwake : afterWake s₁.kernel L = afterWake s.kernel L := by
      unfold afterWake
      rw [hk, hpcbs]
    have hpcbs₁ : s₁.kernel.pcbs = s.kernel.pcbs := hk ▸ hpcbs
    refine ⟨s₂, F, [b], ?_, rfl, hwake ▸ hs₂,
      ⟨.cons ⟨?_, t, ?_, hshown⟩ .nil, fun e he => ?_, fun p => ?_, fun p => ?_, hst⟩⟩
    · unfold uartPrint
      rw [hreq]
      dsimp only [bind, Except.bind]
      rw [ht]
      exact hsend
    · rw [hcontents₂]
      show (Function.update s₁.contents b c b).type = _
      rw [Function.update_self]
    · rw [hcontents₂]
      show IsString (Function.update s₁.contents b c b).data t
      rw [Function.update_self]
      exact hstring.copied _ hfits
    · rw [hcontents₂]
      show Function.update s₁.contents b c e = _
      rw [Function.update_of_ne fun h => he (List.mem_singleton.mpr h), hcontents]
    · exact (hpid p).trans (congrArg (fun t => (t p).pid) hpcbs₁)
    · exact (hprio p).trans (congrArg (fun t => (t p).priority) hpcbs₁)

theorem uartPrintString_prints (string : String) (hnul : (0 : UInt8) ∉ string.toList.map fun c => UInt8.ofNat c.toNat)
    (hfits : string.toList.length ≤ messDataSize) : Prints L [.text string] s (uartPrintString string s) :=
  uartPrint_prints fun s =>
    ⟨literal string, s, _, rfl, rfl, rfl, literal_isString hnul, (List.length_map _).trans_le hfits, rfl⟩

theorem uartPrintInteger_prints (num : Nat) : Prints L [.number num] s (uartPrintInteger num s) :=
  uartPrint_prints fun s => by
    obtain ⟨t, temp, hs, hnumeral, hlength⟩ := intToStr_spec s.stringHolder s.stringHolderTemp (UInt32.ofNat num)
    exact ⟨_, { s with stringHolder := _, stringHolderTemp := temp }, t, by rw [hs]; rfl, rfl, rfl,
      isString_put _ hnumeral.noNul, hlength.trans (by decide), hnumeral⟩

/-! ### The queues -/

theorem printPcbInfos_prints (p : PcbRef) : Prints L (pcbItems s.kernel p) s (printPcbInfos (some p) s) := by
  refine (uartPrintString_prints "PID " (by decide) (by decide)).bind fun s₁ h₁ hpid₁ hprio₁ => ?_
  rw [← hpid₁ p, ← hprio₁ p]
  refine (uartPrintInteger_prints _).bind fun s₂ h₂ _ hprio₂ => ?_
  rw [afterWake_of_awake h₁, ← hprio₂ p]
  refine (uartPrintString_prints "  |  PRIORITY : " (by decide) (by decide)).bind fun s₃ h₃ _ hprio₃ => ?_
  rw [afterWake_of_awake h₂, ← hprio₃ p]
  refine (uartPrintInteger_prints _).bind fun s₄ h₄ _ _ => ?_
  rw [afterWake_of_awake h₃]
  exact uartPrintString_prints "\r" (by decide) (by decide)

theorem pcbItems_congr (hpid : ∀ p, (s'.kernel.pcbs p).pid = (s.kernel.pcbs p).pid)
    (hprio : ∀ p, (s'.kernel.pcbs p).priority = (s.kernel.pcbs p).priority) : pcbItems s'.kernel = pcbItems s.kernel :=
  funext fun p => by rw [pcbItems, hpid p, hprio p, pcbItems]

theorem subqueueItems_congr (isEmptyText : String) (hpid : ∀ p, (s'.kernel.pcbs p).pid = (s.kernel.pcbs p).pid)
    (hprio : ∀ p, (s'.kernel.pcbs p).priority = (s.kernel.pcbs p).priority) :
    subqueueItems s'.kernel isEmptyText = subqueueItems s.kernel isEmptyText := by
  unfold subqueueItems
  rw [pcbItems_congr hpid hprio]

/-- The walk from a PCB to the tail. -/
theorem printPcbs_prints {c l : List PcbRef} {w : QueueId} {i : Level} {n : Nat} (hl : L (w, i) = c ++ p :: l)
    (hn : l.length < n) : Prints L ((p :: l).flatMap (pcbItems s.kernel)) s (printPcbs w i n (some p) s) := by
  induction n generalizing s L c p l with
  | zero => cases hn
  | succ n ih =>
    intro F M mq hs
    have hwalk := hs.answering.walk (w, i)
    have htail : (s.kernel.sub (w, i)).tail = (p :: l).getLast? := by rw [hwalk.tail, hl, List.getLast?_append_cons]
    unfold printPcbs
    cases l with
    | nil =>
      rw [if_neg fun hne => hne htail.symm, List.flatMap_singleton]
      exact printPcbInfos_prints p F M mq hs
    | cons x l =>
      have hne : some p ≠ (s.kernel.sub (w, i)).tail := by
        rw [htail, List.getLast?_cons_cons]
        intro he
        have hnd := hl ▸ hwalk.nodup
        exact (List.nodup_cons.mp (List.nodup_append.mp hnd).2.1).1 (List.mem_of_getLast? he.symm)
      rw [if_pos hne, List.flatMap_cons]
      refine (printPcbInfos_prints p).bind (fun s' h' hpid hprio F' M' mq' hs' => ?_) F M mq hs
      obtain ⟨c', hc'⟩ := afterWake_suffix s.kernel L (w, i)
      have hl' : afterWake s.kernel L (w, i) = (c' ++ c ++ [p]) ++ x :: l := by rw [hc', hl]; simp
      have hnext : s'.kernel.pcbNext p = some x := by
        have hchain := (hs'.answering.walk (w, i)).chain
        rw [hl', List.append_assoc] at hchain
        exact (List.isChain_append.mp hchain).2.1.rel
      rw [← pcbItems_congr hpid hprio]
      show _ → ∃ s₂ F₂ posted, printPcbs w i n (s'.kernel.pcbNext p) s' = .ok s₂ ∧ _
      rw [hnext]
      exact ih hl' (Nat.lt_of_succ_lt_succ hn) F' M' mq' hs'

theorem printSubqueue_prints {w : QueueId} (isEmptyText : String)
    (hnul : (0 : UInt8) ∉ isEmptyText.toList.map fun c => UInt8.ofNat c.toNat)
    (hfits : isEmptyText.toList.length ≤ messDataSize)
    (i : Level) : Prints L (subqueueItems s.kernel isEmptyText i (L (w, i))) s (printSubqueue w isEmptyText s i) := by
  intro F M mq hs
  have hwalk := hs.answering.walk (w, i)
  show _ → ∃ s₂ F₂ posted, (if (s.kernel.sub (w, i)).head = none ∧ (s.kernel.sub (w, i)).tail = none then _ else _) = _ ∧ _
  unfold subqueueItems
  cases hl : L (w, i) with
  | nil =>
    rw [hl] at hwalk
    rw [if_pos rfl, if_pos ⟨hwalk.head, hwalk.tail⟩]
    have hqueue := uartPrintString_prints (L := L) (s := s) "QUEUE " (by decide) (by decide)
    refine hqueue.bind (fun s₁ h₁ _ _ => ?_) F M mq hs
    refine (uartPrintInteger_prints i.val).bind fun s₂ h₂ _ _ => ?_
    exact uartPrintString_prints isEmptyText hnul hfits
  | cons p l =>
    rw [hl] at hwalk
    rw [if_neg (List.cons_ne_nil p l)]
    have hhead : (s.kernel.sub (w, i)).head = some p := hwalk.head
    rw [hhead, if_neg fun h => Option.some_ne_none p h.1]
    exact printPcbs_prints (c := []) hl (PcbRef.length_le hwalk.nodup) F M mq hs

theorem printSubqueues_prints {w : QueueId} (isEmptyText : String)
    (hnul : (0 : UInt8) ∉ isEmptyText.toList.map fun c => UInt8.ofNat c.toNat)
    (hfits : isEmptyText.toList.length ≤ messDataSize)
    (is : List Level) (hst : (s.kernel.pcbs crtPid).state ≠ .messageWait) :
    Prints L (is.flatMap fun i => subqueueItems s.kernel isEmptyText i (L (w, i))) s
      (is.foldlM (printSubqueue w isEmptyText) s) := by
  induction is generalizing s with
  | nil =>
    intro F M mq hs _
    refine ⟨s, F, [], rfl, by simp, ?_, ⟨.nil, fun _ _ => rfl, fun _ => rfl, fun _ => rfl, hst⟩⟩
    rw [afterWake_of_awake hst]
    exact hs
  | cons i is ih =>
    rw [List.flatMap_cons, List.foldlM_cons]
    refine (printSubqueue_prints isEmptyText hnul hfits i).bind fun s' hst' hpid hprio => ?_
    rw [afterWake_of_awake hst, ← subqueueItems_congr isEmptyText hpid hprio]
    exact ih hst'

theorem printQueue_prints {w : QueueId} (isEmptyText : String)
    (hnul : (0 : UInt8) ∉ isEmptyText.toList.map fun c => UInt8.ofNat c.toNat)
    (hfits : isEmptyText.toList.length ≤ messDataSize) :
    Prints L (queueItems w isEmptyText s.kernel L) s (printQueue w isEmptyText s) := by
  have hlevels : List.finRange (numPrio + 1) = 0 :: (List.finRange (numPrio + 1)).tail := rfl
  have hlater : ∀ i ∈ (List.finRange (numPrio + 1)).tail, i.val ≠ 0 := by decide
  have hitems : queueItems w isEmptyText s.kernel L = subqueueItems s.kernel isEmptyText 0 (L (w, 0)) ++
      (List.finRange (numPrio + 1)).tail.flatMap fun i =>
        subqueueItems s.kernel isEmptyText i (afterWake s.kernel L (w, i)) := by
    have hrest : ((List.finRange (numPrio + 1)).tail.flatMap fun i =>
        subqueueItems s.kernel isEmptyText i ((if i.val = 0 then L else afterWake s.kernel L) (w, i))) =
        (List.finRange (numPrio + 1)).tail.flatMap fun i =>
          subqueueItems s.kernel isEmptyText i (afterWake s.kernel L (w, i)) :=
      List.flatMap_congr fun i hi => by rw [if_neg (hlater i hi)]
    unfold queueItems
    rw [hlevels, List.flatMap_cons, if_pos (show (0 : Level).val = 0 from rfl), List.tail_cons]
    exact congrArg _ hrest
  unfold printQueue
  rw [hitems, hlevels, List.foldlM_cons]
  refine (printSubqueue_prints isEmptyText hnul hfits 0).bind fun s' hst' hpid hprio => ?_
  rw [← subqueueItems_congr isEmptyText hpid hprio]
  exact printSubqueues_prints isEmptyText hnul hfits _ hst'

theorem parseHotkey_prints (recv : UInt8) (hkey : recv.toNat = 'Q'.toNat ∨ recv.toNat = 'M'.toNat) :
    Prints L (hotkeyItems recv s.kernel L) s (parseHotkey recv s) := by
  unfold parseHotkey hotkeyItems
  by_cases hq : recv.toNat = 'Q'.toNat
  · rw [if_pos hq, if_pos hq]
    exact printQueue_prints "IS EMPTY\r" (by decide) (by decide)
  · rw [if_neg hq, if_neg hq, if_pos (hkey.resolve_left hq), if_pos (hkey.resolve_left hq)]
    exact printQueue_prints " IS EMPTY\n\r" (by decide) (by decide)

/-- A character with enough free blocks for its hotkey puts the dump of the queue behind the messages that wait at the CRT
    process, one message for each item and in the order of the dump; nothing else is stored. -/
theorem parseHotkey_shows (recv : UInt8) (hs : Mailing L F M mq s)
    (hroom : blocksForHotkey recv s.kernel L ≤ F.length) :
    ∃ s' F' posted, parseHotkey recv s = .ok s' ∧ F = F' ++ posted.reverse ∧
      Queue.Holds s'.kernel.blockNext s'.kernel.freeMemQ F' ∧
      Queue.Holds s'.kernel.messNext (s'.kernel.mQueues mq) (posted.reverse ++ M) ∧
      List.Forall₂ (fun e item => (s'.contents e).Shows item) posted (hotkeyItems recv s.kernel L) ∧
      ∀ e, e ∉ posted → s'.contents e = s.contents e := by
  by_cases hkey : recv.toNat = 'Q'.toNat ∨ recv.toNat = 'M'.toNat
  · obtain ⟨s', F', posted, hok, hF, hs', hstored⟩ :=
      parseHotkey_prints recv hkey F M mq hs (length_hotkeyItems recv s.kernel L ▸ hroom)
    exact ⟨s', F', posted, hok, hF, hs'.answering.free, hs'.holds, hstored.shown, hstored.contents⟩
  · obtain ⟨hq, hm⟩ := not_or.mp hkey
    unfold parseHotkey hotkeyItems
    rw [if_neg hq, if_neg hm, if_neg hq, if_neg hm]
    exact ⟨s, F, [], rfl, by simp, hs.answering.free, hs.holds, .nil, fun _ _ => rfl⟩

end
end Uart

/-- The hotkey `'Q'` in the first interrupt of the serial port. -/
theorem parseHotkey_shows_booted :
    ∃ k k₁ L s' posted, boot rtosMap = .switched k ∧ uartHandler k = .switched k₁ ∧
      Uart.parseHotkey 81 ⟨k₁, fun _ => ⟨0, fun _ => 0⟩, fun _ => 0, fun _ => 0⟩ = .ok s' ∧
      List.Forall₂ (fun e item => (s'.contents e).Shows item) posted (hotkeyItems 81 k₁ L) := by
  obtain ⟨k, hboot, h⟩ := boot_spec rtosMap
  obtain ⟨k₁, huart, hans, hst⟩ := Booted.uart k h hboot rfl rfl rfl rfl h.free
  have hsame : k₁.mQueues = k.mQueues ∧ k₁.messNext = k.messNext ∧ ∀ p, (k₁.pcbs p).messQueue = (k.pcbs p).messQueue := by
    obtain ⟨k₂, hput, rfl⟩ := interruptHandler_inv (q := uartPid) (congrArg Outcome.kernel? huart)
    have hres := enqueuePCBByPriority_rescheduled hput
    exact ⟨hres.mQueues, hres.messNext, hres.messQueue⟩
  have hcrt : IProcess crtPid ∨ crtPid ∈ readyProcesses.map Prod.fst := Or.inr (by decide)
  have hmailing : Uart.Mailing (insertAt bootContents .ready 0 wcPid) rtosMap.pool.reverse [] crtPid
      ⟨k₁, fun _ => ⟨0, fun _ => 0⟩, fun _ => 0, fun _ => 0⟩ := by
    refine ⟨hans, ?_, ?_, ?_⟩
    · exact (hsame.2.2 crtPid).trans (h.mailbox crtPid (h.started.created_iff.mpr hcrt))
    · show Queue.Holds k₁.messNext (k₁.mQueues crtPid) []
      rw [hsame.1, h.started.mailbox crtPid hcrt]
      exact Queue.holds_empty _
    · rw [List.append_nil]
      exact h.free.nodup
  have hroom : blocksForHotkey 81 k₁ (insertAt bootContents .ready 0 wcPid) ≤ rtosMap.pool.reverse.length := by
    rw [List.length_reverse, Layout.pool, List.length_map, List.length_finRange]
    unfold blocksForHotkey blocksForQueue
    rw [if_pos (by decide), afterWake_of_awake hst]
    decide
  obtain ⟨s', F', posted, hok, -, -, -, hshown, -⟩ := Uart.parseHotkey_shows 81 hmailing hroom
  exact ⟨k, k₁, _, s', posted, hboot, huart, hok, hshown⟩

end DoorRtos
