import DoorRtos.Theorems.Messages

/-! The memory blocks that the processes request and hand over, in any order of system calls. A request that has
    blocked returns `ret_code`, where the calls of the other processes leave their results. -/

namespace DoorRtos
open Linked

/-- The call returns a block or an envelope. -/
def Call.takes : Call → Bool
  | requestMemoryBlock | receiveMessage _ => true
  | _ => false

/-- What process `p` holds after a step of the history. -/
def Obs.grip (p : PcbRef) (held : List Addr) : Obs → List Addr
  | called q _ given => if q = p then held.filter fun b => given ≠ some b else held
  | returned q c value => if q = p ∧ c.takes then (toPtr value).toList ++ held else held

/-- The blocks that process `p` has been given and has not handed over. -/
def hands (p : PcbRef) (log : List Obs) : List Addr := log.foldl (Obs.grip p) []

/-- Process `p` holds the block, or it is in the mailbox of `p`. -/
def HeldBy (s : Sys) (p : PcbRef) (b : Addr) : Prop :=
  b ∈ hands p s.log ∨ ∃ l, IsList s.kernel.messNext (s.kernel.mQueues p).head l ∧ b ∈ l

/-- When a request has just returned, it has returned a block of the pool that is not free and that no other process
    holds. -/
def Granted (img : Layout) (s : Sys) : Prop :=
  ∀ p value, s.log.getLast? = some (.returned p .requestMemoryBlock value) →
    ∃ b ∈ img.pool, b.val = value ∧ (∃ F, IsList s.kernel.blockNext s.kernel.freeMemQ.head F ∧ b ∉ F) ∧
      ∀ q, q ≠ p → ¬HeldBy s q b

/-- A process hands over only blocks that it holds, a receiver that has blocked looks into its mailbox again, and no
    request that has blocked runs again. -/
def HandsOverOwn (s : Sys) : Act → Prop
  | .call c => ∀ b, c.gives s.kernel = some b → b ∈ hands s.kernel.currentPcb s.log
  | .resume => LooksAgain s ∧ s.pc s.kernel.currentPcb ≠ .trapped .requestMemoryBlock true

instance (s : Sys) (a : Act) : Decidable (HandsOverOwn s a) :=
  match a with
  | .call c => inferInstanceAs (Decidable (∀ b ∈ c.gives s.kernel, b ∈ hands s.kernel.currentPcb s.log))
  | .resume => inferInstanceAs (Decidable (_ ∧ _))

/-- The block that the running process has taken and has not been given yet. -/
def Sys.inFlight (s : Sys) : List Addr :=
  match s.pc s.kernel.currentPcb with
  | .trapped .requestMemoryBlock false => (toPtr s.kernel.retCode).toList
  | .trapped (.receiveMessage _) false => (toPtr s.kernel.retCodeRecv).toList
  | _ => []

/-- Where a block can be. -/
inductive BlockPlace where
  | free
  | mailbox (p : PcbRef)
  | delayed
  | hand (p : PcbRef)
  | inFlight

namespace Call

def frees : Call → Bool
  | releaseMemoryBlock _ => true
  | _ => false

/-- The place where a call puts the block that it hands over. -/
def puts (c : Call) : BlockPlace → Bool
  | .free => c.frees
  | .mailbox p => c.sendsTo p
  | .delayed => c.delays
  | _ => false

end Call

/-- The blocks in each place. -/
def Sys.places (s : Sys) (F : List Addr) (M : PcbRef → List Addr) (D : List Addr) : BlockPlace → List Addr
  | .free => F
  | .mailbox p => M p
  | .delayed => D
  | .hand p => hands p s.log
  | .inFlight => s.inFlight

section
variable {s s' : Sys} {k k' k₁ : Kernel} {F : List Addr} {M : PcbRef → List Addr} {D : List Addr} {c : Call} {b e : Addr}
  {p q : PcbRef} {log : List Obs} {left : Bool} {value : Nat} {given : Option Addr} {a : Act} {img : Layout}

theorem toPtr_eq_some {w : Nat} (h : toPtr w = some b) : w = b.val := by
  unfold toPtr at h
  split at h
  · cases h
    rfl
  · cases h

/-! ### The free blocks -/

theorem Sends.free {pid : Nat} (h : Sends k pid e k₁) : k₁.blockNext = k.blockNext ∧ k₁.freeMemQ = k.freeMemQ := by
  rcases h with ⟨-, rfl⟩ | ⟨d, mq, -, -, rfl⟩
  · exact ⟨rfl, rfl⟩
  · exact ⟨rfl, rfl⟩

theorem Stores.free (hs : Stores (c.enter k) c k₁) (h : Queue.Holds k.blockNext k.freeMemQ F)
    (hl : c.frees = true → ∀ b, c.gives k = some b → b ∉ F) :
    Queue.Holds k₁.blockNext k₁.freeMemQ (if c.frees then (c.gives k).toList ++ F else F) := by
  have hsame : c.frees = false → k₁.blockNext = k.blockNext ∧ k₁.freeMemQ = k.freeMemQ →
      Queue.Holds k₁.blockNext k₁.freeMemQ (if c.frees then (c.gives k).toList ++ F else F) := by
    rintro hc ⟨hnext, hq⟩
    rw [hc, hnext, hq]
    exact h
  cases c with
  | sendMessage processID envelope =>
    obtain ⟨e, -, hsends⟩ := hs
    exact hsame rfl hsends.free
  | delayedSend processID envelope delay =>
    obtain ⟨e, -, ⟨-, rfl⟩ | ⟨-, hsends⟩ | ⟨hpos, r, ho⟩⟩ := hs
    · exact hsame rfl ⟨rfl, rfl⟩
    · exact hsame rfl hsends.free
    · refine hsame rfl ?_
      rcases kernelDelayedSend_cases processID e (toInt delay) ((Call.delayedSend processID envelope delay).enter k) with
        ⟨hlt, -⟩ | ⟨hzero, -⟩ | ⟨-, d, ptr, prevPtr, -, ho'⟩ | ho'
      · exact absurd hpos (Int.not_lt.mpr (Int.le_of_lt hlt))
      · exact absurd hpos (by rw [hzero]; decide)
      · rw [ho'] at ho
        cases ho
        exact ⟨(linkDelayed_store ..).2.2, (linkDelayed_store ..).2.1⟩
      · rw [ho'] at ho
        cases ho
  | releaseMemoryBlock memoryBlock =>
    obtain ⟨b, hb, rfl⟩ := hs
    have hgives : (Call.releaseMemoryBlock memoryBlock).gives k = some b := hb
    rw [hgives]
    exact h.push (hl rfl b hgives)
  | requestMemoryBlock => exact hs.elim
  | receiveMessage senderID => exact hs.elim
  | releaseProcessor =>
    cases hs
    exact hsame rfl ⟨rfl, rfl⟩
  | setProcessPriority processID priority =>
    cases hs
    exact hsame rfl ⟨rfl, rfl⟩
  | getProcessPriority processID =>
    cases hs
    exact hsame rfl ⟨rfl, rfl⟩

/-- A request that returns has taken the oldest free block. -/
theorem requestMemoryBlock_free (hcode : k.kernelCode = KernelCode.requestMemory) (hi : k.inIProcess = false)
    (h : Queue.Holds k.blockNext k.freeMemQ F) (hs : swiTrapHandler k = .returned k') :
    ∃ l b, F = l ++ [b] ∧ Queue.Holds k'.blockNext k'.freeMemQ l ∧ k'.retCode = b.val := by
  obtain ⟨b, next, q, hdeq, rfl⟩ := requestMemoryBlock_returned hcode hi hs
  rcases List.eq_nil_or_concat F with rfl | ⟨l, x, rfl⟩
  · have hnil : some (some b, next, q) = some (none, k.blockNext, k.freeMemQ) := hdeq.symm.trans h.shift_nil
    cases hnil
  · rw [List.concat_eq_append] at h
    obtain ⟨next', q', hshift, hl, -⟩ := h.shift (Addr.length_le h.nodup)
    have hsame : some (some b, next, q) = some (some x, next', q') := hdeq.symm.trans hshift
    cases hsame
    exact ⟨l, b, List.concat_eq_append .., hl, rfl⟩

/-- A request that switches has found no free block. -/
theorem requestMemoryBlock_none (hcode : k.kernelCode = KernelCode.requestMemory)
    (h : Queue.Holds k.blockNext k.freeMemQ F) (hs : swiTrapHandler k = .switched k') :
    Queue.Holds k'.blockNext k'.freeMemQ F := by
  obtain ⟨next, q, hdeq, hres⟩ := requestMemoryBlock_switched hcode hs
  rw [hres.blockNext, hres.freeMemQ]
  rcases List.eq_nil_or_concat F with rfl | ⟨l, x, rfl⟩
  · have hnil : some (none, next, q) = some (none, k.blockNext, k.freeMemQ) := hdeq.symm.trans h.shift_nil
    cases hnil
    exact h
  · rw [List.concat_eq_append] at h
    obtain ⟨next', q', hshift, -⟩ := h.shift (Addr.length_le h.nodup)
    have hsame : some (none, next, q) = some (some x, next', q') := hdeq.symm.trans hshift
    cases hsame

/-- What the other calls do to the free blocks. -/
theorem call_free (hc : ∀ senderID, c ≠ .receiveMessage senderID) (hr : c ≠ .requestMemoryBlock)
    (h : Queue.Holds k.blockNext k.freeMemQ F) (hl : c.frees = true → ∀ b, c.gives k = some b → b ∉ F)
    (hs : (swiTrapHandler (c.enter k)).kernel? = some k') :
    Queue.Holds k'.blockNext k'.freeMemQ (if c.frees then (c.gives k).toList ++ F else F) := by
  obtain ⟨k₁, hstores, hres⟩ := call_stores hc hr hs
  rw [hres.blockNext, hres.freeMemQ]
  exact hstores.free h hl

/-! ### The places of the blocks -/

theorem hands_concat (o : Obs) : hands p (log ++ [o]) = Obs.grip p (hands p log) o := List.foldl_concat ..

theorem mem_hands_called :
    b ∈ hands p (log ++ [.called q c given]) ↔ b ∈ hands p log ∧ (p = q → given ≠ some b) := by
  rw [hands_concat]
  by_cases hp : q = p
  · simp [Obs.grip, hp]
  · simp [Obs.grip, hp, Ne.symm hp]

theorem mem_hands_returned : b ∈ hands p (log ++ [.returned q c value]) ↔
    (p = q ∧ c.takes = true) ∧ toPtr value = some b ∨ b ∈ hands p log := by
  rw [hands_concat]
  by_cases hp : q = p ∧ c.takes = true
  · simp [Obs.grip, hp]
  · simp [Obs.grip, hp, eq_comm (a := p)]

theorem hands_called_none : hands p (log ++ [.called q c none]) = hands p log := by
  rw [hands_concat]
  simp [Obs.grip]

/-- A call hands over a block to one place only. -/
theorem puts_unique {i j : BlockPlace} (hi : c.puts i = true) (hj : c.puts j = true) : i = j := by
  cases c <;> cases i <;> cases j <;>
    simp_all [Call.puts, Call.frees, Call.sendsTo, Call.delays, Fin.ext_iff]

theorem inFlight_eq_nil (h : ∀ c, s.pc s.kernel.currentPcb = .trapped c false →
    c ≠ .requestMemoryBlock ∧ ∀ senderID, c ≠ .receiveMessage senderID) : s.inFlight = [] := by
  unfold Sys.inFlight
  split
  next hpc => exact absurd rfl (h _ hpc).1
  next senderID hpc => exact absurd rfl ((h _ hpc).2 senderID)
  next => rfl

/-- Every block is in one place: it is free, in a mailbox, delayed, held by a process or about to be given to one. -/
structure Accounted (img : Layout) (s : Sys) (F : List Addr) (M : PcbRef → List Addr) (D : List Addr) : Prop
    extends Orderly s M D where
  free : Queue.Holds s.kernel.blockNext s.kernel.freeMemQ F
  custody : Custody (· ∈ img.pool) (s.places F M D)
  fetched : s.pc s.kernel.currentPcb = .trapped .requestMemoryBlock false → ∃ b : Addr, s.kernel.retCode = b.val
  last : ∀ p value, s.log.getLast? = some (.returned p .requestMemoryBlock value) → ∃ b, toPtr value = some b

theorem Accounted.granted (h : Accounted img s F M D) : Granted img s := by
  intro p value hlast
  obtain ⟨b, hb⟩ := h.last p value hlast
  obtain ⟨log, hlog⟩ := List.getLast?_eq_some_iff.mp hlast
  have hhand : b ∈ s.places F M D (.hand p) := by
    show b ∈ hands p s.log
    rw [hlog]
    exact mem_hands_returned.mpr (Or.inl ⟨⟨rfl, rfl⟩, hb⟩)
  refine ⟨b, h.custody.within _ b hhand, (toPtr_eq_some hb).symm, ⟨F, h.free.list, fun hF => ?_⟩, fun q hq hheld => ?_⟩
  · cases h.custody.apart .free _ b hF hhand
  · rcases hheld with hheld | ⟨l, hl, hmem⟩
    · cases h.custody.apart (.hand q) _ b hheld hhand
      exact hq rfl
    · have hM : b ∈ M q := hl.det (h.mail.mailboxes.holds q).list ▸ hmem
      cases h.custody.apart (.mailbox q) _ b hM hhand

theorem mem_put {into : Bool} {l : List Addr} (h : e ∈ if into then given.toList ++ l else l) :
    into = true ∧ given = some e ∨ e ∈ l := by
  split at h
  next hinto => exact (List.mem_append.mp h).imp (fun he => ⟨hinto, Option.mem_toList.mp he⟩) id
  next => exact Or.inr h

/-- A block that a process holds is in no mailbox and not delayed. -/
theorem Accounted.loose (h : Accounted img s F M D) (hb : b ∈ hands p s.log) : Loose M D b := by
  refine ⟨fun q hq => ?_, fun hD => ?_⟩
  · cases h.custody.apart (.mailbox q) (.hand p) b hq hb
  · cases h.custody.apart .delayed (.hand p) b hD hb

/-! ### The steps -/

/-- A step that only blocks the running process takes no block from its place. -/
theorem Accounted.kept {D' : List Addr} (h : Accounted img s F M D) (hhands : ∀ p, hands p s'.log = hands p s.log)
    (hflight : s'.inFlight = []) (hD : ∀ x ∈ D', x ∈ D) : Custody (· ∈ img.pool) (s'.places F M D') := by
  refine h.custody.mono fun k x hx => ?_
  cases k with
  | free => exact hx
  | mailbox p => exact hx
  | delayed => exact hD x hx
  | hand p =>
    rw [show s'.places F M D' (.hand p) = hands p s.log from hhands p] at hx
    exact hx
  | inFlight =>
    rw [show s'.places F M D' .inFlight = [] from hflight] at hx
    exact absurd hx List.not_mem_nil

/-- A step that takes the block `e` out of place `i` puts it in flight. -/
theorem Accounted.taken {i : BlockPlace} {F' D' : List Addr} {M' : PcbRef → List Addr} (h : Accounted img s F M D)
    (he : e ∈ s.places F M D i) (hhands : ∀ p, hands p s'.log = hands p s.log) (hflight : s'.inFlight = [e])
    (hF : ∀ x ∈ F', x ∈ F) (hM : ∀ p, ∀ x ∈ M' p, x ∈ M p) (hD : ∀ x ∈ D', x ∈ D) (hgone : e ∉ s'.places F' M' D' i) :
    Custody (· ∈ img.pool) (s'.places F' M' D') := by
  refine h.custody.take (j := .inFlight) he (fun x hx => ?_) (fun k hk x hx => ?_) hgone
  · rw [show s'.places F' M' D' .inFlight = [e] from hflight] at hx
    exact List.mem_singleton.mp hx
  · cases k with
    | free => exact hF x hx
    | mailbox p => exact hM p x hx
    | delayed => exact hD x hx
    | hand p =>
      rw [show s'.places F' M' D' (.hand p) = hands p s.log from hhands p] at hx
      exact hx
    | inFlight => exact absurd rfl hk

/-- The block that a call hands over goes from the hands of the running process to its place. -/
theorem Accounted.call (h : Accounted img s F M D) (hc : ∀ senderID, c ≠ .receiveMessage senderID)
    (hr : c ≠ .requestMemoryBlock) (hok : HandsOverOwn s (.call c))
    (hlog : s'.log = s.log ++ [.called s.kernel.currentPcb c (c.gives s.kernel)])
    (ht : s.Traps c (c.enter s.kernel) left s') : ∃ F' M' D', Accounted img s' F' M' D' := by
  obtain ⟨-, D', hord, hmem⟩ := h.toOrderly.call hc (fun _ e he => h.loose (hok e he)) ht
  have hfree := call_free hc hr h.free (fun _ b hb hF => by
    cases h.custody.apart .free (.hand s.kernel.currentPcb) b hF (hok b hb)) ht.kernel?
  have hflight : s'.inFlight = [] := inFlight_eq_nil fun c' hpc => by
    obtain ⟨-, rfl, -⟩ := ht.inv h.behind hpc
    exact ⟨hr, hc⟩
  have hplaces : ∀ k, ∀ x ∈ s'.places (if c.frees then (c.gives s.kernel).toList ++ F else F)
      (c.posted (c.gives s.kernel) M) D' k, c.puts k = true ∧ c.gives s.kernel = some x ∨
        x ∈ s.places F M D k ∧ (k = .hand s.kernel.currentPcb → c.gives s.kernel ≠ some x) := by
    intro k x hx
    cases k with
    | free => exact (mem_put hx).imp id fun hF => ⟨hF, nofun⟩
    | mailbox p => exact (mem_put hx).imp id fun hM => ⟨hM, nofun⟩
    | delayed => exact (hmem x hx).symm.imp id fun hD => ⟨hD, nofun⟩
    | hand p =>
      replace hx : x ∈ hands p s'.log := hx
      rw [hlog] at hx
      obtain ⟨hx, hne⟩ := mem_hands_called.mp hx
      exact Or.inr ⟨hx, fun he => hne (BlockPlace.hand.inj he)⟩
    | inFlight =>
      rw [show s'.places _ _ _ .inFlight = [] from hflight] at hx
      exact absurd hx List.not_mem_nil
  refine ⟨_, _, D', hord, hfree, ?_, fun hpc => ?_, fun p value hlast => ?_⟩
  · cases hgiven : c.gives s.kernel with
    | none =>
      rw [hgiven] at hplaces
      exact h.custody.mono fun k x hx => ((hplaces k x hx).resolve_left nofun).1
    | some e =>
      rw [hgiven] at hplaces
      have he : e ∈ s.places F M D (.hand s.kernel.currentPcb) := hok e hgiven
      refine h.custody.move (T := fun k => c.puts k = true) (h.custody.within _ e he)
        (fun _ _ => puts_unique) fun k x hx => ?_
      refine (hplaces k x hx).imp (fun hput => ⟨hput.1, (Option.some.inj hput.2).symm⟩) fun hx => ⟨?_, hx.1⟩
      rintro rfl
      exact hx.2 (h.custody.apart k _ x hx.1 he) rfl
  · obtain ⟨-, rfl, -⟩ := ht.inv h.behind hpc
    exact absurd rfl hr
  · rw [hlog, List.getLast?_concat] at hlast
    cases hlast

/-- A request takes the oldest free block for the running process, or blocks it. -/
theorem Accounted.request (h : Accounted img s F M D)
    (hlog : s'.log = s.log ++ [.called s.kernel.currentPcb .requestMemoryBlock none])
    (ht : s.Traps .requestMemoryBlock (Call.requestMemoryBlock.enter s.kernel) left s') :
    ∃ F' M' D', Accounted img s' F' M' D' := by
  obtain ⟨-, D', hord, hmem⟩ := h.toOrderly.call (c := .requestMemoryBlock) (fun _ => nofun)
    (fun _ _ he => nomatch (show none = some _ from he)) ht
  rw [posted_of_not fun _ => rfl] at hord
  have hdelayed : ∀ x ∈ D', x ∈ D := fun x hx => (hmem x hx).resolve_right fun hno => Bool.false_ne_true hno.1
  have hhands : ∀ p, hands p s'.log = hands p s.log := fun p => by rw [hlog, hands_called_none]
  have hlast : ∀ p value, s'.log.getLast? = some (.returned p .requestMemoryBlock value) → ∃ b, toPtr value = some b := by
    intro p value hlast
    rw [hlog, List.getLast?_concat] at hlast
    cases hlast
  have ho := ht.outcome
  cases left with
  | true =>
    have hnone : ∀ p c', s'.pc p ≠ .trapped c' false := fun p c' hpc => absurd (ht.inv h.behind hpc).2.2 nofun
    have hflight : s'.inFlight = [] := inFlight_eq_nil fun c' hpc => absurd hpc (hnone _ _)
    exact ⟨F, M, D', hord, requestMemoryBlock_none (k := Call.requestMemoryBlock.enter s.kernel) rfl h.free ho,
      h.kept hhands hflight hdelayed, fun hpc => absurd hpc (hnone _ _), hlast⟩
  | false =>
    obtain ⟨l, b, rfl, hl, hb⟩ :=
      requestMemoryBlock_free (k := Call.requestMemoryBlock.enter s.kernel) rfl h.calm.inIProcess h.free ho
    have hpc : s'.pc s'.kernel.currentPcb = .trapped .requestMemoryBlock false := by
      rw [ht.current rfl, ht.pc, Function.update_self]
    have hflight : s'.inFlight = [b] := by
      unfold Sys.inFlight
      rw [hpc, hb, toPtr_val]
      rfl
    have hfree : b ∈ s.places (l ++ [b]) M D .free := List.mem_append_right l List.mem_cons_self
    have hgone : b ∉ l := fun hin => (List.nodup_append.mp h.free.nodup).2.2 b hin b List.mem_cons_self rfl
    exact ⟨l, M, D', hord, hl, h.taken hfree hhands hflight (fun x hx => List.mem_append_left [b] hx)
      (fun _ _ hx => hx) hdelayed hgone, fun _ => ⟨b, hb⟩, hlast⟩

/-- A receive takes the oldest message out of the mailbox for the running process, or blocks it. -/
theorem Accounted.receive {senderID : Nat} (h : Accounted img s F M D) (hcode : k.kernelCode = KernelCode.receiveMessage)
    (hres : Rescheduled s.kernel k) (hcur : k.currentPcb = s.kernel.currentPcb)
    (hhands : ∀ p, hands p s'.log = hands p s.log)
    (hlast : ∀ p value, s'.log.getLast? = some (.returned p .requestMemoryBlock value) → ∃ b, toPtr value = some b)
    (ht : s.Traps (.receiveMessage senderID) k left s') : ∃ F' M' D', Accounted img s' F' M' D' := by
  have hfetched : s'.pc s'.kernel.currentPcb = .trapped .requestMemoryBlock false → ∃ b : Addr, s'.kernel.retCode = b.val :=
    fun hpc => absurd (ht.inv h.behind hpc).2.1 nofun
  rcases h.toOrderly.receive hcode hres hcur ht with
    ⟨rfl, hsame, -, hord⟩ | ⟨rfl, hcur', hnext, hq, l, e, hl, he, hord⟩
  · have hflight : s'.inFlight = [] := inFlight_eq_nil fun c' hpc => absurd (ht.inv h.behind hpc).2.2 nofun
    refine ⟨F, M, D, hord, ?_, h.kept hhands hflight fun _ hx => hx, hfetched, hlast⟩
    rw [hsame.blockNext, hsame.freeMemQ]
    exact h.free
  · have hpc : s'.pc s'.kernel.currentPcb = .trapped (.receiveMessage senderID) false := by
      rw [hcur', ht.pc, Function.update_self]
    have hflight : s'.inFlight = [e] := by
      unfold Sys.inFlight
      rw [hpc, he, toPtr_val]
      rfl
    have hmail : e ∈ s.places F M D (.mailbox s.kernel.currentPcb) := by
      show e ∈ M s.kernel.currentPcb
      rw [hl]
      exact List.mem_append_right l List.mem_cons_self
    have hgone : e ∉ Function.update M s.kernel.currentPcb l s.kernel.currentPcb := fun hin => by
      rw [Function.update_self] at hin
      have hnd := (h.mail.mailboxes.holds s.kernel.currentPcb).nodup
      rw [hl] at hnd
      exact (List.nodup_append.mp hnd).2.2 e hin e List.mem_cons_self rfl
    refine ⟨F, _, D, hord, ?_, h.taken hmail hhands hflight (fun _ hx => hx) (fun p x hx => ?_) (fun _ hx => hx) hgone,
      hfetched, hlast⟩
    · rw [hnext, hq]
      exact h.free
    · by_cases hp : p = s.kernel.currentPcb
      · subst hp
        rw [Function.update_self] at hx
        exact hl ▸ List.mem_append_left [e] hx
      · rwa [Function.update_of_ne hp] at hx

/-- A wrapper that returns a block returns the one in flight. -/
theorem mem_inFlight (hok : HandsOverOwn s .resume) (hpc : s.pc s.kernel.currentPcb = .trapped c left)
    (hv : c.leave s.kernel = some value) (hc : c.takes = true) (hb : toPtr value = some b) : b ∈ s.inFlight := by
  obtain ⟨hlook, hblocked⟩ := hok
  unfold Sys.inFlight
  cases c with
  | requestMemoryBlock =>
    cases left with
    | true => exact absurd hpc hblocked
    | false =>
      cases hv
      rw [hpc]
      exact Option.mem_toList.mpr hb
  | receiveMessage senderID =>
    obtain ⟨rfl, rfl⟩ := Orderly.received hlook hpc hv
    rw [hpc]
    exact Option.mem_toList.mpr hb
  | _ => cases hc

/-- A wrapper that returns gives the running process the block in flight. -/
theorem Accounted.leave (h : Accounted img s F M D) (hok : HandsOverOwn s .resume)
    (hpc : s.pc s.kernel.currentPcb = .trapped c left) (hv : c.leave s.kernel = some value) :
    Accounted img (s.left c value) F M D := by
  refine ⟨h.toOrderly.leave, h.free, h.custody.pour (i := .inFlight) (j := .hand s.kernel.currentPcb) fun k x hx => ?_,
    fun hpc' => ?_, fun p v hlast => ?_⟩
  · cases k with
    | hand p =>
      exact (mem_hands_returned.mp hx).imp (fun hin => ⟨congrArg _ hin.1.1, mem_inFlight hok hpc hv hin.1.2 hin.2⟩)
        fun hx => ⟨nofun, hx⟩
    | inFlight =>
      have hflight : (s.left c value).inFlight = [] := inFlight_eq_nil fun c' hpc' => by
        have huser : (s.left c value).pc (s.left c value).kernel.currentPcb = .user := Function.update_self ..
        rw [huser] at hpc'
        cases hpc'
      rw [show (s.left c value).places _ _ _ .inFlight = [] from hflight] at hx
      exact absurd hx List.not_mem_nil
    | free => exact Or.inr ⟨nofun, hx⟩
    | mailbox p => exact Or.inr ⟨nofun, hx⟩
    | delayed => exact Or.inr ⟨nofun, hx⟩
  · have huser : (s.left c value).pc (s.left c value).kernel.currentPcb = .user := Function.update_self ..
    rw [huser] at hpc'
    cases hpc'
  · rw [show (s.left c value).log = s.log ++ [_] from rfl, List.getLast?_concat] at hlast
    cases hlast
    cases left with
    | true => exact absurd hpc hok.2
    | false =>
      obtain ⟨b, hb⟩ := h.fetched hpc
      cases hv
      exact ⟨b, by rw [hb, toPtr_val]⟩

theorem Accounted.step (h : Accounted img s F M D) (hok : HandsOverOwn s a) (hs : s.step a = some s') :
    ∃ F' M' D', Accounted img s' F' M' D' := by
  cases a with
  | call c =>
    obtain ⟨-, hlog, left, ht⟩ := Sys.step_call hs
    by_cases hr : c = .requestMemoryBlock
    · subst hr
      exact h.request hlog ht
    by_cases hc : ∃ senderID, c = .receiveMessage senderID
    · obtain ⟨senderID, rfl⟩ := hc
      have hhands : ∀ p, hands p s'.log = hands p s.log := fun p => by
        rw [hlog]
        exact hands_called_none
      refine h.receive rfl (enter_rescheduled _ _) (enter_currentPcb _ _) hhands (fun p value hlast => ?_) ht
      rw [hlog, List.getLast?_concat] at hlast
      cases hlast
    · exact h.call (fun senderID he => hc ⟨senderID, he⟩) hr hok hlog ht
  | resume =>
    obtain ⟨c, left, hpc, ⟨value, hv, rfl⟩ | ⟨⟨senderID, rfl⟩, -, hlog, left', ht⟩⟩ := Sys.step_resume hs
    · exact ⟨F, M, D, h.leave hok hpc hv⟩
    · exact h.receive (k := { s.kernel with kernelCode := KernelCode.receiveMessage }) rfl
        ⟨fun _ => rfl, fun _ => rfl, rfl, rfl, rfl, rfl, rfl, rfl, id⟩ rfl (fun p => by rw [hlog])
        (fun p value hlast => h.last p value (hlog ▸ hlast)) ht

/-- The blocks outside the pool are linked to nothing. -/
theorem Booted.blockNext_of_not_mem (h : Booted img k) (hb : b ∉ img.pool) : k.blockNext b = none := by
  rw [h.started.blockNext, initFreeMemory_blockNext hb]
  rfl

/-- All blocks of the pool are free at first. -/
theorem Booted.accounted (h : Booted img k) : Accounted img (.start k) img.pool.reverse (fun _ => []) [] where
  toOrderly := h.orderly
  free := h.free
  custody := by
    have hfree : ∀ i x, x ∈ (Sys.start k).places img.pool.reverse (fun _ => []) [] i → i = .free ∧ x ∈ img.pool := by
      intro i x hx
      cases i with
      | free => exact ⟨rfl, List.mem_reverse.mp hx⟩
      | _ => exact absurd hx List.not_mem_nil
    exact ⟨fun i x hx => (hfree i x hx).2, fun i j x hi hj => (hfree i x hi).1.trans (hfree j x hj).1.symm⟩
  fetched := nofun
  last _ _ := nofun

end

/-- In every run from the booted state in which the processes hand over only blocks that they hold, a receiver that has
    blocked always looks into its mailbox again and no request that has blocked runs again, every request returns a block of
    the pool that is not free and that no other process holds. -/
theorem requests_granted (img : Layout) :
    ∃ k, boot img = .switched k ∧ ∀ acts : List Act, Runs.Along Sys.step HandsOverOwn (.start k) acts →
      Runs.Throughout Sys.step (Granted img) (.start k) acts := by
  obtain ⟨k, hboot, h⟩ := boot_spec img
  refine ⟨k, hboot, fun acts hacts => ?_⟩
  have hinv := Runs.throughout_of_invariant (I := fun s => ∃ F M D, Accounted img s F M D) (fun s a s' hI hok hs => by
    obtain ⟨F, M, D, hacc⟩ := hI
    exact hacc.step hok hs) ⟨_, _, _, h.accounted⟩ hacts
  exact hinv.imp fun s hI => by
    obtain ⟨F, M, D, hacc⟩ := hI
    exact hacc.granted

/-- The first process requests a block, gives it back and requests one again. -/
theorem requests_granted_again :
    let acts : List Act := [.call .requestMemoryBlock, .resume, .call (.releaseMemoryBlock firstBlock.val), .resume,
      .call .requestMemoryBlock, .resume]
    ∃ k, boot rtosMap = .switched k ∧ Runs.Throughout Sys.step (Granted rtosMap) (.start k) acts ∧
      ((Runs.exec Sys.step (.start k) acts).map fun s => hands s.kernel.currentPcb s.log) = some [secondBlock] := by
  intro acts
  obtain ⟨k, hboot, h⟩ := requests_granted rtosMap
  have hrun : (((boot rtosMap).kernel?.bind fun k =>
      Runs.exec (Runs.guarded Sys.step HandsOverOwn) (.start k) acts).any fun s =>
      decide (hands s.kernel.currentPcb s.log = [secondBlock])) = true := by decide +kernel
  rw [hboot] at hrun
  obtain ⟨s, hs, hheld⟩ := Option.any_eq_true _ _ |>.mp hrun
  obtain ⟨halong, hs⟩ := Runs.along_of_guarded hs
  exact ⟨k, hboot, h _ halong, by rw [hs]; exact congrArg some (of_decide_eq_true hheld)⟩

/-! ### A request that has blocked -/

/-- The running process requests `n` blocks. -/
def requests (n : Nat) : List Act := (List.replicate n [.call .requestMemoryBlock, .resume]).flatten

/-- The running process has been given the block `b`, and this is left of the free blocks. -/
def Sys.took (s : Sys) (b : Addr) (next : Links Addr) (q : FreeMemoryQueue) : Sys :=
  { s with
    kernel := { s.kernel with
      blockNext := next, freeMemQ := q, kernelCode := KernelCode.requestMemory, retCode := b.val }
    log := s.log ++ [.called s.kernel.currentPcb .requestMemoryBlock none,
      .returned s.kernel.currentPcb .requestMemoryBlock b.val] }

/-- The running process has been given the blocks of `bs` and then `b`, and none is left. -/
def Sys.drained (s : Sys) (bs : List Addr) (b : Addr) : Sys :=
  { s with
    kernel := { s.kernel with
      blockNext := fun _ => none, freeMemQ := Queue.empty, kernelCode := KernelCode.requestMemory, retCode := b.val }
    log := s.log ++ (bs ++ [b]).flatMap fun b => [.called s.kernel.currentPcb .requestMemoryBlock none,
      .returned s.kernel.currentPcb .requestMemoryBlock b.val] }

section
variable {s : Sys} {b : Addr} {bs : List Addr} {next : Links Addr} {q : FreeMemoryQueue}

theorem request_exec (hpc : s.pc s.kernel.currentPcb = .user)
    (hs : dequeueMemoryBlockFIFO s.kernel.blockNext s.kernel.freeMemQ = some (some b, next, q)) :
    Runs.exec Sys.step s [.call .requestMemoryBlock, .resume] = some (s.took b next q) := by
  have htrap : swiTrapHandler (Call.requestMemoryBlock.enter s.kernel) = .returned { s.kernel with
      blockNext := next, freeMemQ := q, kernelCode := KernelCode.requestMemory, retCode := b.val } := by
    rw [swiTrapHandler_requestMemory rfl, kernelRequestMemoryBlock_take (k := Call.requestMemoryBlock.enter s.kernel) hs]
    rfl
  have hcall : s.step (.call .requestMemoryBlock) = some
      { kernel := (s.took b next q).kernel
        pc := Function.update s.pc s.kernel.currentPcb (.trapped .requestMemoryBlock false)
        log := s.log ++ [.called s.kernel.currentPcb .requestMemoryBlock none] } := by
    unfold Sys.step
    simp only [hpc]
    unfold Sys.trap
    simp only [htrap]
    rfl
  have hpc' : Function.update (Function.update s.pc s.kernel.currentPcb (.trapped .requestMemoryBlock false))
      s.kernel.currentPcb .user = s.pc := by
    rw [Function.update_idem, ← hpc, Function.update_eq_self]
  rw [Runs.exec_cons, hcall, Option.bind_some, Runs.exec_cons]
  unfold Sys.step
  simp only [show (s.took b next q).kernel.currentPcb = s.kernel.currentPcb from rfl, Function.update_self, hpc']
  show some _ = some _
  rw [List.append_assoc]
  rfl

/-- Requests take all free blocks, the oldest first. -/
theorem requests_exec (hpc : s.pc s.kernel.currentPcb = .user)
    (hfree : Queue.Holds s.kernel.blockNext s.kernel.freeMemQ (bs ++ [b]).reverse)
    (hnone : ∀ x, x ∉ bs ++ [b] → s.kernel.blockNext x = none) :
    Runs.exec Sys.step s (requests (bs.length + 1)) = some (s.drained bs b) := by
  induction bs generalizing s with
  | nil =>
    have hnext : s.kernel.blockNext = fun _ => none := funext fun x => by
      by_cases hx : x = b
      · subst hx
        exact hfree.list.2
      · exact hnone x fun hmem => hx (List.mem_singleton.mp hmem)
    have hshift : dequeueMemoryBlockFIFO s.kernel.blockNext s.kernel.freeMemQ =
        some (some b, s.kernel.blockNext, Queue.empty) := hfree.shift_singleton
    refine (request_exec hpc hshift).trans ?_
    rw [hnext]
    rfl
  | cons a bs ih =>
    rw [List.cons_append, List.reverse_cons] at hfree
    obtain ⟨next, q, hshift, hholds, hsame⟩ := hfree.shift (Addr.length_le hfree.nodup)
    have hnone' : ∀ x, x ∉ bs ++ [b] → next x = none := fun x hx => by
      rw [hsame x fun hmem => hx (List.mem_reverse.mp hmem)]
      by_cases hxa : x = a
      · subst hxa
        exact hfree.list.next_last
      · refine hnone x fun hmem => ?_
        exact (List.mem_cons.mp hmem).elim hxa hx
    rw [List.length_cons]
    show Runs.exec Sys.step s ([.call .requestMemoryBlock, .resume] ++ requests (bs.length + 1)) = _
    rw [Runs.exec_append, request_exec hpc hshift, Option.bind_some, ih (s := s.took a next q) hpc hholds hnone']
    unfold Sys.drained Sys.took
    simp only [List.cons_append, List.flatMap_cons, List.append_assoc]

end

/-- The wall clock process, which holds all blocks, sends one of them to the CRT process and requests another. The CRT
    process receives the block and releases it. -/
def releasedInVain : List Act :=
  [.call (.sendMessage crtPid.val firstBlock.val), .resume, .call .requestMemoryBlock,
    .call (.receiveMessage 0), .resume, .call (.releaseMemoryBlock firstBlock.val), .resume,
    .call .releaseProcessor, .call .releaseProcessor, .resume]

theorem Layout.pool_eq (img : Layout) : img.pool = img.pool.dropLast ++ [img.block (Fin.last 255)] := by
  unfold Layout.pool
  rw [List.finRange_succ_last, List.map_append, List.map_cons, List.map_nil, List.dropLast_concat]

/-- The first process takes the whole pool. -/
theorem Booted.drained {k : Kernel} (h : Booted rtosMap k) : Runs.exec Sys.step (.start k) (requests 256) =
    some ((Sys.start k).drained rtosMap.pool.dropLast (rtosMap.block (Fin.last 255))) := by
  have hpool := Layout.pool_eq rtosMap
  have hdrain := requests_exec (s := .start k) rfl (hpool ▸ h.free) (fun x hx => by
    rw [← hpool] at hx
    exact h.blockNext_of_not_mem hx)
  have hlen : rtosMap.pool.dropLast.length + 1 = 256 := by
    rw [List.length_dropLast, Layout.pool, List.length_map, List.length_finRange]
    rfl
  rwa [hlen] at hdrain

/-- The wall clock process is given `NULL`, the result of the release that has woken it, while the block is free. -/
theorem request_given_null :
    ∃ s, ((boot rtosMap).kernel?.bind fun k =>
        Runs.exec Sys.step (.start k) (requests 256 ++ releasedInVain)) = some s ∧
      s.log.getLast? = some (.returned wcPid .requestMemoryBlock 0) ∧
      ¬Granted rtosMap s := by
  have hrun : ((boot rtosMap).kernel?.any fun k =>
      (Runs.exec Sys.step ((Sys.start k).drained rtosMap.pool.dropLast
        (rtosMap.block (Fin.last 255))) releasedInVain).any fun s =>
        decide (s.log.getLast? = some (.returned wcPid .requestMemoryBlock 0))) = true := by decide +kernel
  obtain ⟨k, hboot, h⟩ := boot_spec rtosMap
  rw [hboot] at hrun
  obtain ⟨s, hs, hlast⟩ := Option.any_eq_true _ _ |>.mp (show Option.any _ (Runs.exec _ _ _) = true from hrun)
  replace hlast := of_decide_eq_true hlast
  refine ⟨s, ?_, hlast, fun hgranted => ?_⟩
  · rw [hboot]
    show Runs.exec Sys.step (.start k) (requests 256 ++ releasedInVain) = some s
    rw [Runs.exec_append, h.drained]
    exact hs
  · obtain ⟨b, -, hb, -⟩ := hgranted wcPid 0 hlast
    exact absurd b.pos (by omega)

end DoorRtos
