import DoorRtos.Runs
import DoorRtos.Theorems.Destinations
import DoorRtos.Theorems.Insertion
import DoorRtos.Theorems.Iterations
import DoorRtos.Theorems.Mail

/-! The mailboxes and the list of delayed messages in the course of `kernel_delayed_send` calls and iterations of the
    timer process, the messages in the timer's own mailbox included. -/

namespace DoorRtos
open Linked

/-- A PCB that has a mailbox has its own. -/
def OwnMailboxes (k : Kernel) : Prop := ∀ p mq, (k.pcbs p).messQueue = some mq → mq = p

/-- What sending the envelope `e` to `pid` does to the messages: it is the newest one in the mailbox of the process found,
    if one is found. -/
structure Posts (k : Kernel) (M : PcbRef → List Addr) (D : List Addr) (pid : Nat) (e : Addr) (k' : Kernel) : Prop where
  table : SameTable k k'
  mail : Mail k' (fun p => if getPcb k pid = some p then e :: M p else M p) D
  delay : ∀ x, (k'.mess x).delay = (k.mess x).delay
  destPid : ∀ x, (k'.mess x).destPid = if x = e then pid else (k.mess x).destPid
  senderPid : ∀ x, (k'.mess x).senderPid = if x = e then k.current.pid else (k.mess x).senderPid

/-- The envelopes of `passed` that a process is found for, in order. -/
def arrivals (k : Kernel) (passed : List (Nat × Addr)) (p : PcbRef) : List Addr :=
  (passed.filter fun x => getPcb k x.1 = some p).map Prod.snd

/-- A process is found under the pid of the sender. -/
def SenderFound (k : Kernel) (e : Addr) : Prop := (getPcb k (k.mess e).senderPid).isSome

/-- What an expiry does that passes on the messages of `D₁` and leaves those of `D₂`. -/
structure Expires (k : Kernel) (M : PcbRef → List Addr) (D₁ D₂ : List Addr) (k' : Kernel) : Prop where
  table : SameTable k k'
  mail : Mail k' (fun p => (arrivals k (outgoing k D₁) p).reverse ++ M p) D₂
  delay : ∀ x, (k'.mess x).delay = (k.mess x).delay
  destPid : ∀ x, (k'.mess x).destPid = (k.mess x).destPid
  sender : ∀ x, x ∈ D₁ ∨ SenderFound k x → SenderFound k' x

/-- What the first loop of a round does: the running process has taken the messages of its mailbox, and they are in the
    list of delayed messages with those of `D`, each for its sender. -/
structure Takes (k : Kernel) (M : PcbRef → List Addr) (D : List Addr) (k' : Kernel) (D' : List Addr) : Prop where
  table : SameTable k k'
  current : k'.currentPcb = k.currentPcb
  mail : Mail k' (Function.update M k.currentPcb []) D'
  kept : D.Sublist D'
  senderPid : ∀ x, (k'.mess x).senderPid = (k.mess x).senderPid
  destPid : ∀ x, (k'.mess x).destPid = if x ∈ M k.currentPcb then (k.mess x).senderPid else (k.mess x).destPid
  taken : ∀ x, x ∈ D' ↔ x ∈ D ∨ x ∈ M k.currentPcb

section
variable {k k' k₁ : Kernel} {M : PcbRef → List Addr} {D D₁ D₂ : List Addr} {e : Addr} {pid r n c c' : Nat}
  {passed : List (Nat × Addr)} {p : PcbRef}

theorem SameTable.getPcb (h : SameTable k k') (pid : Nat) : getPcb k' pid = getPcb k pid :=
  getPcb_congr (fun p => (h p).1) pid

theorem SameTable.own (h : SameTable k k') (hown : OwnMailboxes k) : OwnMailboxes k' := fun p mq hp =>
  hown p mq ((h p).2 ▸ hp)

/-! ### Sending -/

theorem kernelSendMessage_posts (hown : OwnMailboxes k) (h : Mail k M D) (hl : Loose M D e)
    (hs : kernelSendMessage pid e k = .returned (r, k')) : Posts k M D pid e k' := by
  obtain ⟨k₁, hsends, hres⟩ := kernelSendMessage_stores (show (kernelSendMessage pid e k).last = some k' by rw [hs]; rfl)
  have htable : SameTable k k₁ := by
    rcases hsends with ⟨-, rfl⟩ | ⟨d, mq, -, -, rfl⟩ <;> exact fun _ => ⟨rfl, rfl⟩
  have hmail : Mail k₁ (fun p => if getPcb k pid = some p then e :: M p else M p) D := by
    rcases hsends with ⟨hd, rfl⟩ | ⟨d, mq, hd, hmq, rfl⟩
    · rw [hd]
      simp only [reduceCtorEq, if_false]
      exact h.congr rfl rfl rfl
    · have hM : (fun p => if getPcb k pid = some p then e :: M p else M p) = Function.update M d (e :: M d) := by
        funext p
        rw [hd]
        by_cases hp : p = d
        · subst hp
          rw [Function.update_self]
          exact if_pos rfl
        · rw [Function.update_of_ne hp]
          exact if_neg fun hv => hp (Option.some.inj hv).symm
      rw [hM, hown d mq hmq]
      exact h.delivered hl
  have hmess : ∀ x, k'.mess x =
      if x = e then { k.mess e with senderPid := k.current.pid, destPid := pid } else k.mess x := by
    intro x
    rw [hres.mess, ← setMess_mess]
    rcases hsends with ⟨-, rfl⟩ | ⟨d, mq, -, -, rfl⟩ <;> rfl
  refine ⟨htable.trans hres.sameTable, hmail.rescheduled hres, fun x => ?_, fun x => ?_, fun x => ?_⟩
  all_goals
    rw [hmess]
    by_cases hx : x = e
    · subst hx
      simp
    · simp [hx]

theorem Posts.sender (h : Posts k M D pid e k') {x : Addr} (hx : x = e ∨ SenderFound k x) : SenderFound k' x := by
  unfold SenderFound
  rw [h.senderPid, h.table.getPcb]
  split
  next => exact getPcb_isSome k k.currentPcb
  next hne => exact hx.resolve_left hne

/-! ### Expiry -/

theorem arrivals_cons (x : Nat × Addr) :
    arrivals k (x :: passed) p = if getPcb k x.1 = some p then x.2 :: arrivals k passed p else arrivals k passed p := by
  unfold arrivals
  rw [List.filter_cons]
  by_cases hx : getPcb k x.1 = some p <;> simp [hx]

theorem mem_arrivals : e ∈ arrivals k (outgoing k D) p ↔ e ∈ D ∧ getPcb k (k.mess e).destPid = some p := by
  unfold arrivals outgoing
  simp only [List.mem_map, List.mem_filter, decide_eq_true_eq]
  constructor
  · rintro ⟨x, ⟨⟨y, hy, rfl⟩, hp⟩, rfl⟩
    exact ⟨hy, hp⟩
  · rintro ⟨he, hp⟩
    exact ⟨((k.mess e).destPid, e), ⟨⟨e, he, rfl⟩, hp⟩, rfl⟩

/-- The first message is taken out and sent, and then the rest expires. -/
theorem Expires.cons
    (h : Posts { k with delayedSendQueue := ⟨k.messNext e, k.delayedSendQueue.tail⟩ } M (D₁ ++ D₂) (k.mess e).destPid e k₁)
    (h' : Expires k₁ (fun p => if getPcb k (k.mess e).destPid = some p then e :: M p else M p) D₁ D₂ k') :
    outgoing k₁ D₁ = outgoing k D₁ ∧ Expires k M (e :: D₁) D₂ k' := by
  have hdest : ∀ x, (k₁.mess x).destPid = (k.mess x).destPid := fun x => by
    rw [h.destPid x]
    split
    next hx => rw [hx]
    next => rfl
  have hout : outgoing k₁ D₁ = outgoing k D₁ := List.map_congr_left fun x _ => by rw [hdest]
  have htable : SameTable k k₁ := h.table
  refine ⟨hout, htable.trans h'.table, ?_, fun x => (h'.delay x).trans (h.delay x), fun x => (h'.destPid x).trans (hdest x),
    fun x hx => h'.sender x ?_⟩
  · have hM : (fun p => (arrivals k (outgoing k (e :: D₁)) p).reverse ++ M p) = fun p =>
        (arrivals k₁ (outgoing k₁ D₁) p).reverse ++ if getPcb k (k.mess e).destPid = some p then e :: M p else M p := by
      funext p
      have harr : arrivals k₁ (outgoing k₁ D₁) p = arrivals k (outgoing k D₁) p := by
        unfold arrivals
        simp only [htable.getPcb, hout]
      rw [harr]
      show (arrivals k (((k.mess e).destPid, e) :: outgoing k D₁) p).reverse ++ M p = _
      rw [arrivals_cons]
      by_cases hp : getPcb k (k.mess e).destPid = some p
      · rw [if_pos hp, if_pos hp, List.reverse_cons, List.append_assoc]
        rfl
      · rw [if_neg hp, if_neg hp]
    rw [hM]
    exact h'.mail
  · rcases hx with hx | hx
    · exact (List.mem_cons.mp hx).symm.imp_right fun he => h.sender (Or.inl he)
    · exact Or.inr (h.sender (Or.inr hx))

/-- The second loop of a round. -/
theorem timerExpire_expires (hown : OwnMailboxes k) (h : Mail k M D)
    (hs : timerExpire n c k = .returned (c', passed, k')) :
    ∃ D₁ D₂, D = D₁ ++ D₂ ∧ passed = outgoing k D₁ ∧ Expires k M D₁ D₂ k' := by
  induction n generalizing k M D c passed c' k' with
  | zero => cases hs
  | succ n ih =>
    unfold timerExpire at hs
    cases D with
    | nil =>
      have hhead : k.delayedSendQueue.head = none := h.delayed
      rw [hhead] at hs
      cases hs
      exact ⟨[], [], rfl, rfl, .of_pcbs rfl, h, fun _ => rfl, fun _ => rfl, fun x hx => hx.resolve_left List.not_mem_nil⟩
    | cons e D =>
      have hhead : k.delayedSendQueue.head = some e := h.delayed.1
      rw [hhead] at hs
      simp only [dequeueMessageLIFO, Queue.pop, hhead] at hs
      split at hs
      · obtain ⟨⟨r, k₁⟩, hsend, hs⟩ := Outcome.bind_eq_returned.mp hs
        obtain ⟨⟨c₂, passed₂, k₂⟩, hexpire, hs⟩ := Outcome.bind_eq_returned.mp hs
        cases hs
        have hmail : Mail { k with delayedSendQueue := ⟨k.messNext e, k.delayedSendQueue.tail⟩ } M D :=
          ⟨h.mailboxes, h.delayed.2, fun p x hx => h.apart p x (List.mem_cons_of_mem e hx)⟩
        have hloose : Loose M D e :=
          ⟨fun p => h.apart p e List.mem_cons_self, (List.nodup_cons.mp h.delayed.nodup).1⟩
        have hown₀ : OwnMailboxes { k with delayedSendQueue := ⟨k.messNext e, k.delayedSendQueue.tail⟩ } := hown
        have hposts := kernelSendMessage_posts hown₀ hmail hloose hsend
        obtain ⟨D₁, D₂, rfl, rfl, hexp⟩ := ih (hposts.table.own hown) hposts.mail hexpire
        obtain ⟨hout, hexp'⟩ := Expires.cons hposts hexp
        exact ⟨e :: D₁, D₂, rfl, by rw [hout]; rfl, hexp'⟩
      · cases hs
        exact ⟨[], e :: D, rfl, rfl, .of_pcbs rfl, h, fun _ => rfl, fun _ => rfl,
          fun x hx => hx.resolve_left List.not_mem_nil⟩

/-! ### The timer's mailbox -/

theorem timerInsert_inserted {D : List Addr} (hlist : IsList k.messNext k.delayedSendQueue.head D) (he : e ∉ D) :
    ∃ a b k', D = a ++ b ∧ timerInsert e k = .returned k' ∧ Inserted k (k.mess e).senderPid e a b k' ∧
      k'.currentPcb = k.currentPcb ∧ ∀ x, (k'.mess x).senderPid = (k.mess x).senderPid := by
  obtain ⟨a, b, rfl, -, -, hseek⟩ :=
    seekDelay_eq (d := (k.mess e).delay) (p := none) hlist (Addr.length_lt hlist.nodup)
  rw [Option.or_none] at hseek
  refine ⟨a, b, linkDelayed e (Delta.seek (k.mess e).delay (entries k (a ++ b))).1 b.head? a.getLast?
    (k.setMess e { k.mess e with destPid := (k.mess e).senderPid }), rfl, ?_,
    ⟨?_, fun x hx ha => ?_, fun x => ?_, ?_, ?_, ?_, ?_⟩, ?_, fun x => ?_⟩
  · unfold timerInsert
    rw [hseek]
    rfl
  · exact linkDelayed_isList (k := k.setMess e _) hlist he _
  · exact linkDelayed_messNext _ hx fun h => ha (List.mem_of_getLast? h)
  · rw [linkDelayed_mess, setMess_mess]
    split <;> rfl
  · exact (linkDelayed_frame e _ _ _ _).1
  · exact (linkDelayed_store e _ _ _ _).1
  · exact (linkDelayed_store e _ _ _ _).2.1
  · exact (linkDelayed_store e _ _ _ _).2.2
  · exact (linkDelayed_frame e _ _ _ _).2.2.2.1
  · rw [linkDelayed_mess, setMess_mess]
    split
    next hx => rw [hx]
    next => rfl

/-- One message of the mailbox goes into the list, and then the rest is taken. -/
theorem Takes.cons {l a b : List Addr} (hl : M k.currentPcb = l ++ [e]) (hnot : e ∉ l) (hcur : k₁.currentPcb = k.currentPcb)
    (hpcbs : k₁.pcbs = k.pcbs) (hsend : ∀ x, (k₁.mess x).senderPid = (k.mess x).senderPid)
    (hdest : ∀ x, (k₁.mess x).destPid = if x = e then (k.mess e).senderPid else (k.mess x).destPid)
    (h' : Takes k₁ (Function.update M k.currentPcb l) (a ++ e :: b) k' D) : Takes k M (a ++ b) k' D := by
  have hM : Function.update M k.currentPcb l k₁.currentPcb = l := by rw [hcur, Function.update_self]
  have hmem : ∀ x, x ∈ M k.currentPcb ↔ x ∈ l ∨ x = e := fun x => by simp [hl]
  refine ⟨(SameTable.of_pcbs hpcbs).trans h'.table, h'.current.trans hcur, ?_,
    ((List.Sublist.refl a).append (List.sublist_cons_self e b)).trans h'.kept, fun x => (h'.senderPid x).trans (hsend x),
    fun x => ?_, fun x => ?_⟩
  · have hmail := h'.mail
    rwa [hcur, Function.update_idem] at hmail
  · rw [h'.destPid, hM, hdest, hsend]
    by_cases hx : x = e
    · subst hx
      rw [if_neg hnot, if_pos rfl, if_pos ((hmem x).mpr (Or.inr rfl))]
    · rw [if_neg hx]
      have hiff : x ∈ l ↔ x ∈ M k.currentPcb := ((hmem x).trans (or_iff_left hx)).symm
      simp only [hiff]
  · rw [h'.taken, hM, List.perm_middle.mem_iff, List.mem_cons, hmem]
    tauto

/-- The first loop of a round. -/
theorem timerMailbox_takes (hown : OwnMailboxes k) (h : Mail k M D) (hs : timerMailbox n k = .returned k') :
    ∃ D', Takes k M D k' D' := by
  induction n generalizing k M D with
  | zero => cases hs
  | succ n ih =>
    unfold timerMailbox at hs
    rcases kernelReceiveMessage_cases k with ⟨mq, hmq, hempty, -, ho⟩ | ⟨mq, o, next, q, hmq, hempty, hdeq, ho⟩ |
        ⟨mq, -, -, ho⟩ | ho <;>
      rw [ho] at hs
    · obtain rfl := hown _ mq hmq
      cases hs
      have hnil : M k.currentPcb = [] := (h.mailboxes.holds k.currentPcb).isEmpty_iff.mp hempty
      have hM : Function.update M k.currentPcb [] = M := by rw [← hnil, Function.update_eq_self]
      refine ⟨D, ⟨.of_pcbs rfl, rfl, ?_, List.Sublist.refl D, fun _ => rfl, fun x => ?_, fun x => ?_⟩⟩
      · rw [hM]
        exact h.congr rfl rfl rfl
      · rw [hnil, if_neg List.not_mem_nil]
      · rw [hnil, or_iff_left List.not_mem_nil]
    · obtain rfl := hown _ mq hmq
      have hne : M k.currentPcb ≠ [] := fun hnil => by
        have hq := (h.mailboxes.holds k.currentPcb).isEmpty_iff.mpr hnil
        exact absurd (hempty.symm.trans hq) Bool.false_ne_true
      obtain ⟨l, e, hl⟩ : ∃ l e, M k.currentPcb = l ++ [e] := ⟨_, _, (List.dropLast_append_getLast hne).symm⟩
      have hnot : e ∉ l := fun he => by
        have hnd := (h.mailboxes.holds k.currentPcb).nodup
        rw [hl] at hnd
        exact (List.nodup_append.mp hnd).2.2 e he e List.mem_cons_self rfl
      obtain ⟨rfl, hloose, hmail⟩ := h.take hl hdeq
      have hmail := hmail { k with
        msgReturn := false, messNext := next, mQueues := Function.update k.mQueues k.currentPcb q,
        retCodeRecv := toWord (some e) } rfl rfl rfl
      obtain ⟨a, b, k₁, rfl, hput, hins, hcur, hsend⟩ := timerInsert_inserted hmail.delayed hloose.2
      simp only [Outcome.returned_bind, hput] at hs
      have hown₁ : OwnMailboxes k₁ := fun p mq hp => hown p mq (by rwa [hins.pcbs] at hp)
      obtain ⟨D', h'⟩ := ih hown₁ (hmail.inserted hloose hins) hs
      exact ⟨D', Takes.cons hl hnot hcur hins.pcbs hsend hins.destPid h'⟩
    · obtain ⟨r, hrun, -⟩ := Outcome.bind_eq_returned.mp hs
      exact absurd hrun runNext_not_returned
    · cases hs

end

/-! ### The steps -/

/-- What an iteration does: the messages of the timer's mailbox go into the list, and then those of `D₁` are passed on. -/
structure Iterates (s : Timing) (M : PcbRef → List Addr) (D D₁ D₂ : List Addr) (k₁ : Kernel) (s' : Timing) : Prop where
  takes : Takes { s.kernel with currentPcb := timerPid, inIProcess := true } M D k₁ (D₁ ++ D₂)
  expires : Expires k₁ (Function.update M timerPid []) D₁ D₂ s'.kernel
  passed : s'.passed = s.passed ++ (outgoing k₁ D₁).map fun x => ⟨s.iterations + 1, x.1, x.2⟩
  accepted : s'.accepted = s.accepted

/-- What a call leaves alone that hands over the envelope `e`. -/
structure Calls (s : Timing) (e : Addr) (s' : Timing) : Prop where
  table : SameTable s.kernel s'.kernel
  passed : s'.passed = s.passed
  destPid : ∀ x, x ≠ e → (s'.kernel.mess x).destPid = (s.kernel.mess x).destPid
  sender : ∀ x, x = e ∨ SenderFound s.kernel x → SenderFound s'.kernel x

section
variable {s s' : Timing} {M : PcbRef → List Addr} {D : List Addr} {e : Addr} {pid : Nat} {caller : PcbRef} {delay : Int}

theorem Timing.step_iteration (hown : OwnMailboxes s.kernel) (h : Mail s.kernel M D) (hs : s.step .iteration = some s') :
    ∃ D₁ D₂ k₁, Iterates s M D D₁ D₂ k₁ s' := by
  simp only [Timing.step] at hs
  split at hs
  next timerCount passed k' hround =>
    cases hs
    unfold timerRound at hround
    obtain ⟨k₁, hmailbox, hexpire⟩ := Outcome.bind_eq_returned.mp hround
    have hown₀ : OwnMailboxes { s.kernel with currentPcb := timerPid, inIProcess := true } := hown
    have h₀ : Mail { s.kernel with currentPcb := timerPid, inIProcess := true } M D := h.congr rfl rfl rfl
    obtain ⟨D', htakes⟩ := timerMailbox_takes hown₀ h₀ hmailbox
    obtain ⟨D₁, D₂, rfl, rfl, hexp⟩ := timerExpire_expires (htakes.table.own hown₀) htakes.mail hexpire
    exact ⟨D₁, D₂, k₁, htakes, hexp, rfl, rfl⟩
  next => cases hs

theorem Timing.step_send (hs : s.step (.delayedSend caller pid e delay) = some s') :
    ∃ r, kernelDelayedSend pid e delay { s.kernel with currentPcb := caller, inIProcess := false } =
        .returned (r, s'.kernel) ∧ s'.passed = s.passed ∧
      s'.accepted = if r = rtxSuccess then s.accepted ++ [⟨e, pid, delay.toNat, s.iterations⟩] else s.accepted := by
  simp only [Timing.step] at hs
  split at hs
  next r k' hsend =>
    refine ⟨r, ?_⟩
    by_cases hr : r = rtxSuccess
    · rw [if_pos hr] at hs ⊢
      cases hs
      exact ⟨hsend, rfl, rfl⟩
    · rw [if_neg hr] at hs ⊢
      cases hs
      exact ⟨hsend, rfl, rfl⟩
  next => cases hs

theorem marked_sender {k : Kernel} (x : Addr) :
    ((k.marked pid e).mess x).senderPid = if x = e then k.current.pid else (k.mess x).senderPid := by
  unfold Kernel.marked
  rw [setMess_mess]
  split <;> rfl

/-- The caller of a call with a positive delay is the sender. -/
theorem kernelDelayedSend_sender {k k' : Kernel} {r : Nat} (hpos : 0 < delay)
    (hs : kernelDelayedSend pid e delay k = .returned (r, k')) (x : Addr) :
    (k'.mess x).senderPid = if x = e then k.current.pid else (k.mess x).senderPid := by
  rcases kernelDelayedSend_cases pid e delay k with ⟨hlt, -⟩ | ⟨hzero, -⟩ | ⟨-, d, ptr, prevPtr, -, ho⟩ | ho
  · exact absurd hpos (Int.not_lt.mpr (Int.le_of_lt hlt))
  · exact absurd hpos (hzero ▸ Int.lt_irrefl 0)
  · cases ho.symm.trans hs
    rw [linkDelayed_mess, ← marked_sender]
  · cases ho.symm.trans hs

/-- A call with a positive delay puts its envelope into the list. -/
theorem Timing.step_later (h : Mail s.kernel M D) (hl : Loose M D e) (hpos : 0 < delay)
    (hs : s.step (.delayedSend caller pid e delay) = some s') :
    Calls s e s' ∧ s'.accepted = s.accepted ++ [⟨e, pid, delay.toNat, s.iterations⟩] ∧ (s'.kernel.mess e).destPid = pid ∧
      ∃ a b, D = a ++ b ∧ Mail s'.kernel M (a ++ e :: b) ∧
        (Delta.seek delay.toNat (entries s.kernel D)).2.1 = entries s.kernel a ∧
        ((∀ x ∈ entries s.kernel D, x.2 < 2 ^ 32) →
          entries s'.kernel (a ++ e :: b) = Delta.insert e delay.toNat (entries s.kernel D)) := by
  obtain ⟨r, hsend, -⟩ := Timing.step_send hs
  obtain ⟨a, b, k', rfl, hstep, hins, hbefore, hinsert⟩ := Timing.send_spec caller pid hpos h.delayed hl.2
  cases hstep.symm.trans hs
  have htable : SameTable s.kernel k' := .of_pcbs hins.pcbs
  refine ⟨⟨htable, rfl, fun x hx => (hins.destPid x).trans (if_neg hx), fun x hx => ?_⟩, rfl,
    (hins.destPid e).trans (if_pos rfl), a, b, rfl, h.inserted hl hins, hbefore, hinsert⟩
  unfold SenderFound
  rw [htable.getPcb, kernelDelayedSend_sender hpos hsend]
  split
  next => exact getPcb_isSome s.kernel caller
  next hne => exact hx.resolve_left hne

/-- A call without a delay sends its envelope. -/
theorem Timing.step_now (hown : OwnMailboxes s.kernel) (h : Mail s.kernel M D) (hl : Loose M D e) (hle : delay ≤ 0)
    (hs : s.step (.delayedSend caller pid e delay) = some s') :
    Calls s e s' ∧
      (s'.accepted = s.accepted ∨
        s'.accepted = s.accepted ++ [⟨e, pid, delay.toNat, s.iterations⟩] ∧ delay = 0 ∧ (getPcb s.kernel pid).isSome) ∧
      (∀ x, (s'.kernel.mess x).delay = (s.kernel.mess x).delay) ∧
      Mail s'.kernel (fun p => if delay = 0 ∧ getPcb s.kernel pid = some p then e :: M p else M p) D := by
  obtain ⟨r, hsend, hpassed, haccepted⟩ := Timing.step_send hs
  have hown₀ : OwnMailboxes ({ s.kernel with currentPcb := caller, inIProcess := false }.marked pid e) := hown
  have h₀ : Mail ({ s.kernel with currentPcb := caller, inIProcess := false }.marked pid e) M D := h.congr rfl rfl rfl
  have hdelay := fun x => (marked_mess (k := { s.kernel with currentPcb := caller, inIProcess := false }) pid e x).1
  have hdest := fun x => (marked_mess (k := { s.kernel with currentPcb := caller, inIProcess := false }) pid e x).2
  have hsender : ∀ x, x = e ∨ SenderFound s.kernel x →
      SenderFound ({ s.kernel with currentPcb := caller, inIProcess := false }.marked pid e) x := fun x hx => by
    unfold SenderFound
    rw [marked_sender]
    split
    next => exact getPcb_isSome s.kernel caller
    next hne => exact hx.resolve_left hne
  rcases kernelDelayedSend_cases pid e delay { s.kernel with currentPcb := caller, inIProcess := false } with
    ⟨hlt, ho⟩ | ⟨rfl, ho⟩ | ⟨hpos, -⟩ | ho
  · obtain ⟨rfl, hk⟩ := Prod.mk.inj (Outcome.returned.inj (ho.symm.trans hsend))
    rw [if_neg (by decide)] at haccepted
    rw [← hk]
    refine ⟨⟨.of_pcbs (hk ▸ rfl), hpassed, fun x hx => ?_, fun x hx => hk ▸ hsender x hx⟩, Or.inl haccepted, hdelay, ?_⟩
    · rw [← hk]
      exact (hdest x).trans (if_neg hx)
    · have hnot : ∀ p, ¬(delay = 0 ∧ getPcb s.kernel pid = some p) := fun p hand => Int.ne_of_lt hlt hand.1
      simp only [hnot, if_false]
      exact h₀
  · have hposts := kernelSendMessage_posts hown₀ h₀ hl (ho.symm.trans hsend)
    refine ⟨⟨hposts.table, hpassed, fun x hx => ?_, fun x hx => hposts.sender (Or.inr (hsender x hx))⟩,
      ?_, fun x => (hposts.delay x).trans (hdelay x), ?_⟩
    · rw [hposts.destPid, if_neg hx]
      exact (hdest x).trans (if_neg hx)
    · by_cases hr : r = rtxSuccess
      · rw [if_pos hr] at haccepted
        refine Or.inr ⟨haccepted, rfl, ?_⟩
        by_contra hnone
        have hunknown : getPcb ({ s.kernel with currentPcb := caller, inIProcess := false }.marked pid e) pid = none :=
          Option.not_isSome_iff_eq_none.mp hnone
        rw [hr] at hsend
        cases (kernelSendMessage_unknown hunknown).symm.trans (ho.symm.trans hsend)
      · rw [if_neg hr] at haccepted
        exact Or.inl haccepted
    · simp only [true_and]
      exact hposts.mail
  · exact absurd hpos (Int.not_lt.mpr hle)
  · cases ho.symm.trans hsend

end
end DoorRtos
