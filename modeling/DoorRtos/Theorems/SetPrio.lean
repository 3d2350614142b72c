import DoorRtos.Programs
import DoorRtos.Runs
import DoorRtos.Theorems.Boot

/-! The envelopes that the priority process uses, and when they are its own. -/

namespace DoorRtos
open Interaction

/-! ### Ownership -/

/-- The block that a process obtains. -/
def obtained : Event Op Ans → Option Addr
  | ⟨.receiveMessage, x⟩ => x.map Envelope.addr
  | ⟨.requestMemoryBlock, b⟩ => some b
  | _ => none

namespace Op

/-- The block that a process gives away. -/
def gives : Op → Option Addr
  | sendMessage _ e => some e
  | releaseMemoryBlock b => some b
  | _ => none

/-- The block that a process gives away or writes to. -/
def uses : Op → Option Addr
  | store e _ _ => some e
  | op => op.gives

end Op

/-- The blocks that a process holds after an event. -/
def hold (held : List Addr) (e : Event Op Ans) : List Addr :=
  (obtained e).toList ++ held.filter fun b => e.1.gives ≠ some b

/-- The process holds the block that it uses. -/
def UsesOwn (held : List Addr) (e : Event Op Ans) : Prop := ∀ b, e.1.uses = some b → b ∈ held

/-- Every block used in the history is one that the process then holds, when it holds `held` at first. -/
def OwnsAll (held : List Addr) (h : History Op Ans) : Prop := Runs.Meets (fun held e => some (hold held e)) UsesOwn held h

/-- A command that names no process or no priority. -/
def Envelope.Invalid (k : Kernel) (env : Envelope) : Prop := env.IsCommand ∧ ¬env.IsValid k

section
variable {k : Kernel} {held : List Addr} {h h₁ h₂ : History Op Ans} {e : Event Op Ans} {env : Envelope} {p spare b : Addr}
  {ms : List Envelope} {n : Nat}

theorem ownsAll_cons : OwnsAll held (e :: h) ↔ UsesOwn held e ∧ OwnsAll (hold held e) h :=
  and_congr_right fun _ => ⟨fun hall => hall _ rfl, fun hall _ ht => Option.some.inj ht ▸ hall⟩

theorem ownsAll_store {f : Field} {v : Nat} {x : Ans (.store b f v)} :
    OwnsAll held (⟨.store b f v, x⟩ :: h) ↔ b ∈ held ∧ OwnsAll held h := by
  rw [ownsAll_cons]
  simp [UsesOwn, hold, obtained, Op.uses, Op.gives]

theorem ownsAll_send {q : PcbRef} {x : Ans (.sendMessage q b)} :
    OwnsAll held (⟨.sendMessage q b, x⟩ :: h) ↔ b ∈ held ∧ OwnsAll (held.filter (· ≠ b)) h := by
  rw [ownsAll_cons]
  simp [UsesOwn, hold, obtained, Op.uses, Op.gives, eq_comm]

theorem ownsAll_release {x : Ans (.releaseMemoryBlock b)} :
    OwnsAll held (⟨.releaseMemoryBlock b, x⟩ :: h) ↔ b ∈ held ∧ OwnsAll (held.filter (· ≠ b)) h := by
  rw [ownsAll_cons]
  simp [UsesOwn, hold, obtained, Op.uses, Op.gives, eq_comm]

theorem ownsAll_request : OwnsAll held (⟨.requestMemoryBlock, b⟩ :: h) ↔ OwnsAll (b :: held) h := by
  rw [ownsAll_cons]
  simp [UsesOwn, hold, obtained, Op.uses, Op.gives]

theorem ownsAll_receive : OwnsAll held (⟨.receiveMessage, some env⟩ :: h) ↔ OwnsAll (env.addr :: held) h := by
  rw [ownsAll_cons]
  simp [UsesOwn, hold, obtained, Op.uses, Op.gives]

theorem ownsAll_idle (h : History Op Ans) (held : List Addr) :
    OwnsAll held (⟨.receiveMessage, none⟩ :: ⟨.releaseProcessor, ()⟩ :: h) ↔ OwnsAll held h := by
  rw [ownsAll_cons, ownsAll_cons]
  simp [UsesOwn, hold, obtained, Op.uses, Op.gives]

theorem mem_hold : b ∈ hold held e ↔ obtained e = some b ∨ b ∈ held ∧ e.1.gives ≠ some b := by
  unfold hold
  rw [List.mem_append, Option.mem_toList, List.mem_filter, decide_eq_true_eq]

theorem uses_of_gives (hb : e.1.gives = some b) : e.1.uses = some b := by
  obtain ⟨op, x⟩ := e
  cases op <;> first | exact hb | cases hb

theorem obtained_of_gives (hb : e.1.gives = some b) : obtained e = none := by
  obtain ⟨op, x⟩ := e
  cases op <;> first | rfl | cases hb

/-- A block that is not held is obtained before it is used. -/
theorem OwnsAll.obtained_before (hall : OwnsAll held (h ++ e :: h₂)) (hb : b ∉ held) (he : e.1.uses = some b) :
    ∃ x ∈ h, obtained x = some b := by
  induction h generalizing held with
  | nil => exact absurd ((ownsAll_cons.mp hall).1 b he) hb
  | cons y h ih =>
    by_cases hy : obtained y = some b
    · exact ⟨y, List.mem_cons_self, hy⟩
    · have hnot : b ∉ hold held y := fun hm => (mem_hold.mp hm).elim hy fun hm => hb hm.1
      obtain ⟨x, hx, hxb⟩ := ih (ownsAll_cons.mp hall).2 hnot
      exact ⟨x, List.mem_cons_of_mem y hx, hxb⟩

/-- A process that uses only what it holds gives no block away twice without obtaining it in between. -/
theorem OwnsAll.obtained_between {e' : Event Op Ans} (hall : OwnsAll held (e :: (h ++ e' :: h₂))) (he : e.1.gives = some b)
    (he' : e'.1.gives = some b) : ∃ x ∈ h, obtained x = some b := by
  refine (ownsAll_cons.mp hall).2.obtained_before (fun hm => ?_) (uses_of_gives he')
  rcases mem_hold.mp hm with ho | ⟨-, hne⟩
  · rw [obtained_of_gives he] at ho
    cases ho
  · exact hne he

/-! ### One message -/

/-- Nothing is obtained in `h`, and whatever comes behind it, the blocks used are owned exactly when `c` holds of what is
    held before and those used behind it are owned. -/
structure Uses (h : History Op Ans) (c : List Addr → Prop) (after : List Addr → List Addr) : Prop where
  requested : requested h = []
  received : received h = []
  owns : ∀ held h₂, OwnsAll held (h ++ h₂) ↔ c held ∧ OwnsAll (after held) h₂

theorem storeText_uses (b : Addr) (i : Nat) (cs : List Nat) :
    (storeText b i cs).Sat fun h _ => Uses h (fun held => cs ≠ [] → b ∈ held) id := by
  induction cs generalizing i with
  | nil => exact .ret ⟨rfl, rfl, fun held h₂ => by simp⟩
  | cons c cs ih =>
    refine .call fun _ => (ih (i + 1)).imp fun h _ hu => ⟨hu.requested, hu.received, fun held h₂ => ?_⟩
    rw [List.cons_append, ownsAll_store, hu.owns, ← and_assoc]
    refine and_congr_left fun _ => ?_
    simp only [ne_eq, reduceCtorEq, not_false_eq_true, forall_const]
    exact ⟨fun hb => hb.1, fun hb => ⟨hb, fun _ => hb⟩⟩

/-- The error message is written into the envelope and sent. -/
theorem errorMessage_uses (b : Addr) (inPrio inPid : Int) :
    (errorMessage b inPrio inPid).Sat fun h _ => Uses h (b ∈ ·) (List.filter (· ≠ b)) := by
  refine .bind (storeText_uses b 0 _) fun h₁ _ hu => .call fun _ => .call fun _ => .call fun _ => .ret ?_
  refine ⟨?_, ?_, fun held h₂ => ?_⟩
  · rw [requested_append, hu.requested]
    rfl
  · rw [received_append, hu.received]
    rfl
  · rw [List.append_assoc, hu.owns]
    simp only [List.cons_append, List.nil_append, ownsAll_store, ownsAll_send, id_eq]
    tauto

/-- A message is handled without the spare envelope, unless it is an invalid command. -/
theorem setPrioHandle_uses (k : Kernel) (spare : Addr) (env : Envelope) :
    (setPrioHandle k spare env).Sat fun h _ =>
      (env.Invalid k → Uses h (spare ∈ ·) (List.filter (· ≠ spare))) ∧ (¬env.Invalid k → Uses h (fun _ => True) id) := by
  have hidle : Uses [] (fun _ => True) id := ⟨rfl, rfl, fun held h₂ => by simp⟩
  unfold setPrioHandle
  split
  next hcmd =>
    split
    next hvalid =>
      refine .call fun _ => .ret ⟨fun hinv => absurd hvalid hinv.2, fun _ => ⟨rfl, rfl, fun held h₂ => ?_⟩⟩
      rw [List.cons_append, ownsAll_cons]
      simp [UsesOwn, hold, obtained, Op.uses, Op.gives]
    next hvalid =>
      exact (errorMessage_uses spare _ _).imp fun h _ hu => ⟨fun _ => hu, fun hinv => absurd ⟨hcmd, hvalid⟩ hinv⟩
  next hcmd => exact .ret ⟨fun hinv => absurd hinv.1 hcmd, fun _ => hidle⟩

/-! ### The whole history -/

/-- The spare envelope, which is still there if `kept` holds, is there for every invalid command, in an envelope of its
    own. -/
def SpareKept (k : Kernel) (spare : Addr) : Prop → List Envelope → Prop
  | _, [] => True
  | kept, env :: ms =>
    (env.Invalid k → kept ∧ env.addr ≠ spare) ∧ SpareKept k spare (kept ∧ ¬env.Invalid k ∧ env.addr ≠ spare) ms

theorem spareKept_iff (kept : Prop) : SpareKept k spare kept ms ↔ ∀ before env after, ms = before ++ env :: after →
    env.Invalid k → kept ∧ env.addr ≠ spare ∧ ∀ x ∈ before, ¬x.Invalid k ∧ x.addr ≠ spare := by
  induction ms generalizing kept with
  | nil => exact iff_of_true trivial fun before env after he => by simp at he
  | cons x ms ih =>
    unfold SpareKept
    rw [ih]
    constructor
    · rintro ⟨hx, hms⟩ before env after he hinv
      cases before with
      | nil =>
        cases he
        exact ⟨(hx hinv).1, (hx hinv).2, fun _ hm => nomatch hm⟩
      | cons y before =>
        cases he
        obtain ⟨⟨hkept, hy⟩, henv, hall⟩ := hms before env after rfl hinv
        exact ⟨hkept, henv, List.forall_mem_cons.mpr ⟨hy, hall⟩⟩
    · intro hall
      refine ⟨fun hinv => ?_, fun before env after he hinv => ?_⟩
      · obtain ⟨hkept, hx, -⟩ := hall [] x ms rfl hinv
        exact ⟨hkept, hx⟩
      · obtain ⟨hkept, henv, hbefore⟩ := hall (x :: before) env after (by rw [he, List.cons_append]) hinv
        obtain ⟨hx, hbefore⟩ := List.forall_mem_cons.mp hbefore
        exact ⟨⟨hkept, hx⟩, henv, hbefore⟩

/-- While it serves messages the process holds nothing but the spare envelope between two of them. -/
theorem serve_setPrioHandle (k : Kernel) (spare : Addr) (n : Nat) :
    (serve (setPrioHandle k spare) n).Sat fun h _ => requested h = [] ∧ ∀ held, (∀ b ∈ held, b = spare) →
      (OwnsAll held h ↔ SpareKept k spare (spare ∈ held) (received h)) := by
  refine serve_sat ⟨rfl, fun held _ => iff_of_true trivial trivial⟩ ?_ ?_ n
  · rintro h ⟨hreq, howns⟩
    exact ⟨hreq, fun held hheld => (ownsAll_idle h held).trans (howns held hheld)⟩
  · rintro env h₁ h₂ hd ⟨hreq, howns⟩
    obtain ⟨hinv, hvalid⟩ := setPrioHandle_uses k spare env h₁ () hd
    have hnone : requested h₁ = [] ∧ received h₁ = [] := by
      by_cases hi : env.Invalid k
      · exact ⟨(hinv hi).requested, (hinv hi).received⟩
      · exact ⟨(hvalid hi).requested, (hvalid hi).received⟩
    have hrequested : requested (⟨.receiveMessage, some env⟩ :: (h₁ ++ ⟨.releaseMemoryBlock env.addr, ()⟩ :: h₂)) =
        requested h₁ ++ requested h₂ := requested_append
    have hreceived : received (⟨.receiveMessage, some env⟩ :: (h₁ ++ ⟨.releaseMemoryBlock env.addr, ()⟩ :: h₂)) =
        env :: (received h₁ ++ received h₂) := congrArg (env :: ·) received_append
    refine ⟨by rw [hrequested, hnone.1, hreq]; rfl, fun held hheld => ?_⟩
    rw [hreceived, hnone.2, List.nil_append, ownsAll_receive]
    unfold SpareKept
    by_cases hi : env.Invalid k
    · rw [(hinv hi).owns, ownsAll_release]
      -- The spare envelope is sent, the message is released: nothing is left.
      have hnil : ((env.addr :: held).filter (· ≠ spare)).filter (· ≠ env.addr) = [] := by
        refine List.eq_nil_iff_forall_not_mem.mpr fun b hb => ?_
        simp only [List.mem_filter, List.mem_cons, ne_eq, decide_eq_true_eq] at hb
        exact hb.1.2 (hheld b (hb.1.1.resolve_left hb.2))
      have hlost : (spare ∈ held ∧ ¬env.Invalid k ∧ env.addr ≠ spare) ↔ spare ∈ ([] : List Addr) := by simp [hi]
      rw [hnil, howns [] (fun b hb => nomatch hb), hlost, ← and_assoc]
      refine and_congr_left fun _ => ?_
      simp only [List.mem_filter, List.mem_cons, true_or, true_and, ne_eq, decide_eq_true_eq, hi, forall_const]
      refine and_congr_left fun hne => ?_
      exact ⟨fun hs => hs.resolve_left fun he => hne he.symm, Or.inr⟩
    · rw [(hvalid hi).owns, ownsAll_release]
      have hkept : (spare ∈ held ∧ ¬env.Invalid k ∧ env.addr ≠ spare) ↔
          spare ∈ (env.addr :: held).filter (· ≠ env.addr) := by
        simp only [List.mem_filter, List.mem_cons, ne_eq, decide_eq_true_eq, hi, not_false_eq_true, true_and]
        constructor
        · exact fun ⟨hs, hne⟩ => ⟨Or.inr hs, fun he => hne he.symm⟩
        · exact fun ⟨hs, hne⟩ => ⟨hs.resolve_left hne, fun he => hne he.symm⟩
      rw [hkept, id_eq, howns _ fun b hb => ?_]
      · simp [hi]
      · simp only [List.mem_filter, List.mem_cons, ne_eq, decide_eq_true_eq] at hb
        exact hheld b (hb.1.resolve_left hb.2)

/-- The process uses only envelopes that it holds exactly when no invalid command comes in the spare envelope, or after
    another one, or after a message in the spare envelope. -/
theorem setPrioProcess_ownsAll_iff (hd : (setPrioProcess k n).Does h ()) :
    ∃ p spare, requested h = [p, spare] ∧ (OwnsAll [] h ↔ ∀ before env after, received h = before ++ env :: after →
      env.Invalid k → env.addr ≠ spare ∧ ∀ x ∈ before, ¬x.Invalid k ∧ x.addr ≠ spare) := by
  have hsat : (setPrioProcess k n).Sat fun h _ => ∃ p spare, requested h = [p, spare] ∧
      (OwnsAll [] h ↔ SpareKept k spare True (received h)) := by
    refine .call fun p => .call fun _ => .call fun _ => .call fun _ => .call fun _ => .call fun spare => .call fun _ => ?_
    refine (serve_setPrioHandle k spare n).imp ?_
    rintro h - ⟨hreq, howns⟩
    refine ⟨p, spare, congrArg (fun l => p :: spare :: l) hreq, ?_⟩
    have hnil : [p].filter (· ≠ p) = [] := by simp
    rw [ownsAll_request, ownsAll_store, ownsAll_store, ownsAll_store, ownsAll_send, ownsAll_request, ownsAll_store, hnil,
      howns [spare] fun b hb => List.mem_singleton.mp hb]
    simp only [List.mem_singleton, true_and]
    rfl
  obtain ⟨p, spare, hreq, howns⟩ := hsat h () hd
  refine ⟨p, spare, hreq, howns.trans ((spareKept_iff True).trans ?_)⟩
  simp

end

/-- Surroundings that have messages and blocks in store. -/
structure Supply where
  messages : List Envelope
  blocks : List Addr

def Supply.reply : (op : Op) → Supply → Ans op × Supply
  | .receiveMessage, s => (s.messages.head?, { s with messages := s.messages.tail })
  | .requestMemoryBlock, s => (s.blocks.headD firstBlock, { s with blocks := s.blocks.tail })
  | .sendMessage _ _, s => ((), s)
  | .releaseMemoryBlock _, s => ((), s)
  | .releaseProcessor, s => ((), s)
  | .setProcessPriority _ _, s => ((), s)
  | .store _ _ _, s => ((), s)
  | .write _ _, s => ((), s)

/-- The command `C 01 9`, which asks for a priority that does not exist. -/
def ninthPriority (addr : Addr) : Envelope := textMessage addr 0 [67, 32, 48, 49, 32, 57]

theorem ninthPriority_invalid (k : Kernel) (addr : Addr) : (ninthPriority addr).Invalid k := by
  refine ⟨⟨rfl, rfl⟩, fun hvalid => ?_⟩
  have hlt : (9 : Int) < 4 := hvalid.2.2.1
  omega

/-- What the process does with `ms` when it is given the first two blocks of the pool. -/
def servedHistory (k : Kernel) (ms : List Envelope) : History Op Ans :=
  (Prog.answered Supply.reply (setPrioProcess k ms.length) ⟨ms, [firstBlock, secondBlock]⟩).1

theorem servedHistory_does (k : Kernel) (ms : List Envelope) :
    (setPrioProcess k ms.length).Does (servedHistory k ms) () := Prog.does_answered _ _ _

/-- After the start the process answers one invalid command. -/
theorem setPrioProcess_ownsAll_once :
    ∃ k h, boot rtosMap = .switched k ∧ (setPrioProcess k 1).Does h () ∧
      received h = [ninthPriority (rtosMap.block 2)] ∧ OwnsAll [] h := by
  obtain ⟨k, hboot, -⟩ := boot_spec rtosMap
  have hd := servedHistory_does k [ninthPriority (rtosMap.block 2)]
  have hreceived : received (servedHistory k [ninthPriority (rtosMap.block 2)]) = [ninthPriority (rtosMap.block 2)] :=
    rfl
  obtain ⟨p, spare, hreq, howns⟩ := setPrioProcess_ownsAll_iff hd
  have hreq : [firstBlock, secondBlock] = [p, spare] := hreq
  obtain ⟨rfl, rfl⟩ : firstBlock = p ∧ secondBlock = spare := by simpa using hreq
  refine ⟨k, _, hboot, hd, hreceived, howns.mpr fun before env after he _ => ?_⟩
  rw [hreceived] at he
  obtain ⟨rfl, rfl, -⟩ : before = [] ∧ env = ninthPriority (rtosMap.block 2) ∧ after = [] := by
    cases before with
    | nil => simpa [eq_comm] using he
    | cons x before => simp at he
  exact ⟨fun he => absurd (congrArg Addr.val he) (by decide), fun _ hm => nomatch hm⟩

/-- After the start the process answers two invalid commands, both in its only spare envelope. -/
theorem setPrioProcess_ownsAll_twice :
    ∃ k h, boot rtosMap = .switched k ∧ (setPrioProcess k 2).Does h () ∧
      received h = [ninthPriority (rtosMap.block 2), ninthPriority (rtosMap.block 3)] ∧ ¬OwnsAll [] h := by
  obtain ⟨k, hboot, -⟩ := boot_spec rtosMap
  have hd := servedHistory_does k [ninthPriority (rtosMap.block 2), ninthPriority (rtosMap.block 3)]
  refine ⟨k, _, hboot, hd, rfl, fun howned => ?_⟩
  obtain ⟨p, spare, -, howns⟩ := setPrioProcess_ownsAll_iff hd
  obtain ⟨-, hbefore⟩ := howns.mp howned [ninthPriority (rtosMap.block 2)] (ninthPriority (rtosMap.block 3)) [] rfl
    (ninthPriority_invalid k _)
  exact (hbefore _ (List.mem_singleton_self _)).1 (ninthPriority_invalid k _)

end DoorRtos
