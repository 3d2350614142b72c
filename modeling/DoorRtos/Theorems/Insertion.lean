import DoorRtos.Theorems.Boot
import DoorRtos.Theorems.Delayed
import DoorRtos.Interrupts

/-! The two copies of the insertion into the list of delayed messages, that of `kernel_delayed_send` and that of the
    timer process, do the same. -/

namespace DoorRtos
open Linked

/-- The operands of the unsigned subtractions that an insertion makes from `ptr` on: those of the walk, and the one
    that shortens the delta of the message in front of which it stops. -/
def subtractions (k : Kernel) : Nat → Nat → Option Addr → List (Nat × Nat)
  | 0, _, _ => []
  | n + 1, delay, ptr =>
    match ptr with
    | none => []
    | some p =>
      if delay > (k.mess p).delay then
        (delay, (k.mess p).delay) :: subtractions k n (delay - (k.mess p).delay) (k.messNext p)
      else [((k.mess p).delay, delay)]

/-- The list of `k'` is that of `k` with `e` in it at the accumulated delay `d`; the accumulated delays and the order
    of the others are the same. -/
def InsertsAt (k : Kernel) (D : List Addr) (e : Addr) (d : Nat) (k' : Kernel) (D' : List Addr) : Prop :=
  IsList k'.messNext k'.delayedSendQueue.head D' ∧ ∃ before after,
    Delta.times 0 (entries k D) = before ++ after ∧ Delta.times 0 (entries k' D') = before ++ (e, d) :: after

section
variable {k k' : Kernel} {D D' : List Addr} {e : Addr} {d n : Nat} {ptr : Option Addr}

/-- The subtractions are those that the code makes. Each of the walk takes the delta of a message that is passed from what
    the one before has left, and the last one shortens the delta of the message in front of which the walk stops. -/
theorem subtractions_made (hlist : IsList k.messNext ptr D) (hn : D.length < n) (delay : Nat) (prevPtr : Option Addr) :
    ∃ passed rest walk d, D = passed ++ rest ∧
      seekDelay k n delay ptr prevPtr = some (d, rest.head?, passed.getLast?.or prevPtr) ∧
      subtractions k n delay ptr = walk ++ (rest.head?.map fun x => ((k.mess x).delay, d)).toList ∧
      walk.map Prod.snd = passed.map (fun x => (k.mess x).delay) ∧
      walk.map Prod.fst ++ [d] = delay :: walk.map (fun x => x.1 - x.2) := by
  induction n generalizing D ptr prevPtr delay with
  | zero => cases hn
  | succ n ih =>
    unfold seekDelay subtractions
    cases D with
    | nil =>
      rw [isList_nil.mp hlist]
      exact ⟨[], [], [], delay, rfl, rfl, rfl, rfl, rfl⟩
    | cons y D =>
      rw [hlist.1]
      by_cases hd : delay > (k.mess y).delay
      · obtain ⟨passed, rest, walk, d, rfl, hseek, hsub, hdeltas, hchain⟩ :=
          ih hlist.2 (Nat.lt_of_succ_lt_succ hn) (delay - (k.mess y).delay) (some y)
        simp only [if_pos hd]
        refine ⟨y :: passed, rest, (delay, (k.mess y).delay) :: walk, d, rfl, ?_, ?_, ?_, ?_⟩
        · rw [hseek, List.getLast?_cons]
          cases passed.getLast? <;> rfl
        · rw [hsub, List.cons_append]
        · rw [List.map_cons, List.map_cons, hdeltas]
        · rw [List.map_cons, List.map_cons, List.cons_append, hchain]
      · simp only [if_neg hd]
        exact ⟨[], y :: D, [], delay, rfl, rfl, rfl, rfl, rfl⟩

/-- The subtraction with which an insertion ends. -/
theorem linkDelayed_shortens {x : Addr} (hx : x ≠ e) (prevPtr : Option Addr) :
    ((linkDelayed e d (some x) prevPtr k).mess x).delay = subWord (k.mess x).delay d := by
  rw [linkDelayed_mess]
  exact (if_neg hx).trans (if_pos rfl)

/-- No subtraction wraps round. -/
theorem subtractions_le (k : Kernel) (n d : Nat) (ptr : Option Addr) : ∀ x ∈ subtractions k n d ptr, x.2 ≤ x.1 := by
  induction n generalizing d ptr with
  | zero => exact fun x hx => absurd hx List.not_mem_nil
  | succ n ih =>
    unfold subtractions
    cases ptr with
    | none => exact fun x hx => absurd hx List.not_mem_nil
    | some p =>
      intro x hx
      by_cases hd : d > (k.mess p).delay
      · simp only [if_pos hd] at hx
        rcases List.mem_cons.mp hx with rfl | hx
        · exact Nat.le_of_lt hd
        · exact ih _ _ x hx
      · simp only [if_neg hd] at hx
        rw [List.mem_singleton.mp hx]
        exact Nat.le_of_not_lt hd

/-- An insertion into the delta list is one at the accumulated delay `d`. -/
theorem InsertsAt.of_insert (hlist : IsList k'.messNext k'.delayedSendQueue.head D')
    (h : entries k' D' = Delta.insert e d (entries k D)) : InsertsAt k D e d k' D' := by
  refine ⟨hlist, Delta.times 0 (Delta.seek d (entries k D)).2.1,
    Delta.times (0 + Delta.total (Delta.seek d (entries k D)).2.1) (Delta.seek d (entries k D)).2.2, ?_, ?_⟩
  · rw [← Delta.times_append, Delta.seek_append]
  · rw [h, Delta.times_insert, Nat.zero_add]

/-- The insertion of the timer process. -/
theorem timerInsert_spec (hlist : IsList k.messNext k.delayedSendQueue.head D) (he : e ∉ D)
    (hlt : ∀ x ∈ entries k D, x.2 < 2 ^ 32) :
    ∃ a b k', D = a ++ b ∧ timerInsert e k = .returned k' ∧ IsList k'.messNext k'.delayedSendQueue.head (a ++ e :: b) ∧
      (Delta.seek (k.mess e).delay (entries k D)).2.1 = entries k a ∧
      entries k' (a ++ e :: b) = Delta.insert e (k.mess e).delay (entries k D) := by
  obtain ⟨a, b, rfl, hbefore, hafter, hseek⟩ :=
    seekDelay_eq (d := (k.mess e).delay) (p := none) hlist (Addr.length_lt hlist.nodup)
  rw [Option.or_none] at hseek
  have hentries : ∀ l, entries (k.setMess e { k.mess e with destPid := (k.mess e).senderPid }) l = entries k l := fun l =>
    entries_congr fun x _ => by
      rw [setMess_mess]
      split
      next hx => rw [hx]
      next => rfl
  refine ⟨a, b, linkDelayed e (Delta.seek (k.mess e).delay (entries k (a ++ b))).1 b.head? a.getLast?
    (k.setMess e { k.mess e with destPid := (k.mess e).senderPid }), rfl, ?_, ?_, hbefore, ?_⟩
  · unfold timerInsert
    rw [hseek]
    rfl
  · exact linkDelayed_isList (k := k.setMess e _) hlist he _
  · rw [← hentries (a ++ b)] at hlt hbefore hafter ⊢
    rw [← hentries a] at hbefore
    rw [← hentries b] at hafter
    exact linkDelayed_insert hlist he hlt hbefore hafter

/-- Whatever the list, both insertions put a new envelope in at its accumulated delay `d`, no subtraction wraps round,
    and for the same delay they produce the same list. -/
theorem insertions_agree (pid : Nat) (hlist : IsList k.messNext k.delayedSendQueue.head D) (he : e ∉ D)
    (hlt : ∀ x ∈ D, (k.mess x).delay < 2 ^ 32) :
    (∀ delay : Int, 0 < delay → delay < 2 ^ 31 →
      ∃ k₁ D', kernelDelayedSend pid e delay k = .returned (rtxSuccess, k₁) ∧ InsertsAt k D e delay.toNat k₁ D' ∧
        (∀ x ∈ subtractions k addressSpace delay.toNat k.delayedSendQueue.head, x.2 ≤ x.1) ∧
        ∀ kt : Kernel, IsList kt.messNext kt.delayedSendQueue.head D → entries kt D = entries k D →
          (kt.mess e).delay = delay.toNat →
          ∃ k₂, timerInsert e kt = .returned k₂ ∧ IsList k₂.messNext k₂.delayedSendQueue.head D' ∧
            entries k₂ D' = entries k₁ D') ∧
    (0 < (k.mess e).delay → (k.mess e).delay < 2 ^ 32 →
      ∃ k₂ D', timerInsert e k = .returned k₂ ∧ InsertsAt k D e (k.mess e).delay k₂ D' ∧
        ∀ x ∈ subtractions k addressSpace (k.mess e).delay k.delayedSendQueue.head, x.2 ≤ x.1) := by
  have hlt' : ∀ x ∈ entries k D, x.2 < 2 ^ 32 := fun x hx => by
    obtain ⟨y, hy, rfl⟩ := List.mem_map.mp hx
    exact hlt y hy
  constructor
  · intro delay hpos _
    obtain ⟨a, b, k₁, rfl, hsend, hins, hbefore, -, hinsert⟩ := kernelDelayedSend_inserted pid hpos hlist he
    refine ⟨k₁, a ++ e :: b, hsend, .of_insert hins.list (hinsert hlt'), subtractions_le k _ _ _, fun kt hkt hsame hd => ?_⟩
    obtain ⟨a', b', k₂, hab, htimer, hlist₂, hbefore₂, hinsert₂⟩ := timerInsert_spec hkt he (hsame ▸ hlt')
    rw [hsame, hd] at hbefore₂ hinsert₂
    -- Both walks stop at the same place.
    have hlen : a.length = a'.length := by
      have := congrArg List.length (hbefore.symm.trans hbefore₂)
      rwa [entries, entries, List.length_map, List.length_map] at this
    obtain ⟨rfl, rfl⟩ := List.append_inj hab hlen
    exact ⟨k₂, htimer, hlist₂, hinsert₂.trans (hinsert hlt').symm⟩
  · intro _ _
    obtain ⟨a, b, k₂, rfl, htimer, hlist₂, -, hinsert₂⟩ := timerInsert_spec hlist he hlt'
    exact ⟨k₂, a ++ e :: b, htimer, .of_insert hlist₂ hinsert₂, subtractions_le k _ _ _⟩

end

/-- One message waits with delay 5, and another one is put in front of it with delay 2. -/
theorem insertions_agree_in_front :
    ∃ k k₁ D', ((boot rtosMap).kernel?.bind fun k => (kernelDelayedSend crtPid.val firstBlock 5 k).last) = some k ∧
      kernelDelayedSend kcdPid.val secondBlock 2 k = .returned (rtxSuccess, k₁) ∧
      InsertsAt k [firstBlock] secondBlock 2 k₁ D' := by
  have hrun : ((boot rtosMap).kernel?.bind fun k => (kernelDelayedSend crtPid.val firstBlock 5 k).last).any (fun k =>
      decide (IsList k.messNext k.delayedSendQueue.head [firstBlock] ∧ ∀ x ∈ [firstBlock], (k.mess x).delay < 2 ^ 32)) =
        true := by decide +kernel
  obtain ⟨k, hk, hall⟩ := Option.any_eq_true _ _ |>.mp hrun
  obtain ⟨hlist, hlt⟩ := of_decide_eq_true hall
  obtain ⟨k₁, D', hsend, hins, -⟩ := (insertions_agree kcdPid.val hlist (e := secondBlock) (by decide) hlt).1 2
    (by decide) (by decide)
  exact ⟨k, k₁, D', hk, hsend, hins⟩

end DoorRtos
