import DoorRtos.Delta
import DoorRtos.Theorems.Calls

/-! The list of delayed messages: `kernel_delayed_send` and the timer process insert into it as into a delta list. -/

namespace DoorRtos
open Linked

/-- Delayed messages with their deltas. -/
def entries (k : Kernel) (D : List Addr) : List (Addr × Nat) := D.map fun e => (e, (k.mess e).delay)

section
variable {k k' : Kernel} {D a b : List Addr} {e x : Addr} {d n : Nat} {ptr prevPtr : Option Addr}

theorem entries_append : entries k (a ++ b) = entries k a ++ entries k b := List.map_append

theorem entries_congr (h : ∀ x ∈ D, (k'.mess x).delay = (k.mess x).delay) : entries k' D = entries k D :=
  List.map_congr_left fun x hx => by rw [h x hx]

/-- The walk splits the list as the walk over the delta list does. -/
theorem seekDelay_eq {p : Option Addr} (h : IsList k.messNext ptr D) (hn : D.length < n) :
    ∃ a b, D = a ++ b ∧ (Delta.seek d (entries k D)).2.1 = entries k a ∧ (Delta.seek d (entries k D)).2.2 = entries k b ∧
      seekDelay k n d ptr p = some ((Delta.seek d (entries k D)).1, b.head?, a.getLast?.or p) := by
  induction n generalizing D ptr p d with
  | zero => cases hn
  | succ n ih =>
    unfold seekDelay
    cases D with
    | nil =>
      rw [isList_nil.mp h]
      exact ⟨[], [], rfl, rfl, rfl, rfl⟩
    | cons y D =>
      rw [h.1]
      by_cases hd : d > (k.mess y).delay
      · obtain ⟨a, b, hD, ha, hb, hs⟩ := ih (d := d - (k.mess y).delay) (p := some y) h.2 (Nat.lt_of_succ_lt_succ hn)
        have hseek : Delta.seek d (entries k (y :: D)) =
            ((Delta.seek (d - (k.mess y).delay) (entries k D)).1,
              (y, (k.mess y).delay) :: (Delta.seek (d - (k.mess y).delay) (entries k D)).2.1,
              (Delta.seek (d - (k.mess y).delay) (entries k D)).2.2) := if_pos hd
        refine ⟨y :: a, b, by rw [hD]; rfl, by rw [hseek, ha]; rfl, by rw [hseek, hb], ?_⟩
        simp only [if_pos hd]
        rw [hs, hseek, List.getLast?_cons]
        cases a.getLast? <;> rfl
      · have hseek : Delta.seek d (entries k (y :: D)) = (d, [], entries k (y :: D)) := if_neg hd
        refine ⟨[], y :: D, rfl, by rw [hseek]; rfl, by rw [hseek], ?_⟩
        simp only [if_neg hd]
        rw [hseek]
        rfl

theorem subWord_eq (h : d ≤ n) (hn : n < 2 ^ 32) : subWord n d = n - d := by
  unfold subWord
  omega

/-- The envelope goes between the two parts of the list that the walk has found. -/
theorem linkDelayed_isList (h : IsList k.messNext k.delayedSendQueue.head (a ++ b)) (he : e ∉ a ++ b) (d : Nat) :
    IsList (linkDelayed e d b.head? a.getLast? k).messNext (linkDelayed e d b.head? a.getLast? k).delayedSendQueue.head
      (a ++ e :: b) := by
  rcases List.eq_nil_or_concat a with rfl | ⟨a, y, rfl⟩
  · cases b with
    | nil =>
      show IsList (Queue.push k.messNext k.delayedSendQueue e).1 (Queue.push k.messNext k.delayedSendQueue e).2.head [e]
      rw [Queue.push_links, Queue.push_head]
      exact h.push he
    | cons x b =>
      show IsList (Function.update k.messNext e (some x)) (some e) (e :: x :: b)
      rw [← h.1]
      exact h.push he
  · rw [List.concat_eq_append, List.append_assoc] at h he ⊢
    rw [List.getLast?_concat]
    have hsplice := h.splice he
    cases b with
    | nil =>
      show IsList (Function.update (Function.update k.messNext e none) y (some e)) k.delayedSendQueue.head (a ++ [y, e])
      rwa [h.next_last] at hsplice
    | cons x b =>
      have hey : e ≠ y := fun hey => he (by simp [hey])
      show IsList (Function.update (Function.update k.messNext y (some e)) e (some x)) k.delayedSendQueue.head
        (a ++ y :: e :: x :: b)
      rw [Function.update_comm hey.symm]
      rwa [h.next_middle] at hsplice

/-- Linking touches the links of the new envelope and of the one before it only. -/
theorem linkDelayed_messNext (d : Nat) (hx : x ≠ e) (hprev : prevPtr ≠ some x) :
    (linkDelayed e d ptr prevPtr k).messNext x = k.messNext x := by
  cases ptr <;> cases prevPtr
  · exact Queue.push_of_ne hx
  · have hne : x ≠ _ := fun h => hprev (congrArg some h.symm)
    exact (Function.update_of_ne hne _ _).trans (Function.update_of_ne hx _ _)
  · exact Function.update_of_ne hx _ _
  · have hne : x ≠ _ := fun h => hprev (congrArg some h.symm)
    exact (Function.update_of_ne hx _ _).trans (Function.update_of_ne hne _ _)

theorem setMess_mess (m : Mess) (y : Addr) : (k.setMess y m).mess x = if x = y then m else k.mess x := by
  unfold Kernel.setMess
  exact Function.update_apply ..

/-- Linking changes the delays of the new envelope and of the one behind it only. -/
theorem linkDelayed_mess (d : Nat) (x : Addr) :
    (linkDelayed e d ptr prevPtr k).mess x = { k.mess x with
      delay := if x = e then d else if ptr = some x then subWord (k.mess x).delay d else (k.mess x).delay } := by
  have hone : ((k.setMess e { k.mess e with delay := d }).mess x) =
      { k.mess x with delay := if x = e then d else (k.mess x).delay } := by
    rw [setMess_mess]
    by_cases hx : x = e
    · subst hx
      simp
    · simp [hx]
  cases ptr with
  | none =>
    simp only [reduceCtorEq, if_false]
    cases prevPtr <;> exact hone
  | some p =>
    have htwo : (((k.setMess p { k.mess p with delay := subWord (k.mess p).delay d }).setMess e
        { (k.setMess p { k.mess p with delay := subWord (k.mess p).delay d }).mess e with delay := d }).mess x) =
        { k.mess x with
          delay := if x = e then d else if some p = some x then subWord (k.mess x).delay d else (k.mess x).delay } := by
      rw [setMess_mess, setMess_mess, setMess_mess]
      by_cases hx : x = e
      · subst hx
        by_cases hp : x = p
        · subst hp
          simp
        · simp [hp]
      · by_cases hp : x = p
        · subst hp
          simp [hx]
        · have hpx : ¬some p = some x := fun h => hp (Option.some.inj h).symm
          rw [if_neg hx, if_neg hp, if_neg hx, if_neg hpx]
    cases prevPtr <;> exact htwo

/-- Linking inserts into the delta list. -/
theorem linkDelayed_entries (hnd : (a ++ b).Nodup) (he : e ∉ a ++ b) (hlt : ∀ x ∈ b, (k.mess x).delay < 2 ^ 32)
    (hle : ∀ x ∈ b.head?, d ≤ (k.mess x).delay) :
    entries (linkDelayed e d b.head? a.getLast? k) (a ++ e :: b) =
      entries k a ++ (e, d) :: Delta.shorten d (entries k b) := by
  have hea : ∀ x ∈ a, x ≠ e := fun x hx h => he (List.mem_append_left b (h ▸ hx))
  have heb : ∀ x ∈ b, x ≠ e := fun x hx h => he (List.mem_append_right a (h ▸ hx))
  have hbefore : entries (linkDelayed e d b.head? a.getLast? k) a = entries k a := entries_congr fun x hx => by
    have hne : b.head? ≠ some x := fun h => (List.nodup_append.mp hnd).2.2 x hx x (List.mem_of_head? h) rfl
    rw [linkDelayed_mess]
    simp only [if_neg (hea x hx), if_neg hne]
  rw [entries_append, hbefore]
  congr 1
  have hself : ((linkDelayed e d b.head? a.getLast? k).mess e).delay = d := by
    rw [linkDelayed_mess]
    exact if_pos rfl
  show (e, _) :: entries _ b = _
  rw [hself]
  congr 1
  cases b with
  | nil => rfl
  | cons x b =>
    have hxb : x ∉ b := (List.nodup_cons.mp (List.nodup_append.mp hnd).2.1).1
    have hx : ((linkDelayed e d (x :: b).head? a.getLast? k).mess x).delay = (k.mess x).delay - d := by
      rw [linkDelayed_mess]
      simp only [if_neg (heb x List.mem_cons_self), List.head?_cons, if_true]
      exact subWord_eq (hle x rfl) (hlt x List.mem_cons_self)
    have hrest : entries (linkDelayed e d (x :: b).head? a.getLast? k) b = entries k b := entries_congr fun y hy => by
      have hyx : ¬(x :: b).head? = some y := fun h => hxb (Option.some.inj h ▸ hy)
      rw [linkDelayed_mess]
      simp only [if_neg (heb y (List.mem_cons_of_mem x hy)), if_neg hyx]
    show (x, _) :: entries _ b = (x, _) :: entries k b
    rw [hx, hrest]

/-- Linking where the walk has stopped inserts into the delta list. -/
theorem linkDelayed_insert (hlist : IsList k.messNext k.delayedSendQueue.head (a ++ b)) (he : e ∉ a ++ b)
    (hlt : ∀ x ∈ entries k (a ++ b), x.2 < 2 ^ 32) (hbefore : (Delta.seek d (entries k (a ++ b))).2.1 = entries k a)
    (hafter : (Delta.seek d (entries k (a ++ b))).2.2 = entries k b) :
    entries (linkDelayed e (Delta.seek d (entries k (a ++ b))).1 b.head? a.getLast? k) (a ++ e :: b) =
      Delta.insert e d (entries k (a ++ b)) := by
  rw [linkDelayed_entries hlist.nodup he (fun x hx => ?_) fun x hx => ?_]
  · unfold Delta.insert
    rw [hbefore, hafter]
  · exact hlt (x, _) (List.mem_map_of_mem (List.mem_append_right a hx))
  · have hx' : (x, (k.mess x).delay) ∈ (entries k b).head? := by
      unfold entries
      rw [List.head?_map, Option.mem_def.mp hx]
      rfl
    exact Delta.seek_le (hafter ▸ hx')

/-! ### `kernel_delayed_send` -/

/-- The kernel `k'` is `k` with the envelope `e` linked between the two parts of the list of delayed messages. -/
structure Inserted (k : Kernel) (pid : Nat) (e : Addr) (a b : List Addr) (k' : Kernel) : Prop where
  list : IsList k'.messNext k'.delayedSendQueue.head (a ++ e :: b)
  messNext : ∀ x, x ≠ e → x ∉ a → k'.messNext x = k.messNext x
  destPid : ∀ x, (k'.mess x).destPid = if x = e then pid else (k.mess x).destPid
  pcbs : k'.pcbs = k.pcbs
  mQueues : k'.mQueues = k.mQueues
  freeMemQ : k'.freeMemQ = k.freeMemQ
  blockNext : k'.blockNext = k.blockNext

theorem marked_mess (pid : Nat) (e x : Addr) : ((k.marked pid e).mess x).delay = (k.mess x).delay ∧
    ((k.marked pid e).mess x).destPid = if x = e then pid else (k.mess x).destPid := by
  unfold Kernel.marked
  rw [setMess_mess]
  by_cases hx : x = e
  · subst hx
    simp
  · simp [hx]

/-- With a positive delay the envelope is linked where a delta list would take it. -/
theorem kernelDelayedSend_inserted (pid : Nat) {delay : Int} (hpos : 0 < delay)
    (hlist : IsList k.messNext k.delayedSendQueue.head D) (he : e ∉ D) :
    ∃ a b k', D = a ++ b ∧ kernelDelayedSend pid e delay k = .returned (rtxSuccess, k') ∧ Inserted k pid e a b k' ∧
      (Delta.seek delay.toNat (entries k D)).2.1 = entries k a ∧ (Delta.seek delay.toNat (entries k D)).2.2 = entries k b ∧
      ((∀ x ∈ entries k D, x.2 < 2 ^ 32) → entries k' (a ++ e :: b) = Delta.insert e delay.toNat (entries k D)) := by
  have hentries : entries (k.marked pid e) D = entries k D := entries_congr fun x _ => (marked_mess pid e x).1
  have hlist' : IsList (k.marked pid e).messNext (k.marked pid e).delayedSendQueue.head D := hlist
  obtain ⟨a, b, rfl, hbefore, hafter, hseek⟩ :=
    seekDelay_eq (d := delay.toNat) (p := none) hlist' (Addr.length_lt hlist.nodup)
  rw [hentries] at hbefore hafter hseek
  rw [Option.or_none] at hseek
  have hentriesOf : ∀ l : List Addr, entries (k.marked pid e) l = entries k l := fun l =>
    entries_congr fun x _ => (marked_mess pid e x).1
  refine ⟨a, b, _, rfl, kernelDelayedSend_later hpos hseek, ⟨linkDelayed_isList hlist' he _, fun x hx ha => ?_, fun x => ?_,
    ?_, ?_, ?_, ?_⟩, hbefore.trans (hentriesOf a), hafter.trans (hentriesOf b), fun hlt => ?_⟩
  · exact linkDelayed_messNext _ hx fun h => ha (List.mem_of_getLast? h)
  · rw [linkDelayed_mess]
    exact (marked_mess pid e x).2
  · exact (linkDelayed_frame e _ _ _ (k.marked pid e)).1
  · exact (linkDelayed_store e _ _ _ (k.marked pid e)).1
  · exact (linkDelayed_store e _ _ _ (k.marked pid e)).2.1
  · exact (linkDelayed_store e _ _ _ (k.marked pid e)).2.2
  · rw [← hentries] at hlt ⊢
    exact linkDelayed_insert hlist' he hlt (hentries ▸ hbefore) (hentries ▸ hafter)

end
end DoorRtos
