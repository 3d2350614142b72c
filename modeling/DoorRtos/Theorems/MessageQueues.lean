import DoorRtos.Queues
import DoorRtos.Refinement
import Mathlib.Algebra.GroupWithZero.Nat

/-! Message queues that share one pool of envelopes are independent double-ended lists. `dequeueMessageLIFO`
    never touches the tail pointer, so the tail of a queue it has emptied still points to the envelope it gave
    away; the next insertion sets it again. -/

namespace DoorRtos
namespace MessageQueues
open Linked

variable {κ : Type}

/-- The `next` fields of the envelopes and the queues over them. -/
structure Pool (κ : Type) where
  next : Links Addr
  queues : κ → MessagesQueue

/-- The queues just after `init_msg_queue`. -/
def Pool.Initialised (s : Pool κ) : Prop := ∀ q, s.queues q = initMsgQueue

inductive Op (κ : Type) where
  | enqueue (q : κ) (e : Addr)
  | fifo (q : κ)
  | lifo (q : κ)

/-- Each queue as a list of its envelopes, the oldest first. -/
abbrev Contents (κ : Type) := κ → List Addr

section
variable [DecidableEq κ]

/-- The operations of `msg_queue.c`; the answer is the envelope that a removal returns. -/
def step (s : Pool κ) : Op κ → Option (Option Addr × Pool κ)
  | .enqueue q e =>
    let (next, c) := enqueueMessage s.next (s.queues q) e
    some (none, ⟨next, Function.update s.queues q c⟩)
  | .fifo q => (dequeueMessageFIFO s.next (s.queues q)).map fun r => (r.1, ⟨r.2.1, Function.update s.queues q r.2.2⟩)
  | .lifo q =>
    let r := dequeueMessageLIFO s.next (s.queues q)
    some (r.1, ⟨s.next, Function.update s.queues q r.2⟩)

def spec (D : Contents κ) : Op κ → Option Addr × Contents κ
  | .enqueue q e => (none, Function.update D q (D q ++ [e]))
  | .fifo q => ((D q).head?, Function.update D q (D q).tail)
  | .lifo q => ((D q).getLast?, Function.update D q (D q).dropLast)

/-- An envelope is added only while no queue holds it. -/
def Allowed (D : Contents κ) : Op κ → Prop
  | .enqueue _ e => ∀ q, e ∉ D q
  | _ => True

/-- Every queue holds its list, from the newest envelope to the oldest, and no envelope is in two queues. -/
def Represents (s : Pool κ) (D : Contents κ) : Prop := HoldsAll s.next s.queues fun q => (D q).reverse

/-! ### The refinement -/

section
variable {s : Pool κ} {D : Contents κ} {q : κ}

theorem reverse_update (D : Contents κ) (q : κ) (l : List Addr) :
    (fun j => (Function.update D q l j).reverse) = Function.update (fun j => (D j).reverse) q l.reverse := by
  funext j
  by_cases hj : j = q
  · subst hj
    simp
  · simp [hj]

omit [DecidableEq κ] in
theorem length_lt (h : Represents s D) (q : κ) : (D q).length < addressSpace := by
  have := Addr.length_lt (h.holds q).nodup
  rwa [List.length_reverse] at this

theorem fifo_refines (h : Represents s D) :
    ∃ s', step s (.fifo q) = some ((spec D (.fifo q)).1, s') ∧ Represents s' (spec D (.fifo q)).2 := by
  simp only [step, spec, Represents, reverse_update]
  cases hD : D q with
  | nil =>
    have hq := h.holds q
    simp only [hD, List.reverse_nil] at hq
    refine ⟨⟨s.next, Function.update s.queues q (s.queues q)⟩, by rw [dequeueMessageFIFO, hq.shift_nil]; rfl, ?_⟩
    exact h.set (k := q) hq (fun _ _ _ _ => rfl) fun _ _ _ _ => List.not_mem_nil
  | cons e l =>
    have hlen : l.reverse.length ≤ addressSpace := by
      have := length_lt h q
      rw [hD, List.length_cons] at this
      rw [List.length_reverse]
      omega
    obtain ⟨next, c, hs, hall, -⟩ := h.shift (k := q) (l := l.reverse) (x := e) (by simp [hD]) hlen
    exact ⟨⟨next, Function.update s.queues q c⟩, by rw [dequeueMessageFIFO, hs]; rfl, hall⟩

theorem lifo_refines (h : Represents s D) :
    ∃ s', step s (.lifo q) = some ((spec D (.lifo q)).1, s') ∧ Represents s' (spec D (.lifo q)).2 := by
  simp only [step, spec, Represents, reverse_update]
  rcases List.eq_nil_or_concat (D q) with hD | ⟨l, e, hD⟩
  · have hq := h.holds q
    simp only [hD, List.reverse_nil] at hq
    rw [dequeueMessageLIFO, hq.pop_nil, hD]
    exact ⟨_, rfl, h.set (k := q) hq (fun _ _ _ _ => rfl) fun _ _ _ _ => List.not_mem_nil⟩
  · rw [List.concat_eq_append] at hD
    obtain ⟨hp, hall⟩ := h.pop (k := q) (e := e) (l := l.reverse) (by simp [hD])
    rw [dequeueMessageLIFO, hp, hD, List.getLast?_concat, List.dropLast_concat]
    exact ⟨_, rfl, hall⟩

theorem step_refines (s : Pool κ) (D : Contents κ) (o : Op κ) (h : Represents s D) (ha : Allowed D o) :
    ∃ s', step s o = some ((spec D o).1, s') ∧ Represents s' (spec D o).2 := by
  cases o with
  | enqueue q e =>
    refine ⟨_, rfl, ?_⟩
    have hpush := h.push (k := q) (e := e) fun j hj => ha j (List.mem_reverse.mp hj)
    simp only [spec, Represents, reverse_update, List.reverse_append]
    exact hpush
  | fifo q => exact fifo_refines h
  | lifo q => exact lifo_refines h

end

/-! ### Conservation -/

/-- How often an operation adds `e`. -/
def added (e : Addr) : Op κ → Nat
  | .enqueue _ e' => if e' = e then 1 else 0
  | _ => 0

/-- How often a queue holds `e`: an envelope is in one place or nowhere. -/
noncomputable def held (D : Contents κ) (e : Addr) : Nat := open Classical in if ∃ q, e ∈ D q then 1 else 0

/-- The lists of a pool: no envelope occurs twice. -/
structure Distinct (D : Contents κ) : Prop where
  nodup : ∀ q, (D q).Nodup
  apart : Apart D

section
variable {D : Contents κ} {q : κ} {e x : Addr} {l : List Addr}

omit [DecidableEq κ] in
theorem held_of_mem (h : x ∈ D q) : held D x = 1 := if_pos ⟨q, h⟩

omit [DecidableEq κ] in
theorem held_of_not_mem (h : ∀ q, x ∉ D q) : held D x = 0 := if_neg fun ⟨q, hq⟩ => h q hq

omit [DecidableEq κ] in
theorem held_congr {D' : Contents κ} (h : ∀ q, x ∈ D' q ↔ x ∈ D q) : held D' x = held D x := by
  by_cases hx : ∃ q, x ∈ D q
  · obtain ⟨q, hq⟩ := hx
    rw [held_of_mem hq, held_of_mem ((h q).mpr hq)]
  · rw [held_of_not_mem fun q hq => hx ⟨q, hq⟩, held_of_not_mem fun q hq => hx ⟨q, (h q).mp hq⟩]

/-- Replacing the list of one queue changes what is held of an envelope only by its place in that list. -/
theorem held_update (hd : Distinct D) (hx : x ∈ l → x ∈ D q ∨ ∀ j, x ∉ D j) :
    held (Function.update D q l) x + (if x ∈ D q then 1 else 0) = held D x + if x ∈ l then 1 else 0 := by
  have hself : Function.update D q l q = l := Function.update_self ..
  by_cases hxl : x ∈ l
  · have h₁ : held (Function.update D q l) x = 1 := held_of_mem (q := q) (by rw [hself]; exact hxl)
    rcases hx hxl with hq | hno
    · rw [h₁, held_of_mem hq, if_pos hq, if_pos hxl]
    · rw [h₁, held_of_not_mem hno, if_neg (hno q), if_pos hxl]
  · rw [if_neg hxl, Nat.add_zero]
    by_cases hxq : x ∈ D q
    · have h₁ : held (Function.update D q l) x = 0 := held_of_not_mem fun j hj => by
        by_cases hjq : j = q
        · subst hjq
          rw [hself] at hj
          exact hxl hj
        · rw [Function.update_of_ne hjq] at hj
          exact hjq (hd.apart j q x hj hxq)
      rw [h₁, held_of_mem hxq, if_pos hxq]
    · rw [if_neg hxq, Nat.add_zero]
      refine held_congr fun j => ?_
      by_cases hjq : j = q
      · subst hjq
        rw [hself]
        exact iff_of_false hxl hxq
      · rw [Function.update_of_ne hjq]

theorem Distinct.update (hd : Distinct D) (hl : l.Nodup) (hmem : ∀ x ∈ l, x ∈ D q ∨ ∀ j, x ∉ D j) :
    Distinct (Function.update D q l) where
  nodup j := by
    by_cases hj : j = q
    · subst hj
      rwa [Function.update_self]
    · rw [Function.update_of_ne hj]
      exact hd.nodup j
  apart i j x hi hj := by
    have key : ∀ {i j}, i = q → j ≠ q → x ∈ Function.update D q l i → x ∈ Function.update D q l j → False := by
      intro i j hiq hjq hi hj
      subst hiq
      rw [Function.update_self] at hi
      rw [Function.update_of_ne hjq] at hj
      rcases hmem x hi with h | h
      · exact hjq (hd.apart j _ x hj h)
      · exact h j hj
    by_cases hiq : i = q <;> by_cases hjq : j = q
    · exact hiq.trans hjq.symm
    · exact (key hiq hjq hi hj).elim
    · exact (key hjq hiq hj hi).elim
    · rw [Function.update_of_ne hiq] at hi
      rw [Function.update_of_ne hjq] at hj
      exact hd.apart i j x hi hj

theorem spec_distinct (D : Contents κ) (o : Op κ) (hd : Distinct D) (ha : Allowed D o) : Distinct (spec D o).2 := by
  cases o with
  | enqueue q e =>
    refine hd.update ?_ fun x hx => ?_
    · exact List.nodup_append.mpr ⟨hd.nodup q, List.nodup_singleton e, fun a h b hb hab =>
        ha q (List.mem_singleton.mp hb ▸ hab ▸ h)⟩
    · rcases List.mem_append.mp hx with hx | hx
      · exact Or.inl hx
      · exact Or.inr fun j => List.mem_singleton.mp hx ▸ ha j
  | fifo q => exact hd.update ((hd.nodup q).sublist (List.tail_sublist _)) fun x hx => Or.inl (List.mem_of_mem_tail hx)
  | lifo q =>
    exact hd.update ((hd.nodup q).sublist (List.dropLast_sublist _)) fun x hx =>
      Or.inl ((List.dropLast_sublist _).subset hx)

/-- Removal at the front takes the first element out and no other. -/
theorem count_removed_head (hl : l.Nodup) (x : Addr) :
    (if x ∈ l then 1 else 0) = (if l.head? = some x then 1 else 0) + if x ∈ l.tail then 1 else 0 := by
  cases l with
  | nil => simp
  | cons e l =>
    have hel : e ∉ l := (List.nodup_cons.mp hl).1
    by_cases hxe : e = x
    · subst hxe
      simp [hel]
    · have hex : x ≠ e := fun h => hxe h.symm
      by_cases hxl : x ∈ l <;> simp [hxe, hex, hxl]

/-- Removal at the back takes the last element out and no other. -/
theorem count_removed_last (hl : l.Nodup) (x : Addr) :
    (if x ∈ l then 1 else 0) = (if l.getLast? = some x then 1 else 0) + if x ∈ l.dropLast then 1 else 0 := by
  have h := count_removed_head (List.nodup_reverse.mpr hl) x
  rw [List.head?_reverse, List.tail_reverse] at h
  simpa only [List.mem_reverse] using h

/-- An operation moves an envelope into a queue or out of one; it loses none and makes none. -/
theorem spec_conserves (D : Contents κ) (o : Op κ) (hd : Distinct D) (ha : Allowed D o) (x : Addr) :
    added x o + held D x = (if (spec D o).1 = some x then 1 else 0) + held (spec D o).2 x := by
  cases o with
  | enqueue q e =>
    have h := held_update (q := q) (l := D q ++ [e]) (x := x) hd fun hx => by
      rcases List.mem_append.mp hx with hx | hx
      · exact Or.inl hx
      · exact Or.inr fun j => List.mem_singleton.mp hx ▸ ha j
    simp only [added, spec]
    by_cases hxe : e = x
    · subst hxe
      have hq : e ∉ D q := ha q
      simp [hq, held_of_not_mem ha] at h ⊢
      omega
    · have hex : x ≠ e := fun h => hxe h.symm
      by_cases hq : x ∈ D q <;> simp [hq, hxe, hex] at h ⊢ <;> omega
  | fifo q =>
    have h := held_update (q := q) (l := (D q).tail) (x := x) hd fun hx => Or.inl (List.mem_of_mem_tail hx)
    have hc := count_removed_head (hd.nodup q) x
    change 0 + held D x = (if (D q).head? = some x then 1 else 0) + held (Function.update D q (D q).tail) x
    omega
  | lifo q =>
    have h := held_update (q := q) (l := (D q).dropLast) (x := x) hd fun hx => Or.inl ((List.dropLast_sublist _).subset hx)
    have hc := count_removed_last (hd.nodup q) x
    change 0 + held D x = (if (D q).getLast? = some x then 1 else 0) + held (Function.update D q (D q).dropLast) x
    omega

/-- How often a sequence of operations adds `e`. -/
def addedTimes (e : Addr) (os : List (Op κ)) : Nat := (os.map (added e)).sum

/-- How often `e` is among the answers. -/
def returnedTimes (e : Addr) (answers : List (Option Addr)) : Nat := answers.count (some e)

theorem run_conserves (x : Addr) {os : List (Op κ)} {D : Contents κ} (hd : Distinct D)
    (hall : Refinement.AllAllowed spec Allowed D os) :
    addedTimes x os + held D x =
      returnedTimes x (Refinement.spec spec D os).1 + held (Refinement.spec spec D os).2 x := by
  induction os generalizing D with
  | nil => simp [addedTimes, returnedTimes, Refinement.spec]
  | cons o os ih =>
    have hstep := spec_conserves D o hd hall.1 x
    have hrest := ih (spec_distinct D o hd hall.1) hall.2
    simp only [addedTimes, returnedTimes, Refinement.spec, List.map_cons, List.sum_cons, List.count_cons,
      beq_iff_eq] at hrest ⊢
    omega

/-- From initialised queues, every sequence of operations runs to its end and answers as independent
    double-ended lists do, the queues end up holding what those hold, and every envelope added is in exactly
    one queue once more than it has been given back. -/
theorem runs_as_deques (s : Pool κ) (hinit : s.Initialised) (os : List (Op κ))
    (hall : Refinement.AllAllowed spec Allowed (fun _ => []) os) :
    (∃ s', Refinement.run step s os = some ((Refinement.spec spec (fun _ => []) os).1, s') ∧
      Represents s' (Refinement.spec spec (fun _ => []) os).2) ∧
    Distinct (Refinement.spec spec (fun _ => []) os).2 ∧
    ∀ x, addedTimes x os = returnedTimes x (Refinement.spec spec (fun _ => []) os).1 +
      held (Refinement.spec spec (fun _ => []) os).2 x := by
  have hrep : Represents s fun _ => [] := HoldsAll.empty s.next fun q => by rw [hinit q]; rfl
  have hd : Distinct (fun _ : κ => ([] : List Addr)) :=
    ⟨fun _ => List.nodup_nil, fun _ _ _ hx => absurd hx List.not_mem_nil⟩
  refine ⟨Refinement.run_refines (fun s D o h ha => step_refines s D o h ha) hrep hall,
    Refinement.spec_invariant (fun D o h ha => spec_distinct D o h ha) hd hall, fun x => ?_⟩
  have h := run_conserves x hd hall
  rwa [held_of_not_mem fun _ => List.not_mem_nil, Nat.add_zero] at h

/-- A queue emptied at the back keeps a tail that dangles, and serves the next envelope all the same. -/
theorem runs_as_deques_dangling_tail :
    ∃ s', Refinement.run step (⟨fun _ => none, fun _ => initMsgQueue⟩ : Pool Bool)
        [.enqueue true ⟨1, by decide, by decide⟩, .lifo true, .enqueue true ⟨2, by decide, by decide⟩,
          .enqueue false ⟨1, by decide, by decide⟩, .fifo true, .fifo true] =
      some ([none, some ⟨1, by decide, by decide⟩, none, none, some ⟨2, by decide, by decide⟩, none], s') := by
  obtain ⟨⟨s', hrun, -⟩, -⟩ := runs_as_deques (⟨fun _ => none, fun _ => initMsgQueue⟩ : Pool Bool) (fun _ => rfl)
    [.enqueue true ⟨1, by decide, by decide⟩, .lifo true, .enqueue true ⟨2, by decide, by decide⟩,
      .enqueue false ⟨1, by decide, by decide⟩, .fifo true, .fifo true]
    ⟨by unfold Allowed; decide, trivial, by unfold Allowed; decide, by unfold Allowed; decide, trivial, trivial, trivial⟩
  exact ⟨s', hrun⟩

end
end
end MessageQueues
end DoorRtos
