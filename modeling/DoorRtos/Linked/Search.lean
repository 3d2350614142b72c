import DoorRtos.Linked.Queue

/-! Taking a node out of the middle of a list: the walk from the head stops before it and links past it. -/

namespace Linked
variable {ι : Type} [DecidableEq ι]

/-- The walk to the node before `e`, which it links to the node after `e`; it finds nothing when it meets `none` first.
    It gives no result when it takes more steps than `n`. -/
def unlink (next : Links ι) (e : ι) : Nat → ι → Option (Option ι × Links ι)
  | 0, _ => none
  | n + 1, temp =>
    match next temp with
    | none => some (none, next)
    | some dequeued =>
      if dequeued = e then some (some dequeued, Function.update next temp (next dequeued)) else unlink next e n dequeued

variable {next : Links ι} {q : Queue ι} {a b l : List ι} {x y p : ι} {n : Nat}

theorem unlink_of_eq_none (h : next p = none) : unlink next x (n + 1) p = some (none, next) := by
  rw [unlink, h]

theorem unlink_of_eq (h : next p = some x) :
    unlink next x (n + 1) p = some (some x, Function.update next p (next x)) := by
  rw [unlink, h]
  exact if_pos rfl

theorem unlink_of_ne (h : next p = some y) (hy : y ≠ x) : unlink next x (n + 1) p = unlink next x n y := by
  rw [unlink, h]
  exact if_neg hy

/-- The walk finds a node with a node before it. -/
theorem unlink_eq (h : IsList next (some p) (a ++ y :: x :: b)) (hn : a.length < n) :
    unlink next x n p = some (some x, Function.update next y (next x)) := by
  induction n generalizing a p with
  | zero => cases hn
  | succ n ih =>
    cases a with
    | nil =>
      obtain ⟨hp, hx, -⟩ := h
      cases hp
      exact unlink_of_eq hx
    | cons z a =>
      obtain ⟨hp, hz⟩ := h
      cases hp
      -- The node after `z` is `y` or comes before it, and `x` comes after `y` only.
      obtain ⟨w, hw, hwx⟩ : ∃ w, next p = some w ∧ w ≠ x := by
        have hnd := hz.nodup
        cases a with
        | nil => exact ⟨y, hz.1, fun e => (List.nodup_cons.mp hnd).1 (e ▸ List.mem_cons_self)⟩
        | cons w a => exact ⟨w, hz.1, fun e => (List.nodup_cons.mp hnd).1 (by simp [e])⟩
      rw [unlink_of_ne hw hwx]
      exact ih (hw ▸ hz) (Nat.lt_of_succ_lt_succ hn)

/-- The walk from the head meets the end of a list that does not have the node. -/
theorem unlink_of_not_mem (h : IsList next (some p) (p :: l)) (hx : x ∉ l) (hn : l.length < n) :
    unlink next x n p = some (none, next) := by
  induction n generalizing l p with
  | zero => cases hn
  | succ n ih =>
    cases l with
    | nil => exact unlink_of_eq_none h.2
    | cons y l =>
      obtain ⟨-, hy⟩ := h
      have hyx : y ≠ x := fun e => hx (e ▸ List.mem_cons_self)
      rw [unlink_of_ne hy.1 hyx]
      exact ih (hy.1 ▸ hy) (fun hm => hx (List.mem_cons_of_mem y hm)) (Nat.lt_of_succ_lt_succ hn)

namespace Queue

/-- A queue without a node from between two others. Its pointers stay. -/
theorem Holds.bypass (h : Holds next q (a ++ y :: x :: b)) (hb : b ≠ []) :
    Holds (Function.update next y (next x)) q (a ++ y :: b) where
  list := h.list.bypass
  tail := fun _ => by
    rw [h.tail (by simp), List.append_cons, List.append_cons, List.getLast?_append_of_ne_nil _ hb,
      List.append_cons, List.getLast?_append_of_ne_nil _ hb]

end Queue
end Linked
