import Mathlib.Data.List.Basic
import Mathlib.Logic.Function.Basic

/-! Memory that is stored to cell by cell: lists written from an index on, and lists read back. -/

namespace Buffer
variable {α : Type}

/-- Stores the elements of a list one behind the other from index `i` on. -/
def put (mem : Nat → α) : Nat → List α → Nat → α
  | _, [] => mem
  | i, x :: l => put (Function.update mem i x) (i + 1) l

/-- From index `i` on the memory holds the elements of `l`. -/
def Holds (mem : Nat → α) (i : Nat) (l : List α) : Prop := ∀ j x, l[j]? = some x → mem (i + j) = x

section
variable {mem : Nat → α} {i j : Nat} {l l' : List α} {x : α}

theorem put_append (mem : Nat → α) (i : Nat) (l l' : List α) :
    put mem i (l ++ l') = put (put mem i l) (i + l.length) l' := by
  induction l generalizing mem i with
  | nil => rfl
  | cons x l ih =>
    rw [List.cons_append, put, ih, List.length_cons, Nat.add_right_comm, Nat.add_assoc]
    rfl

theorem put_of_lt (h : j < i) : put mem i l j = mem j := by
  induction l generalizing mem i with
  | nil => rfl
  | cons x l ih =>
    rw [put, ih (Nat.lt_succ_of_lt h), Function.update_of_ne (Nat.ne_of_lt h)]

theorem put_of_le (h : i + l.length ≤ j) : put mem i l j = mem j := by
  induction l generalizing mem i with
  | nil => rfl
  | cons x l ih =>
    rw [List.length_cons] at h
    rw [put, ih (by omega), Function.update_of_ne (by omega)]

theorem holds_put (mem : Nat → α) (i : Nat) (l : List α) : Holds (put mem i l) i l := by
  induction l generalizing mem i with
  | nil => exact fun j x h => by cases h
  | cons y l ih =>
    intro j x h
    cases j with
    | zero =>
      cases h
      exact (put_of_lt (Nat.lt_succ_self i)).trans (Function.update_self ..)
    | succ j =>
      have hj := ih (Function.update mem i y) (i + 1) j x h
      rwa [Nat.add_right_comm, Nat.add_assoc] at hj

theorem Holds.left (h : Holds mem i (l ++ l')) : Holds mem i l := fun j x hx =>
  h j x (List.getElem?_append_left (List.getElem?_eq_some_iff.mp hx).1 ▸ hx)

theorem Holds.right (h : Holds mem i (l ++ l')) : Holds mem (i + l.length) l' := fun j x hx => by
  rw [Nat.add_assoc]
  refine h (l.length + j) x ?_
  rw [List.getElem?_append_right (Nat.le_add_right _ _), Nat.add_sub_cancel_left]
  exact hx

theorem Holds.append (h : Holds mem i l) (h' : Holds mem (i + l.length) l') : Holds mem i (l ++ l') := fun j x hx => by
  rcases Nat.lt_or_ge j l.length with hlt | hge
  · rw [List.getElem?_append_left hlt] at hx
    exact h j x hx
  · rw [List.getElem?_append_right hge] at hx
    have hmem := h' (j - l.length) x hx
    rwa [Nat.add_assoc, Nat.add_sub_cancel' hge] at hmem

theorem holds_singleton (h : mem i = x) : Holds mem i [x] := fun j y hy => by
  cases j with
  | zero =>
    cases hy
    exact h
  | succ j => cases hy

theorem Holds.head (h : Holds mem i (x :: l)) : mem i = x := h 0 x rfl

theorem Holds.last (h : Holds mem i (l ++ [x])) : mem (i + l.length) = x := h.right.head

end
end Buffer
