import Mathlib.Algebra.GroupWithZero.Nat
import Mathlib.Data.List.Basic
import Mathlib.Data.List.Forall2

/-! Delta lists: every element carries the time that passes between its predecessor and itself, and a counter
    tells how much of the first delta has passed. Insertion walks down the list and takes each delta it passes
    off its own; the elements whose time has come are at the front. -/

namespace Delta
variable {α : Type}

/-- The elements with their times, when the first delta counts from `base`. -/
def times (base : Nat) : List (α × Nat) → List (α × Nat)
  | [] => []
  | (a, d) :: l => (a, base + d) :: times (base + d) l

/-- The time from the start of a list to its last element. -/
def total (l : List (α × Nat)) : Nat := (l.map Prod.snd).sum

/-- The walk of an insertion at distance `d`: what is left of `d`, the elements passed and those ahead. -/
def seek : Nat → List (α × Nat) → Nat × List (α × Nat) × List (α × Nat)
  | d, [] => (d, [], [])
  | d, (b, x) :: l => if d > x then ((seek (d - x) l).1, (b, x) :: (seek (d - x) l).2.1, (seek (d - x) l).2.2)
    else (d, [], (b, x) :: l)

/-- The first element follows a new one at distance `d`. -/
def shorten (d : Nat) : List (α × Nat) → List (α × Nat)
  | [] => []
  | (b, x) :: l => (b, x - d) :: l

def insert (a : α) (d : Nat) (l : List (α × Nat)) : List (α × Nat) :=
  (seek d l).2.1 ++ (a, (seek d l).1) :: shorten (seek d l).1 (seek d l).2.2

/-- When the counter has reached the first delta, the elements due are taken off, and the counter restarts: the
    elements, the counter and what is left. -/
def expire (count : Nat) : List (α × Nat) → List α × Nat × List (α × Nat)
  | [] => ([], count, [])
  | (a, d) :: l => if d = count then (a :: (expire 0 l).1, (expire 0 l).2) else ([], count, (a, d) :: l)

/-- The counter starts over when it has overshot the first delta. -/
def restart (count : Nat) : List (α × Nat) → Nat
  | [] => count
  | (_, d) :: _ => if count > d then 0 else count

/-- One tick of a counter below `m`. -/
def tick (m count : Nat) (l : List (α × Nat)) : List α × Nat × List (α × Nat) :=
  expire (restart ((count + 1) % m) l) l

/-- The number of the tick that takes each element off, when nothing is inserted: the first one after what is left
    of its delta, or, when the counter has passed it already, one tick after its delta. -/
def schedule (count : Nat) : List (α × Nat) → List (α × Nat)
  | [] => []
  | (a, d) :: l =>
    let first := if count < d then d - count else d + 1
    (a, first) :: times first l

/-- The counter has not reached the first delta. -/
def Ahead (count : Nat) (l : List (α × Nat)) : Prop := ∀ x ∈ l.head?, count < x.2

section
variable {a : α} {base count d m : Nat} {l l' : List (α × Nat)} {x : α × Nat}

@[simp] theorem total_nil : total ([] : List (α × Nat)) = 0 := rfl

@[simp] theorem total_cons : total (x :: l) = x.2 + total l := by simp [total]

theorem times_append : times base (l ++ l') = times base l ++ times (base + total l) l' := by
  induction l generalizing base with
  | nil => rfl
  | cons x l ih =>
    rw [List.cons_append, times, ih, total_cons, Nat.add_assoc]
    rfl

theorem le_times (hx : x ∈ times base l) : base ≤ x.2 := by
  induction l generalizing base with
  | nil => cases hx
  | cons y l ih =>
    rcases List.mem_cons.mp hx with rfl | hx
    · exact Nat.le_add_right _ _
    · exact Nat.le_trans (Nat.le_add_right _ _) (ih hx)

/-- Nothing is due before the counter has reached the first delta. -/
theorem Ahead.lt_times (h : Ahead count l) (hx : x ∈ times base l) : base + count < x.2 := by
  cases l with
  | nil => cases hx
  | cons y l =>
    have hy : count < y.2 := h y rfl
    rcases List.mem_cons.mp hx with rfl | hx
    · exact Nat.add_lt_add_left hy base
    · exact Nat.lt_of_lt_of_le (Nat.add_lt_add_left hy base) (le_times hx)

/-! ### Insertion -/

theorem seek_append (d : Nat) (l : List (α × Nat)) : (seek d l).2.1 ++ (seek d l).2.2 = l := by
  induction l generalizing d with
  | nil => rfl
  | cons y l ih =>
    unfold seek
    split
    · exact congrArg (y :: ·) (ih _)
    · rfl

theorem seek_total (d : Nat) (l : List (α × Nat)) : total (seek d l).2.1 + (seek d l).1 = d := by
  induction l generalizing d with
  | nil => exact Nat.zero_add d
  | cons y l ih =>
    unfold seek
    split
    next h =>
      rw [total_cons, Nat.add_assoc, ih]
      exact Nat.add_sub_cancel' (Nat.le_of_lt h)
    next => exact Nat.zero_add d

/-- The element ahead is no nearer than what is left of the distance. -/
theorem seek_le (hx : x ∈ (seek d l).2.2.head?) : (seek d l).1 ≤ x.2 := by
  induction l generalizing d with
  | nil => cases hx
  | cons y l ih =>
    unfold seek at hx ⊢
    split at hx
    next h =>
      rw [if_pos h]
      exact ih hx
    next h =>
      cases hx
      rw [if_neg h]
      exact Nat.le_of_not_lt h

theorem times_shorten (hl : ∀ x ∈ l.head?, d ≤ x.2) : times (base + d) (shorten d l) = times base l := by
  cases l with
  | nil => rfl
  | cons y l =>
    have hy : base + d + (y.2 - d) = base + y.2 := by
      have : d ≤ y.2 := hl y rfl
      omega
    unfold shorten times
    rw [hy]

/-- Insertion adds one element at its distance and leaves the times of the others alone. -/
theorem times_insert (base : Nat) (a : α) (d : Nat) (l : List (α × Nat)) :
    times base (insert a d l) = times base (seek d l).2.1 ++ (a, base + d) ::
      times (base + total (seek d l).2.1) (seek d l).2.2 := by
  have hd : base + total (seek d l).2.1 + (seek d l).1 = base + d := by rw [Nat.add_assoc, seek_total]
  unfold insert
  rw [times_append, times, hd, ← times_shorten (d := (seek d l).1) fun x hx => seek_le hx, hd]

theorem mem_times_insert (hx : x ∈ times base (insert a d l)) : x = (a, base + d) ∨ x ∈ times base l := by
  rw [times_insert] at hx
  have hl : times base l = times base (seek d l).2.1 ++ times (base + total (seek d l).2.1) (seek d l).2.2 := by
    rw [← times_append, seek_append]
  rw [hl]
  rcases List.mem_append.mp hx with hx | hx
  · exact Or.inr (List.mem_append_left _ hx)
  · rcases List.mem_cons.mp hx with hx | hx
    · exact Or.inl hx
    · exact Or.inr (List.mem_append_right _ hx)

theorem mem_times_insert_self (base : Nat) (a : α) (d : Nat) (l : List (α × Nat)) :
    (a, base + d) ∈ times base (insert a d l) := by
  rw [times_insert]
  exact List.mem_append_right _ List.mem_cons_self

theorem mem_times_insert_of_mem (hx : x ∈ times base l) : x ∈ times base (insert a d l) := by
  rw [times_insert]
  rw [← seek_append d l, times_append] at hx
  rcases List.mem_append.mp hx with hx | hx
  · exact List.mem_append_left _ hx
  · exact List.mem_append_right _ (List.mem_cons_of_mem _ hx)

/-- The walk passes only what has an earlier time. -/
theorem lt_of_mem_seek (hx : x ∈ times base (seek d l).2.1) : x.2 < base + d := by
  induction l generalizing base d with
  | nil => cases hx
  | cons y l ih =>
    unfold seek at hx
    split at hx
    next h =>
      rcases List.mem_cons.mp hx with rfl | hx
      · exact Nat.add_lt_add_left h base
      · have := ih hx
        omega
    next => cases hx

theorem ahead_insert (hd : 0 < d) (h : Ahead 0 l) : Ahead 0 (insert a d l) := by
  intro x hx
  unfold insert at hx
  cases l with
  | nil =>
    cases hx
    exact hd
  | cons y l =>
    unfold seek at hx
    split at hx
    next =>
      cases hx
      exact h y rfl
    next =>
      cases hx
      exact hd

theorem length_times : (times base l).length = l.length := by
  induction l generalizing base with
  | nil => rfl
  | cons x l ih => exact congrArg (· + 1) ih

theorem seek_fst_le (d : Nat) (l : List (α × Nat)) : (seek d l).1 ≤ d := by
  have := seek_total d l
  omega

/-- Insertion makes no delta larger than the largest one or the distance. -/
theorem lt_of_mem_insert {n : Nat} (hd : d < n) (hl : ∀ x ∈ l, x.2 < n) (hx : x ∈ insert a d l) : x.2 < n := by
  have happend := seek_append d l
  rcases List.mem_append.mp hx with hx | hx
  · exact hl x (happend ▸ List.mem_append_left _ hx)
  rcases List.mem_cons.mp hx with rfl | hx
  · exact Nat.lt_of_le_of_lt (seek_fst_le d l) hd
  · have hafter : ∀ y ∈ (seek d l).2.2, y.2 < n := fun y hy => hl y (happend ▸ List.mem_append_right _ hy)
    cases hl' : (seek d l).2.2 with
    | nil =>
      rw [hl'] at hx
      cases hx
    | cons y r =>
      rw [hl'] at hx hafter
      rcases List.mem_cons.mp hx with rfl | hx
      · exact Nat.lt_of_le_of_lt (Nat.sub_le _ _) (hafter y List.mem_cons_self)
      · exact hafter x (List.mem_cons_of_mem y hx)

/-! ### Expiry -/

/-- Exactly the elements that are due are taken off, and the times of the others stay the same. -/
theorem expire_spec (h : ∀ x ∈ l.head?, count ≤ x.2) (base : Nat) :
    ∃ base', base' + (expire count l).2.1 = base + count ∧
      times base l = (expire count l).1.map (fun a => (a, base + count)) ++ times base' (expire count l).2.2 ∧
      Ahead (expire count l).2.1 (expire count l).2.2 := by
  induction l generalizing base count with
  | nil => exact ⟨base, rfl, rfl, fun x hx => by cases hx⟩
  | cons y l ih =>
    unfold expire
    by_cases hy : y.2 = count
    · obtain ⟨base', hcount, htimes, hahead⟩ :=
        ih (show ∀ x ∈ l.head?, 0 ≤ x.2 from fun _ _ => Nat.zero_le _) (base + count)
      rw [if_pos hy]
      refine ⟨base', hcount, ?_, hahead⟩
      rw [times, hy, htimes]
      rfl
    · rw [if_neg hy]
      refine ⟨base, rfl, rfl, fun x hx => ?_⟩
      cases hx
      exact Nat.lt_of_le_of_ne (h y rfl) fun e => hy e.symm

/-! ### Ticks -/

/-- The times from another base, which may be further back. -/
theorem times_rebase {base' c n : Nat} (h : base' + c = base + n) (l : List (α × Nat)) :
    times base' l = (times base l).map fun x => (x.1, x.2 + n - c) := by
  induction l generalizing base base' with
  | nil => rfl
  | cons x l ih =>
    have hx : base' + x.2 = base + x.2 + n - c := by omega
    rw [times, times, List.map_cons, ih (show base' + x.2 + c = base + x.2 + n by omega)]
    exact congrArg (fun t => (x.1, t) :: _) hx

theorem restart_cons : restart count (x :: l) = if count > x.2 then 0 else count := rfl

theorem restart_le (count : Nat) (l : List (α × Nat)) : ∀ x ∈ l.head?, restart count l ≤ x.2 := by
  intro x hx
  cases l with
  | nil => cases hx
  | cons y l =>
    cases hx
    rw [restart_cons]
    split
    · exact Nat.zero_le _
    next h => exact Nat.le_of_not_gt h

theorem tick_eq (h : ∀ x ∈ l.head?, (count + 1) % m ≤ x.2) : tick m count l = expire ((count + 1) % m) l := by
  unfold tick
  cases l with
  | nil => rfl
  | cons x l => rw [restart_cons, if_neg (Nat.not_lt_of_le (h x rfl))]

/-- The ticks are the times, counted from the last restart. -/
theorem schedule_eq (h : count < m) (hl : ∀ x ∈ l.head?, x.2 < m) :
    schedule count l = (times 0 l).map fun x => (x.1, x.2 + 1 - restart ((count + 1) % m) l) := by
  cases l with
  | nil => rfl
  | cons y l =>
    obtain ⟨a, d⟩ := y
    have hd : d < m := hl (a, d) rfl
    have hfirst : (if count < d then d - count else d + 1) + restart ((count + 1) % m) ((a, d) :: l) = d + 1 := by
      rw [restart_cons]
      dsimp only
      by_cases hlt : count < d
      · rw [if_pos hlt, Nat.mod_eq_of_lt (by omega), if_neg (by omega)]
        omega
      · have hmod : (count + 1) % m = 0 ∨ (count + 1) % m = count + 1 := by
          rcases Nat.lt_or_ge (count + 1) m with hm | hm
          · exact Or.inr (Nat.mod_eq_of_lt hm)
          · exact Or.inl (by rw [show count + 1 = m by omega, Nat.mod_self])
        rw [if_neg hlt]
        rcases hmod with hmod | hmod
        · rw [hmod, if_neg (Nat.not_lt_zero d)]
        · rw [hmod, if_pos (by omega)]
    rw [schedule, times, List.map_cons, Nat.zero_add, times_rebase hfirst]
    exact congrArg (fun t => (a, t) :: _) (by omega)

/-- What has not expired is scheduled for what is left of its time. -/
theorem Ahead.schedule_eq (h : Ahead count l) : schedule count l = (times 0 l).map fun x => (x.1, x.2 - count) := by
  cases l with
  | nil => rfl
  | cons y l =>
    obtain ⟨a, d⟩ := y
    have hd : count < d := h (a, d) rfl
    rw [schedule, times, List.map_cons, if_pos hd, Nat.zero_add]
    rw [times_rebase (show d - count + count = d + 0 by omega)]
    rfl

/-- One tick takes off what is scheduled for it, and the rest is scheduled one tick later. -/
theorem schedule_tick (h : count < m) (hl : ∀ x ∈ l.head?, x.2 < m) :
    schedule count l = (tick m count l).1.map (fun a => (a, 1)) ++
      (schedule (tick m count l).2.1 (tick m count l).2.2).map fun x => (x.1, x.2 + 1) := by
  obtain ⟨base', hcount, htimes, hahead⟩ := expire_spec (restart_le ((count + 1) % m) l) 0
  rw [schedule_eq h hl, htimes, tick, List.map_append, List.map_map, hahead.schedule_eq, List.map_map,
    times_rebase (Nat.add_comm base' 0), List.map_map]
  congr 1
  · refine List.map_congr_left fun a _ => congrArg (fun t => (a, t)) ?_
    dsimp only [Function.comp]
    omega
  · refine List.map_congr_left fun x hx => congrArg (fun t => (x.1, t)) ?_
    have hlt := hahead.lt_times hx
    dsimp only [Function.comp]
    omega

theorem expire_count_le (count : Nat) (l : List (α × Nat)) : (expire count l).2.1 ≤ count := by
  induction l generalizing count with
  | nil => exact Nat.le_refl count
  | cons x l ih =>
    unfold expire
    split
    · exact Nat.le_trans (ih 0) (Nat.zero_le count)
    · exact Nat.le_refl count

/-- The counter starts over when something expires. -/
theorem expire_count_eq_zero (h : (expire count l).1 ≠ []) : (expire count l).2.1 = 0 := by
  cases l with
  | nil => exact absurd rfl h
  | cons x l =>
    unfold expire at h ⊢
    by_cases hx : x.2 = count
    · rw [if_pos hx]
      exact Nat.le_zero.mp (expire_count_le 0 l)
    · rw [if_neg hx] at h
      exact absurd rfl h

theorem tick_count_lt (hm : 0 < m) : (tick m count l).2.1 < m := by
  have hmod : (count + 1) % m < m := Nat.mod_lt _ hm
  refine Nat.lt_of_le_of_lt (expire_count_le _ l) ?_
  cases l with
  | nil => exact hmod
  | cons x l =>
    rw [restart_cons]
    split
    · exact hm
    · exact hmod

/-- Nothing is scheduled for the past. -/
theorem schedule_pos (hx : x ∈ schedule count l) : 0 < x.2 := by
  cases l with
  | nil => cases hx
  | cons y l =>
    have hfirst : 0 < if count < y.2 then y.2 - count else y.2 + 1 := by
      split <;> omega
    rcases List.mem_cons.mp hx with rfl | hx
    · exact hfirst
    · exact Nat.lt_of_lt_of_le hfirst (le_times hx)

theorem times_fst (base : Nat) (l : List (α × Nat)) : (times base l).map Prod.fst = l.map Prod.fst := by
  induction l generalizing base with
  | nil => rfl
  | cons x l ih => exact congrArg (x.1 :: ·) (ih _)

theorem schedule_fst (count : Nat) (l : List (α × Nat)) : (schedule count l).map Prod.fst = l.map Prod.fst := by
  cases l with
  | nil => rfl
  | cons x l => exact congrArg (x.1 :: ·) (times_fst _ l)

theorem times_sorted (base : Nat) (l : List (α × Nat)) : (times base l).Pairwise fun x y => x.2 ≤ y.2 := by
  induction l generalizing base with
  | nil => exact .nil
  | cons x l ih => exact List.pairwise_cons.mpr ⟨fun y hy => le_times hy, ih _⟩

theorem schedule_sorted (count : Nat) (l : List (α × Nat)) : (schedule count l).Pairwise fun x y => x.2 ≤ y.2 := by
  cases l with
  | nil => exact .nil
  | cons x l => exact List.pairwise_cons.mpr ⟨fun y hy => le_times hy, times_sorted _ l⟩

/-- Insertion adds one element. -/
theorem count_insert [DecidableEq α] (b a : α) (d : Nat) (l : List (α × Nat)) :
    ((insert a d l).map Prod.fst).count b = (l.map Prod.fst).count b + [a].count b := by
  have hl : l.map Prod.fst = (seek d l).2.1.map Prod.fst ++ (seek d l).2.2.map Prod.fst := by
    rw [← List.map_append, seek_append]
  rw [← times_fst 0, times_insert, List.map_append, List.map_cons, times_fst, times_fst, hl, List.count_append,
    List.count_append, List.count_cons, List.count_singleton]
  dsimp only
  omega

/-- A tick parts the elements into those taken off and those left. -/
theorem tick_fst (m count : Nat) (l : List (α × Nat)) :
    l.map Prod.fst = (tick m count l).1 ++ (tick m count l).2.2.map Prod.fst := by
  obtain ⟨base, -, htimes, -⟩ := expire_spec (restart_le ((count + 1) % m) l) 0
  have h := congrArg (List.map Prod.fst) htimes
  rw [times_fst, List.map_append, times_fst, List.map_map] at h
  exact h.trans (congrArg (· ++ _) (List.map_id _))

theorem restart_count_le (count : Nat) (l : List (α × Nat)) : restart count l ≤ count := by
  cases l with
  | nil => exact Nat.le_refl count
  | cons y l =>
    rw [restart_cons]
    split
    · exact Nat.zero_le count
    · exact Nat.le_refl count

/-- The counter starts over when it has run past the time of an element. -/
theorem restart_late (hx : x ∈ times base l) (hlate : x.2 < base + count) : restart count l = 0 := by
  cases l with
  | nil => cases hx
  | cons y l =>
    rw [restart_cons, if_pos]
    rcases List.mem_cons.mp hx with rfl | hx
    · exact Nat.lt_of_add_lt_add_left hlate
    · have := le_times hx
      omega

/-- A tick takes the elements off at their times, which the others keep, counted from a start that may have moved on. The
    counter goes on, or starts over when elements are taken off, and the start moves when the time of an element is past. -/
theorem times_tick {n : Nat} (m : Nat) (h : base + count = n) (l : List (α × Nat)) :
    ∃ base' base₁, base' + (tick m count l).2.1 = n + 1 ∧ base ≤ base₁ ∧
      times base₁ l = (tick m count l).1.map (fun a => (a, n + 1)) ++ times base' (tick m count l).2.2 ∧
      (tick m count l).2.1 ≤ count + 1 ∧ ((tick m count l).1 ≠ [] → (tick m count l).2.1 = 0) ∧
      (count < m → (∃ x ∈ times base l, x.2 ≤ n) → base₁ = n + 1) := by
  have hle : restart ((count + 1) % m) l ≤ count + 1 := Nat.le_trans (restart_count_le _ l) (Nat.mod_le _ _)
  obtain ⟨base', hcount, htimes, -⟩ := expire_spec (restart_le ((count + 1) % m) l) (n + 1 - restart ((count + 1) % m) l)
  rw [Nat.sub_add_cancel (by omega)] at hcount htimes
  refine ⟨base', _, hcount, by omega, htimes, Nat.le_trans (expire_count_le _ l) hle, expire_count_eq_zero, ?_⟩
  rintro hm ⟨x, hx, hlate⟩
  suffices restart ((count + 1) % m) l = 0 by rw [this, Nat.sub_zero]
  rcases Nat.lt_or_eq_of_le (show count + 1 ≤ m from hm) with hlt | heq
  · rw [Nat.mod_eq_of_lt hlt]
    exact restart_late hx (by omega)
  · rw [heq, Nat.mod_self]
    exact Nat.le_zero.mp (restart_count_le 0 l)

/-- From a later start the times are later by as much. -/
theorem mem_times_later {base' : Nat} (h : base ≤ base') (hx : x ∈ times base' l) :
    ∃ y ∈ times base l, y.1 = x.1 ∧ y.2 + (base' - base) = x.2 := by
  rw [times_rebase (show base' + 0 = base + (base' - base) by omega) l] at hx
  obtain ⟨y, hy, rfl⟩ := List.mem_map.mp hx
  exact ⟨y, hy, rfl, rfl⟩

/-- No element is taken off more than one tick after its time. -/
theorem schedule_le (h : count < m) (hl : ∀ x ∈ l.head?, x.2 < m) :
    List.Forall₂ (fun x y => x.1 = y.1 ∧ x.2 ≤ y.2 + 1) (schedule count l) (times 0 l) := by
  rw [schedule_eq h hl, List.forall₂_map_left_iff, List.forall₂_same]
  exact fun x _ => ⟨rfl, Nat.sub_le _ _⟩

end
end Delta
