import Mathlib.Data.List.MinMax

/-! Stable priority queues: elements arrive in order, and the one served next is the earliest among those of
    the least priority value. The elements of each priority value form a bucket, kept in order of arrival;
    serving takes the first element of the first non-empty bucket. -/

namespace Stable
variable {α κ : Type} [LinearOrder κ] (prio : α → κ)

/-- Serves the earliest element of least priority value. -/
def serve [DecidableEq α] (l : List α) : Option α × List α :=
  match l.argmin prio with
  | none => (none, l)
  | some x => (some x, l.erase x)

/-- The elements of priority value `i`, in order of arrival. -/
def bucket (l : List α) (i : κ) : List α := l.filter fun x => prio x = i

section
variable {prio} {l r : List α} {x : α} {i j : κ}

theorem mem_bucket : x ∈ bucket prio l i ↔ x ∈ l ∧ prio x = i := by simp [bucket]

theorem bucket_concat_self : bucket prio (l ++ [x]) (prio x) = bucket prio l (prio x) ++ [x] := by
  simp [bucket, List.filter_append]

theorem bucket_concat_of_ne (h : prio x ≠ i) : bucket prio (l ++ [x]) i = bucket prio l i := by
  simp [bucket, List.filter_append, h]

theorem eq_nil_of_buckets (prio : α → κ) (h : ∀ i, bucket prio l i = []) : l = [] := by
  cases l with
  | nil => rfl
  | cons x l => exact absurd (h (prio x) ▸ mem_bucket.mpr ⟨List.mem_cons_self, rfl⟩) List.not_mem_nil

variable [DecidableEq α]

theorem serve_nil : serve prio ([] : List α) = (none, []) := rfl

/-- The first element of the first non-empty bucket is served. -/
theorem serve_eq (hx : bucket prio l i = x :: r) (hlow : ∀ j, j < i → bucket prio l j = []) :
    serve prio l = (some x, l.erase x) := by
  have hxl : x ∈ l ∧ prio x = i := mem_bucket.mp (hx ▸ List.mem_cons_self)
  have hle : ∀ a ∈ l, i ≤ prio a := fun a ha => by
    refine le_of_not_gt fun hlt => ?_
    have hmem : a ∈ bucket prio l (prio a) := mem_bucket.mpr ⟨ha, rfl⟩
    rw [hlow _ hlt] at hmem
    exact List.not_mem_nil hmem
  -- Nothing before `x` has its priority value, so `x` comes first among those that have it.
  obtain ⟨a, b, rfl, ha, -, -⟩ := List.filter_eq_cons_iff.mp hx
  have hxa : x ∉ a := fun h => by simpa [hxl.2] using ha x h
  have hmin : (a ++ x :: b).argmin prio = some x := by
    refine List.argmin_eq_some_iff.mpr ⟨hxl.1, fun y hy => hxl.2 ▸ hle y hy, fun y hy hyx => ?_⟩
    have hya : y ∉ a := fun h => by
      have hyi : prio y = i := le_antisymm (hyx.trans hxl.2.le) (hle y hy)
      simpa [hyi] using ha y h
    rw [List.idxOf_append_of_notMem hxa, List.idxOf_append_of_notMem hya, List.idxOf_cons_self]
    exact Nat.add_le_add_left (Nat.zero_le _) _
  unfold serve
  rw [hmin]

theorem bucket_erase : bucket prio (l.erase x) i = (bucket prio l i).erase x := (List.erase_filter).symm

theorem bucket_erase_of_ne (h : prio x ≠ j) : bucket prio (l.erase x) j = bucket prio l j := by
  rw [bucket_erase, List.erase_of_not_mem fun hx => h (mem_bucket.mp hx).2]

end
end Stable
