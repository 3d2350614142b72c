import DoorRtos.Linked.Lists

/-! Queues over intrusive links: a head and a tail pointer, insertion at the head, removal at either end.
    The tail is found by walking from the head, and removal at the head leaves the tail pointer alone, so
    the tail of an empty queue means nothing. -/

namespace Linked

/-- The two pointers of a queue; the links of its nodes are kept in the heap. -/
structure Queue (ι : Type) where
  head : Option ι
  tail : Option ι
  deriving DecidableEq, Repr

namespace Queue
variable {ι : Type}

/-- The queue with both pointers cleared. -/
def empty : Queue ι := ⟨none, none⟩

def isEmpty (q : Queue ι) : Bool := q.head.isNone

/-- `q` holds exactly the nodes of `l`, the newest first. -/
structure Holds (next : Links ι) (q : Queue ι) (l : List ι) : Prop where
  list : IsList next q.head l
  tail : l ≠ [] → q.tail = l.getLast?

theorem holds_empty (next : Links ι) : Holds next (empty : Queue ι) [] := ⟨rfl, fun h => absurd rfl h⟩

section
variable {next next' : Links ι} {q : Queue ι} {l : List ι} {x : ι}

theorem Holds.isEmpty_iff (h : Holds next q l) : q.isEmpty = true ↔ l = [] := by
  rw [isEmpty, Option.isNone_iff_eq_none, h.list.eq_nil_iff]

theorem Holds.head_eq (h : Holds next q l) : q.head = l.head? := h.list.eq_head?

theorem Holds.nodup (h : Holds next q l) : l.Nodup := h.list.nodup

theorem Holds.det {l' : List ι} (h : Holds next q l) (h' : Holds next q l') : l = l' := h.list.det h'.list

theorem Holds.congr (hl : ∀ x ∈ l, next' x = next x) (h : Holds next q l) : Holds next' q l :=
  ⟨h.list.congr hl, h.tail⟩

theorem Holds.of_head_eq_none (h : q.head = none) : Holds next q [] := ⟨h, fun h => absurd rfl h⟩

/-- A node with a node before it is not the head. -/
theorem Holds.head_ne {a b : List ι} {y : ι} (h : Holds next q (a ++ y :: x :: b)) : q.head ≠ some x := by
  rw [h.head_eq]
  have hnd := h.nodup
  cases a with
  | nil =>
    intro he
    cases he
    exact (List.nodup_cons.mp hnd).1 List.mem_cons_self
  | cons z a =>
    intro he
    cases he
    exact (List.nodup_cons.mp hnd).1 (by simp)

end

/-! ### Insertion -/

section
variable [DecidableEq ι]

/-- Insertion at the head; the first node of an empty queue also becomes its tail. -/
def push (next : Links ι) (q : Queue ι) (e : ι) : Links ι × Queue ι :=
  if q.isEmpty then (Function.update next e none, ⟨some e, some e⟩)
  else (Function.update next e q.head, ⟨some e, q.tail⟩)

variable {next : Links ι} {q : Queue ι} {l : List ι} {x e : ι}

theorem push_links (next : Links ι) (q : Queue ι) (e : ι) :
    (q.push next e).1 = Function.update next e q.head := by
  unfold push isEmpty
  cases h : q.head <;> rfl

theorem push_head (next : Links ι) (q : Queue ι) (e : ι) : (q.push next e).2.head = some e := by
  unfold push
  split <;> rfl

theorem push_of_ne (h : x ≠ e) : (q.push next e).1 x = next x := by
  rw [push_links, Function.update_of_ne h]

theorem Holds.push (h : Holds next q l) (he : e ∉ l) : Holds (q.push next e).1 (q.push next e).2 (e :: l) where
  list := by
    rw [push_links, push_head]
    exact h.list.push he
  tail := fun _ => by
    unfold Queue.push
    cases l with
    | nil => rw [if_pos (h.isEmpty_iff.mpr rfl)]; rfl
    | cons y l =>
      rw [if_neg fun hq => List.cons_ne_nil y l (h.isEmpty_iff.mp hq), List.getLast?_cons_cons]
      exact h.tail (List.cons_ne_nil y l)

end

/-! ### Removal at the head -/

/-- Removal at the head. The tail pointer is not touched. -/
def pop (next : Links ι) (q : Queue ι) : Option ι × Queue ι :=
  match q.head with
  | none => (none, q)
  | some e => (some e, ⟨next e, q.tail⟩)

section
variable {next : Links ι} {q : Queue ι} {l : List ι} {e : ι}

theorem Holds.pop_nil (h : Holds next q []) : q.pop next = (none, q) := by
  unfold Queue.pop
  rw [h.head_eq]
  rfl

theorem Holds.pop_cons (h : Holds next q (e :: l)) :
    q.pop next = (some e, ⟨next e, q.tail⟩) ∧ Holds next ⟨next e, q.tail⟩ l := by
  refine ⟨?_, h.list.2, fun hl => ?_⟩
  · unfold Queue.pop
    rw [h.head_eq]
    rfl
  · obtain ⟨y, l, rfl⟩ := List.exists_cons_of_ne_nil hl
    rw [← List.getLast?_cons_cons (a := e)]
    exact h.tail (List.cons_ne_nil e _)

end

/-! ### Removal at the tail -/

section
variable [DecidableEq ι]

/-- The walk to the node before `target`: it follows the links until it meets one that points to
    `target`. It gives nothing when it meets `none` first, or when it takes more steps than `n`. -/
def seek (next : Links ι) (target : Option ι) : Nat → ι → Option ι
  | 0, _ => none
  | n + 1, last => if next last = target then some last else (next last).bind (seek next target n)

/-- Removal at the tail. A queue of one node is cleared; in a longer one the walk finds the node before
    the tail, which becomes the new tail. -/
def shift (n : Nat) (next : Links ι) (q : Queue ι) : Option (Option ι × Links ι × Queue ι) :=
  match q.head with
  | none => some (none, next, q)
  | some last =>
    if next last = none then some (q.tail, next, empty)
    else (seek next q.tail n last).map fun last =>
      (q.tail, Function.update next last none, ⟨q.head, some last⟩)

variable {next : Links ι} {q : Queue ι} {l a : List ι} {x y p : ι} {n : Nat}

theorem seek_eq (h : IsList next (some p) (a ++ [y, x])) (hn : a.length < n) : seek next (some x) n p = some y := by
  induction n generalizing a p with
  | zero => cases hn
  | succ n ih =>
    unfold seek
    cases a with
    | nil =>
      obtain ⟨hp, hy, -⟩ := h
      cases hp
      rw [if_pos hy]
    | cons z a =>
      obtain ⟨hp, hz⟩ := h
      cases hp
      -- The node after `z` is not the last one, since it has a node after it.
      have hne : next p ≠ some x := by
        intro hx
        rw [hx] at hz
        cases a with
        | nil =>
          have hyx : y = x := (Option.some.inj hz.1).symm
          rw [hyx] at hz
          exact absurd hz.nodup (by simp)
        | cons w a =>
          have hwx : w = x := (Option.some.inj hz.1).symm
          rw [hwx] at hz
          exact absurd hz.nodup (by simp)
      rw [if_neg hne]
      obtain ⟨w, hw⟩ : ∃ w, next p = some w := by
        rw [hz.eq_head?]
        cases a <;> simp
      rw [hw] at hz ⊢
      exact ih hz (Nat.lt_of_succ_lt_succ hn)

/-- The walk stays inside a set that follows the links. -/
theorem seek_mem {S : ι → Prop} {t : Option ι} (hS : ∀ x y, S x → next x = some y → S y) (hp : S p)
    (hs : seek next t n p = some y) : S y := by
  induction n generalizing p with
  | zero => cases hs
  | succ n ih =>
    unfold seek at hs
    split at hs
    · cases hs
      exact hp
    · obtain ⟨z, hz, hs⟩ := Option.bind_eq_some_iff.mp hs
      exact ih (hS p z hp hz) hs

theorem Holds.shift_nil (h : Holds next q []) : q.shift n next = some (none, next, q) := by
  unfold Queue.shift
  rw [h.head_eq]
  rfl

/-- What removal at the tail does to a queue of one node. -/
theorem Holds.shift_singleton (h : Holds next q [x]) : q.shift n next = some (some x, next, empty) := by
  unfold Queue.shift
  rw [h.head_eq, h.tail (List.cons_ne_nil x [])]
  exact if_pos h.list.2

/-- What removal at the tail does to a queue of more nodes: only the link of the new tail changes. -/
theorem Holds.shift_append (h : Holds next q (a ++ [y, x])) (hn : a.length < n) :
    q.shift n next = some (some x, Function.update next y none, ⟨q.head, some y⟩) ∧
      Holds (Function.update next y none) ⟨q.head, some y⟩ (a ++ [y]) := by
  have htail : q.tail = some x := by rw [h.tail (by simp)]; simp
  refine ⟨?_, ?_, fun _ => by simp⟩
  · obtain ⟨p, hp⟩ : ∃ p, q.head = some p := by
      rw [h.head_eq]
      cases a <;> simp
    have hlist : IsList next (some p) (a ++ [y, x]) := hp ▸ h.list
    have hne : next p ≠ none := by
      cases a with
      | nil =>
        obtain ⟨hpy, hy, -⟩ := hlist
        cases hpy
        rw [hy]
        simp
      | cons z a =>
        obtain ⟨hpz, hz⟩ := hlist
        cases hpz
        intro hnone
        rw [hnone] at hz
        exact absurd (hz.eq_nil_iff.mpr rfl) (by simp)
    unfold Queue.shift
    simp only [hp]
    rw [if_neg hne, htail, seek_eq hlist hn]
    rfl
  · exact (show IsList next q.head (a ++ y :: [x]) from h.list).cut

/-- Removal at the tail takes the oldest node out of the queue. -/
theorem Holds.shift (h : Holds next q (l ++ [x])) (hn : l.length ≤ n) :
    ∃ next' q', q.shift n next = some (some x, next', q') ∧ Holds next' q' l ∧ ∀ y, y ∉ l → next' y = next y := by
  rcases List.eq_nil_or_concat l with rfl | ⟨a, y, rfl⟩
  · exact ⟨next, empty, h.shift_singleton, holds_empty next, fun _ _ => rfl⟩
  · rw [List.concat_eq_append] at h hn ⊢
    rw [List.append_assoc] at h
    have hn' : a.length < n := by
      rw [List.length_append] at hn
      exact hn
    obtain ⟨hs, hh⟩ := h.shift_append hn'
    refine ⟨_, _, hs, hh, fun z hz => ?_⟩
    have hzy : z ≠ y := fun e => hz (by simp [e])
    rw [Function.update_of_ne hzy]

/-- What removal at the tail takes is the tail, whatever the queue looks like. -/
theorem shift_tail {o : Option ι} {next' : Links ι} {q' : Queue ι} (hs : q.shift n next = some (o, next', q')) :
    o = if q.isEmpty then none else q.tail := by
  unfold Queue.shift at hs
  unfold isEmpty
  cases hh : q.head with
  | none =>
    rw [hh] at hs
    cases hs
    rfl
  | some last =>
    simp only [hh] at hs
    split at hs
    · cases hs
      rfl
    · obtain ⟨y, -, hs⟩ := Option.map_eq_some_iff.mp hs
      cases hs
      rfl

theorem shift_some {next' : Links ι} {q' : Queue ι} (hs : q.shift n next = some (some x, next', q')) :
    q.isEmpty = false ∧ q.tail = some x := by
  have htail := shift_tail hs
  split at htail
  · cases htail
  next hne => exact ⟨Bool.eq_false_iff.mpr hne, htail.symm⟩

/-- Whatever the queue looks like, removal at the tail takes a node in reach of its pointers, and leaves no more
    nodes in reach. -/
theorem shift_mem {S : ι → Prop} {next' : Links ι} {q' : Queue ι} (hnext : ∀ x y, S x → next x = some y → S y)
    (hhead : ∀ x, q.head = some x → S x) (htail : ∀ x, q.head ≠ none → q.tail = some x → S x)
    (hs : q.shift n next = some (some x, next', q')) :
    S x ∧ (∀ y, q'.head = some y → S y) ∧ (∀ y, q'.tail = some y → S y) ∧ ∀ y z, S y → next' y = some z → S z := by
  unfold Queue.shift at hs
  cases hh : q.head with
  | none =>
    rw [hh] at hs
    cases hs
  | some last =>
    simp only [hh] at hs
    split at hs
    · obtain ⟨hx, rfl, rfl⟩ : q.tail = some x ∧ next = next' ∧ empty = q' := by simpa using hs
      exact ⟨htail x (by simp [hh]) hx, fun _ hy => (by cases hy), fun _ hy => (by cases hy), hnext⟩
    · obtain ⟨y, hy, hs⟩ := Option.map_eq_some_iff.mp hs
      obtain ⟨hx, rfl, rfl⟩ : q.tail = some x ∧ Function.update next y none = next' ∧ ⟨some last, some y⟩ = q' := by
        simpa [hh] using hs
      have hlast : S last := hhead last hh
      refine ⟨htail x (by simp [hh]) hx, fun z hz => Option.some.inj hz ▸ hlast,
        fun z hz => Option.some.inj hz ▸ seek_mem hnext hlast hy, fun z v hz hzv => ?_⟩
      by_cases hzy : z = y
      · rw [hzy, Function.update_self] at hzv
        cases hzv
      · rw [Function.update_of_ne hzy] at hzv
        exact hnext z v hz hzv

end
end Queue
end Linked
