import Mathlib.Logic.Function.Basic
import Mathlib.Data.List.Basic
import Mathlib.Data.List.Nodup

/-! Singly linked lists whose links are kept in a heap: every node has one `next` field, and a list is
    the chain of nodes that the fields run through from some node to the end mark `none`. -/

namespace Linked

/-- The `next` field of every node of a heap. -/
abbrev Links (ι : Type) := ι → Option ι

/-- From `p` the links run through exactly the nodes of `l`, in this order, and end in `none`. -/
def IsList {ι : Type} (next : Links ι) : Option ι → List ι → Prop
  | p, [] => p = none
  | p, x :: l => p = some x ∧ IsList next (next x) l

instance IsList.decidable {ι : Type} [DecidableEq ι] (next : Links ι) : ∀ p l, Decidable (IsList next p l)
  | p, [] => inferInstanceAs (Decidable (p = none))
  | p, x :: l =>
    have := IsList.decidable next (next x) l
    inferInstanceAs (Decidable (p = some x ∧ IsList next (next x) l))

/-- From `p` the links lead to a node. -/
inductive Reaches {ι : Type} (next : Links ι) : Option ι → ι → Prop where
  | here (x : ι) : Reaches next (some x) x
  | there {x y : ι} : Reaches next (next y) x → Reaches next (some y) x

section
variable {ι : Type} {next next' : Links ι} {p : Option ι} {l l' : List ι} {x y : ι}

@[simp] theorem isList_nil : IsList next p [] ↔ p = none := Iff.rfl

@[simp] theorem isList_cons : IsList next p (x :: l) ↔ p = some x ∧ IsList next (next x) l := Iff.rfl

theorem IsList.eq_head? (h : IsList next p l) : p = l.head? := by
  cases l with
  | nil => exact h
  | cons x l => exact h.1

theorem IsList.eq_nil_iff (h : IsList next p l) : l = [] ↔ p = none := by
  rw [h.eq_head?, List.head?_eq_none_iff]

/-- The links determine the list. -/
theorem IsList.det (h : IsList next p l) (h' : IsList next p l') : l = l' := by
  induction l generalizing p l' with
  | nil =>
    cases h
    exact (h'.eq_nil_iff.mpr rfl).symm
  | cons x l ih =>
    cases l' with
    | nil => cases h.1.symm.trans h'
    | cons y l' =>
      obtain ⟨rfl, ht⟩ := h
      obtain ⟨hxy, ht'⟩ := h'
      cases hxy
      rw [ih ht ht']

/-- From the middle of a list the links run through the rest of it. -/
theorem IsList.of_append {a : List ι} (h : IsList next p (a ++ x :: l)) : IsList next (next x) l := by
  induction a generalizing p with
  | nil => exact h.2
  | cons y a ih => exact ih h.2

/-- A chain that ends in `none` meets no node twice: from a node met twice it would never end. -/
theorem IsList.nodup (h : IsList next p l) : l.Nodup := by
  induction l generalizing p with
  | nil => exact List.nodup_nil
  | cons x l ih =>
    refine List.nodup_cons.mpr ⟨fun hx => ?_, ih h.2⟩
    obtain ⟨a, b, rfl⟩ := List.append_of_mem hx
    have hlen := congrArg List.length (h.2.det h.2.of_append)
    simp at hlen
    omega

/-- Links that agree on the nodes of a list hold the same list. -/
theorem IsList.congr (hl : ∀ x ∈ l, next' x = next x) (h : IsList next p l) : IsList next' p l := by
  induction l generalizing p with
  | nil => exact h
  | cons x l ih =>
    refine ⟨h.1, ?_⟩
    rw [hl x List.mem_cons_self]
    exact ih (fun y hy => hl y (List.mem_cons_of_mem x hy)) h.2

theorem IsList.next_last {a : List ι} (h : IsList next p (a ++ [x])) : next x = none := h.of_append

theorem IsList.next_getLast? (h : IsList next p l) (hx : l.getLast? = some x) : next x = none := by
  obtain ⟨a, rfl⟩ := List.getLast?_eq_some_iff.mp hx
  exact h.next_last

theorem IsList.next_middle {a : List ι} (h : IsList next p (a ++ x :: y :: l)) : next x = some y := h.of_append.1

/-- The nodes of a list stay inside any set that holds its first node and follows the links. -/
theorem IsList.subset {S : ι → Prop} (hS : ∀ x y, S x → next x = some y → S y) (hp : ∀ x, p = some x → S x)
    (h : IsList next p l) : ∀ x ∈ l, S x := by
  induction l generalizing p with
  | nil => simp
  | cons x l ih =>
    have hx : S x := hp x h.1
    intro y hy
    rcases List.mem_cons.mp hy with rfl | hy
    · exact hx
    · exact ih (fun z hz => hS x z hx hz) h.2 y hy

/-- The links lead to nothing outside a set that holds the first node and follows the links. -/
theorem Reaches.subset {S : ι → Prop} (hS : ∀ x y, S x → next x = some y → S y) (hp : ∀ x, p = some x → S x)
    (h : Reaches next p x) : S x := by
  induction h with
  | here x => exact hp x rfl
  | there _ ih => exact ih fun z hz => hS _ z (hp _ rfl) hz

/-- The links of a list lead to its nodes. -/
theorem IsList.reaches_iff (h : IsList next p l) : Reaches next p x ↔ x ∈ l := by
  constructor
  · intro hx
    induction hx generalizing l with
    | here x =>
      cases l with
      | nil => cases h
      | cons y l =>
        cases h.1
        exact List.mem_cons_self
    | there _ ih =>
      cases l with
      | nil => cases h
      | cons y l =>
        obtain ⟨hy, h⟩ := h
        cases hy
        exact List.mem_cons_of_mem _ (ih h)
  · intro hx
    induction l generalizing p with
    | nil => cases hx
    | cons y l ih =>
      rw [h.1]
      rcases List.mem_cons.mp hx with rfl | hx
      · exact .here x
      · exact .there (ih h.2 hx)

/-- Two lists from the same node, over links that differ at `x` only, both meet `x` or neither does. -/
theorem IsList.mem_of_agree (hagree : ∀ y, y ≠ x → next' y = next y) (h : IsList next p l) (h' : IsList next' p l')
    (hx : x ∈ l) : x ∈ l' := by
  induction l generalizing p l' with
  | nil => cases hx
  | cons y l ih =>
    cases l' with
    | nil => cases h.1.symm.trans h'
    | cons z l' =>
      obtain ⟨rfl, ht⟩ := h
      obtain ⟨hyz, ht'⟩ := h'
      cases hyz
      by_cases hy : y = x
      · exact hy ▸ List.mem_cons_self
      · rw [hagree y hy] at ht'
        exact List.mem_cons_of_mem y (ih ht ht' ((List.mem_cons.mp hx).resolve_left fun h => hy h.symm))

variable [DecidableEq ι]

theorem IsList.update_of_not_mem {v : Option ι} (hx : x ∉ l) (h : IsList next p l) :
    IsList (Function.update next x v) p l :=
  h.congr fun y hy => by
    have hyx : y ≠ x := fun e => hx (e ▸ hy)
    rw [Function.update_of_ne hyx]

/-- Cutting a list after `x` leaves the part up to `x`. -/
theorem IsList.cut {a b : List ι} (h : IsList next p (a ++ x :: b)) :
    IsList (Function.update next x none) p (a ++ [x]) := by
  induction a generalizing p with
  | nil =>
    refine ⟨h.1, ?_⟩
    rw [Function.update_self]
    rfl
  | cons y a ih =>
    have hyx : y ≠ x := fun e => (List.nodup_cons.mp h.nodup).1 (by simp [e])
    refine ⟨h.1, ?_⟩
    rw [Function.update_of_ne hyx]
    exact ih h.2

/-- Linking the node before `x` to the node after `x` takes `x` out of the list. -/
theorem IsList.bypass {a b : List ι} (h : IsList next p (a ++ y :: x :: b)) :
    IsList (Function.update next y (next x)) p (a ++ y :: b) := by
  induction a generalizing p with
  | nil =>
    have hyb : y ∉ b := fun hy => (List.nodup_cons.mp h.nodup).1 (List.mem_cons_of_mem x hy)
    refine ⟨h.1, ?_⟩
    rw [Function.update_self]
    exact h.2.2.update_of_not_mem hyb
  | cons z a ih =>
    have hzy : z ≠ y := fun e => (List.nodup_cons.mp h.nodup).1 (by simp [e])
    refine ⟨h.1, ?_⟩
    rw [Function.update_of_ne hzy]
    exact ih h.2

/-- Putting a new node between `y` and its successor. -/
theorem IsList.splice {a b : List ι} (h : IsList next p (a ++ y :: b)) (hx : x ∉ a ++ y :: b) :
    IsList (Function.update (Function.update next x (next y)) y (some x)) p (a ++ y :: x :: b) := by
  induction a generalizing p with
  | nil =>
    have hxy : x ≠ y := fun e => hx (e ▸ List.mem_cons_self)
    have hyb : y ∉ b := (List.nodup_cons.mp h.nodup).1
    refine ⟨h.1, Function.update_self y _ _, ?_⟩
    rw [Function.update_of_ne hxy, Function.update_self]
    exact (h.2.update_of_not_mem fun hb => hx (List.mem_cons_of_mem y hb)).update_of_not_mem hyb
  | cons z a ih =>
    have hzy : z ≠ y := fun e => (List.nodup_cons.mp h.nodup).1 (by simp [e])
    have hzx : z ≠ x := fun e => hx (e ▸ List.mem_cons_self)
    refine ⟨h.1, ?_⟩
    rw [Function.update_of_ne hzy, Function.update_of_ne hzx]
    exact ih h.2 fun hm => hx (List.mem_cons_of_mem z hm)

/-- Putting a new node in front. -/
theorem IsList.push (h : IsList next p l) (hx : x ∉ l) : IsList (Function.update next x p) (some x) (x :: l) := by
  refine ⟨rfl, ?_⟩
  rw [Function.update_self]
  exact h.update_of_not_mem hx

end
end Linked
