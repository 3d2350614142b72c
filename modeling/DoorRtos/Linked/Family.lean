import DoorRtos.Linked.Queue

/-! Any number of queues whose nodes share one heap of links. No node is in two queues, so an operation on
    one queue leaves the contents and the order of every other queue alone. -/

namespace Linked
variable {ι κ : Type}

/-- No node is in two lists of the family. -/
def Apart (L : κ → List ι) : Prop := ∀ j k x, x ∈ L j → x ∈ L k → j = k

/-- Every queue of a family holds its list, and no node is in two of them. -/
structure HoldsAll (next : Links ι) (q : κ → Queue ι) (L : κ → List ι) : Prop where
  holds : ∀ k, (q k).Holds next (L k)
  apart : Apart L

namespace HoldsAll
variable {next next' : Links ι} {q : κ → Queue ι} {L L' : κ → List ι} {l : List ι} {k : κ} {e x : ι} {n : Nat}

theorem empty (next : Links ι) (hq : ∀ k, (q k).head = none) : HoldsAll next q fun _ => [] where
  holds k := Queue.Holds.of_head_eq_none (hq k)
  apart _ _ _ hx := absurd hx List.not_mem_nil

/-- The links and the heads determine what the queues hold. -/
theorem det (h : HoldsAll next q L) (h' : HoldsAll next q L') : L = L' :=
  funext fun k => (h.holds k).det (h'.holds k)

variable [DecidableEq κ]

/-- Changing one queue, and the links of nodes that no other queue holds, keeps the family. -/
theorem set {q' : Queue ι} (h : HoldsAll next q L) (hq : q'.Holds next' l)
    (hnext : ∀ j, j ≠ k → ∀ x ∈ L j, next' x = next x) (hl : ∀ j, j ≠ k → ∀ x ∈ L j, x ∉ l) :
    HoldsAll next' (Function.update q k q') (Function.update L k l) where
  holds j := by
    by_cases hj : j = k
    · subst hj
      rw [Function.update_self, Function.update_self]
      exact hq
    · rw [Function.update_of_ne hj, Function.update_of_ne hj]
      exact (h.holds j).congr (hnext j hj)
  apart i j x hi hj := by
    by_cases hik : i = k <;> by_cases hjk : j = k
    · exact hik.trans hjk.symm
    · rw [hik, Function.update_self] at hi
      rw [Function.update_of_ne hjk] at hj
      exact absurd hi (hl j hjk x hj)
    · rw [hjk, Function.update_self] at hj
      rw [Function.update_of_ne hik] at hi
      exact absurd hj (hl i hik x hi)
    · rw [Function.update_of_ne hik] at hi
      rw [Function.update_of_ne hjk] at hj
      exact h.apart i j x hi hj

theorem pop (h : HoldsAll next q L) (hk : L k = e :: l) :
    (q k).pop next = (some e, ⟨next e, (q k).tail⟩) ∧
      HoldsAll next (Function.update q k ⟨next e, (q k).tail⟩) (Function.update L k l) := by
  obtain ⟨hp, hh⟩ := (hk ▸ h.holds k).pop_cons
  refine ⟨hp, h.set hh (fun _ _ _ _ => rfl) fun j hj x hx hxl => hj ?_⟩
  exact h.apart j k x hx (hk ▸ List.mem_cons_of_mem e hxl)

variable [DecidableEq ι]

theorem push (h : HoldsAll next q L) (he : ∀ j, e ∉ L j) :
    HoldsAll ((q k).push next e).1 (Function.update q k ((q k).push next e).2) (Function.update L k (e :: L k)) := by
  refine h.set ((h.holds k).push (he k)) (fun j _ x hx => ?_) fun j hj x hx hxk => ?_
  · exact Queue.push_of_ne fun hxe => he j (hxe ▸ hx)
  · rcases List.mem_cons.mp hxk with rfl | hxk
    · exact he j hx
    · exact hj (h.apart j k x hx hxk)

theorem shift (h : HoldsAll next q L) (hk : L k = l ++ [x]) (hn : l.length ≤ n) :
    ∃ next' q', (q k).shift n next = some (some x, next', q') ∧
      HoldsAll next' (Function.update q k q') (Function.update L k l) ∧ ∀ y, y ∉ l → next' y = next y := by
  obtain ⟨next', q', hs, hh, hnext⟩ := (hk ▸ h.holds k).shift hn
  refine ⟨next', q', hs, h.set hh (fun j hj y hy => hnext y fun hyl => hj ?_) fun j hj y hy hyl => hj ?_, hnext⟩
  · exact h.apart j k y hy (hk ▸ List.mem_append_left [x] hyl)
  · exact h.apart j k y hy (hk ▸ List.mem_append_left [x] hyl)

end HoldsAll

/-! ### Custody -/

/-- Every place holds items of `S` only, and no item is in two places. -/
structure Custody (S : ι → Prop) (L : κ → List ι) : Prop where
  within : ∀ k, ∀ x ∈ L k, S x
  apart : Apart L

namespace Custody
variable {S : ι → Prop} {L L' : κ → List ι} {e : ι}

/-- Places that lose items keep custody. -/
theorem mono (h : Custody S L) (hsub : ∀ k, ∀ x ∈ L' k, x ∈ L k) : Custody S L' where
  within k x hx := h.within k x (hsub k x hx)
  apart j k x hj hk := h.apart j k x (hsub j x hj) (hsub k x hk)

/-- Moving an item to a place, the only one with `T`, keeps custody. -/
theorem move {T : κ → Prop} (h : Custody S L) (he : S e) (hT : ∀ j k, T j → T k → j = k)
    (hmove : ∀ k, ∀ x ∈ L' k, T k ∧ x = e ∨ x ≠ e ∧ x ∈ L k) : Custody S L' where
  within k x hx := by
    rcases hmove k x hx with ⟨-, rfl⟩ | ⟨-, hx⟩
    · exact he
    · exact h.within k x hx
  apart j k x hj hk := by
    rcases hmove j x hj with ⟨hTj, rfl⟩ | ⟨hne, hj⟩ <;> rcases hmove k x hk with ⟨hTk, he⟩ | ⟨hne', hk⟩
    · exact hT j k hTj hTk
    · exact absurd rfl hne'
    · exact absurd he hne
    · exact h.apart j k x hj hk

/-- Taking an item out of place `i`, to be the only one in place `j`, keeps custody. -/
theorem take {i j : κ} (h : Custody S L) (he : e ∈ L i) (hj : ∀ x ∈ L' j, x = e)
    (hsub : ∀ k, k ≠ j → ∀ x ∈ L' k, x ∈ L k) (hne : e ∉ L' i) : Custody S L' := by
  refine h.move (T := fun k => k = j) (h.within i e he) (fun _ _ hk hk' => hk.trans hk'.symm) fun k x hx => ?_
  by_cases hk : k = j
  · subst hk
    exact Or.inl ⟨rfl, hj x hx⟩
  · have hx' := hsub k hk x hx
    refine Or.inr ⟨?_, hx'⟩
    rintro rfl
    exact hne (h.apart k i x hx' he ▸ hx)

/-- Pouring all items of place `i` into place `j` keeps custody. -/
theorem pour {i j : κ} (h : Custody S L) (hpour : ∀ k, ∀ x ∈ L' k, k = j ∧ x ∈ L i ∨ k ≠ i ∧ x ∈ L k) : Custody S L' where
  within k x hx := by
    rcases hpour k x hx with ⟨-, hx⟩ | ⟨-, hx⟩
    · exact h.within i x hx
    · exact h.within k x hx
  apart k k' x hk hk' := by
    rcases hpour k x hk with ⟨rfl, hi⟩ | ⟨hne, hk⟩ <;> rcases hpour k' x hk' with ⟨rfl, hi'⟩ | ⟨hne', hk'⟩
    · rfl
    · exact absurd (h.apart k' i x hk' hi) hne'
    · exact absurd (h.apart k i x hk hi') hne
    · exact h.apart k k' x hk hk'

end Custody
end Linked
