import DoorRtos.Theorems.Scheduling

/-! How the two queues are damaged: a tail that still has a link, a PCB linked twice, a PCB that no pointer of
    the kernel leads to any more. -/

namespace DoorRtos
open Linked

section
variable {k k' : Kernel} {L L' : Slot → List PcbRef} {w : QueueId} {i : Level} {s : Slot} {p x : PcbRef}

/-! ### A tail with a link -/

/-- The tail of a non-empty subqueue links to another PCB. -/
structure Dangling (k : Kernel) (s : Slot) (x : PcbRef) : Prop where
  head : (k.sub s).head ≠ none
  tail : (k.sub s).tail = some x
  next : k.pcbNext x ≠ none

theorem Dangling.not_rep (h : Dangling k s x) : ¬Rep k L := fun hrep => by
  have hq := hrep.holds.holds s
  have hne : L s ≠ [] := fun hnil => h.head (hq.list.eq_nil_iff.mp hnil)
  exact h.next (hq.list.next_getLast? ((hq.tail hne).symm.trans h.tail))

theorem Dangling.congr (h : Dangling k s x) (hnext : k'.pcbNext = k.pcbNext) (hq : k'.queue = k.queue) :
    Dangling k' s x := by
  obtain ⟨h₁, h₂, h₃⟩ := h
  refine ⟨?_, ?_, ?_⟩
  · unfold Kernel.sub at h₁ ⊢
    rwa [hq]
  · unfold Kernel.sub at h₂ ⊢
    rwa [hq]
  · rwa [hnext]

/-- Adding another PCB leaves the tail as it is. -/
theorem Dangling.enqueue (h : Dangling k s x) (hp : p ≠ x) (hs : enqueuePCBByPriority w p k = some k') :
    Dangling k' s x := by
  obtain ⟨i, -, rfl⟩ := enqueuePCBByPriority_pushed hs
  refine ⟨?_, ?_, ?_⟩
  · rw [Kernel.setQueue_sub]
    by_cases hsi : s = (w, i)
    · rw [hsi, Function.update_self, enqueuePCB, Queue.push_head]
      exact Option.some_ne_none p
    · rw [Function.update_of_ne hsi]
      exact h.head
  · rw [Kernel.setQueue_sub]
    by_cases hsi : s = (w, i)
    · subst hsi
      have hne : ¬((k.queue w).subqueues i).isEmpty = true := fun he => h.head (Option.isNone_iff_eq_none.mp he)
      rw [Function.update_self, enqueuePCB, Queue.push, if_neg hne]
      exact h.tail
    · rw [Function.update_of_ne hsi]
      exact h.tail
  · rw [Kernel.setQueue_pcbNext, enqueuePCB, Queue.push_of_ne hp.symm]
    exact h.next

/-- `remove_element` cuts the tail off a longer subqueue only from one side. -/
theorem removeElement_dangling {a : List PcbRef} {y : PcbRef} (hrep : Rep k L) (hl : L (w, i) = a ++ [y, p]) :
    ∃ c, removeElement w i p k = some (rtxSuccess, k.setQueue w k.pcbNext c) ∧
      c.highestPrio = (k.queue w).highestPrio ∧ (∀ j, j ≠ i → c.subqueues j = (k.queue w).subqueues j) ∧
      Dangling (k.setQueue w k.pcbNext c) (w, i) y := by
  refine ⟨_, removeElement_last hrep hl, rfl, fun j hj => Function.update_of_ne hj _ _, ?_, ?_, ?_⟩
  · rw [Kernel.setQueue_sub, Function.update_self]
    have hne : L (w, i) ≠ [] := by rw [hl]; simp
    exact fun he => hne ((hrep.holds.holds (w, i)).list.eq_nil_iff.mpr he)
  · rw [Kernel.setQueue_sub, Function.update_self]
  · have hlist := (hrep.holds.holds (w, i)).list
    rw [hl] at hlist
    rw [Kernel.setQueue_pcbNext, hlist.next_middle]
    exact Option.some_ne_none p

/-- Removal at the tail from a subqueue of one PCB. -/
theorem dequeuePCBFIFOByPriority_single (hh : (k.queue w).highestPrio = i.val)
    (hc : (k.queue w).subqueues i = ⟨some p, some p⟩) (hp : k.pcbNext p = none) :
    ∃ h, dequeuePCBFIFOByPriority w k = some (some p, k.setQueue w k.pcbNext
      ⟨h, Function.update (k.queue w).subqueues i Queue.empty⟩) := by
  have hs : dequeuePCBFIFO k.pcbNext ((k.queue w).subqueues i) = some (some p, k.pcbNext, Queue.empty) := by
    rw [hc]
    exact if_pos hp
  exact ⟨_, dequeuePCBFIFOByPriority_eq hh hs⟩

/-! ### A PCB linked twice -/

/-- Adding a PCB that is linked already leaves no lists behind. -/
theorem not_rep_of_enqueue_linked (hrep : Rep k L) (hx : p ∈ L s) (hs : enqueuePCBByPriority w p k = some k') :
    ¬Rep k' L' := fun hrep' => by
  obtain ⟨i, -, rfl⟩ := enqueuePCBByPriority_pushed hs
  have hlist := (hrep.holds.holds s).list
  have hall := hrep'.holds
  rw [Kernel.setQueue_sub, Kernel.setQueue_pcbNext] at hall
  have hagree : ∀ y, y ≠ p → (enqueuePCB k.pcbNext ((k.queue w).subqueues i) p).1 y = k.pcbNext y :=
    fun y hy => Queue.push_of_ne hy
  have hhead := (hall.holds (w, i)).list
  rw [Function.update_self, enqueuePCB, Queue.push_head] at hhead
  by_cases hsi : s = (w, i)
  · -- The list goes from `p` on to the old head, and from there back to `p`.
    subst hsi
    cases hl' : L' (w, i) with
    | nil =>
      rw [hl'] at hhead
      cases hhead
    | cons y l' =>
      rw [hl'] at hhead
      obtain ⟨hy, hrest⟩ := hhead
      cases hy
      rw [Queue.push_links, Function.update_self] at hrest
      have hnd := (hall.holds (w, i)).nodup
      rw [hl'] at hnd
      have hpush : ∀ y, y ≠ p → (Function.update k.pcbNext p ((k.queue w).subqueues i).head) y = k.pcbNext y :=
        fun y hy => Function.update_of_ne hy _ _
      exact (List.nodup_cons.mp hnd).1 (IsList.mem_of_agree hpush hlist hrest hx)
  · -- Two lists meet `p`.
    have hs' := (hall.holds s).list
    rw [Function.update_of_ne hsi] at hs'
    have h₁ : p ∈ L' s := IsList.mem_of_agree hagree hlist hs' hx
    have h₂ : p ∈ L' (w, i) := by
      cases hl' : L' (w, i) with
      | nil =>
        rw [hl'] at hhead
        cases hhead
      | cons y l' =>
        rw [hl'] at hhead
        cases hhead.1
        exact List.mem_cons_self
    exact hsi (hall.apart s (w, i) p h₁ h₂)

/-! ### A PCB out of reach -/

/-- The pointers of the subqueues, and the links from there on, stay inside `S`. -/
structure Within (k : Kernel) (S : PcbRef → Prop) : Prop where
  head : ∀ s x, (k.sub s).head = some x → S x
  tail : ∀ s x, (k.sub s).head ≠ none → (k.sub s).tail = some x → S x
  next : ∀ x y, S x → k.pcbNext x = some y → S y

theorem Within.mem {S : PcbRef → Prop} (h : Within k S) (hrep : Rep k L) (hp : p ∈ L s) : S p :=
  (hrep.holds.holds s).list.subset h.next (h.head s) p hp

theorem Within.congr {S : PcbRef → Prop} (h : Within k S) (hnext : k'.pcbNext = k.pcbNext) (hq : k'.queue = k.queue) :
    Within k' S := by
  have hsub : k'.sub = k.sub := by
    funext s
    unfold Kernel.sub
    rw [hq]
  refine ⟨?_, ?_, ?_⟩
  · rw [hsub]
    exact h.head
  · rw [hsub]
    exact h.tail
  · rw [hnext]
    exact h.next

/-- A subqueue whose pointers stay inside `S` takes the place of another. -/
theorem Within.setSub {S : PcbRef → Prop} {h : Nat} {q : PCBQueue} {next : Links PcbRef} (hk : Within k S)
    (hhead : ∀ x, q.head = some x → S x) (htail : ∀ x, q.head ≠ none → q.tail = some x → S x)
    (hnext : ∀ x y, S x → next x = some y → S y) :
    Within (k.setQueue w next ⟨h, Function.update (k.queue w).subqueues i q⟩) S := by
  refine ⟨fun s x hx => ?_, fun s x hne hx => ?_, by rwa [Kernel.setQueue_pcbNext]⟩
  · rw [Kernel.setQueue_sub] at hx
    by_cases hs : s = (w, i)
    · rw [hs, Function.update_self] at hx
      exact hhead x hx
    · rw [Function.update_of_ne hs] at hx
      exact hk.head s x hx
  · rw [Kernel.setQueue_sub] at hne hx
    by_cases hs : s = (w, i)
    · rw [hs, Function.update_self] at hne hx
      exact htail x hne hx
    · rw [Function.update_of_ne hs] at hne hx
      exact hk.tail s x hne hx

/-- What the lists hold is all that the pointers lead to. -/
theorem Rep.within (hrep : Rep k L) : Within k fun x => ∃ s, x ∈ L s where
  head s x hx := by
    rw [(hrep.holds.holds s).head_eq] at hx
    exact ⟨s, List.mem_of_head? hx⟩
  tail s x hne hx := by
    have hq := hrep.holds.holds s
    rw [hq.tail fun hnil => hne (hq.list.eq_nil_iff.mp hnil)] at hx
    exact ⟨s, List.mem_of_getLast? hx⟩
  next x y hx hxy := by
    obtain ⟨s, hx⟩ := hx
    obtain ⟨a, b, hl⟩ := List.append_of_mem hx
    have hlist := (hrep.holds.holds s).list
    rw [hl] at hlist
    cases b with
    | nil => exact absurd (hlist.next_last.symm.trans hxy) (by simp)
    | cons z b =>
      cases hlist.next_middle.symm.trans hxy
      exact ⟨s, by rw [hl]; simp⟩

/-- Once `p` is added, the pointers lead to `p` as well. -/
theorem Within.enqueue {S : PcbRef → Prop} (h : Within k S) (hs : enqueuePCBByPriority w p k = some k') :
    Within k' fun x => x = p ∨ S x := by
  obtain ⟨i, -, rfl⟩ := enqueuePCBByPriority_pushed hs
  refine ⟨fun s x hx => ?_, fun s x hne hx => ?_, fun x y hx hxy => ?_⟩
  · rw [Kernel.setQueue_sub] at hx
    by_cases hsi : s = (w, i)
    · rw [hsi, Function.update_self, enqueuePCB, Queue.push_head] at hx
      exact Or.inl (Option.some.inj hx).symm
    · rw [Function.update_of_ne hsi] at hx
      exact Or.inr (h.head s x hx)
  · rw [Kernel.setQueue_sub] at hne hx
    by_cases hsi : s = (w, i)
    · subst hsi
      rw [Function.update_self, enqueuePCB, Queue.push] at hx
      split at hx
      · exact Or.inl (Option.some.inj hx).symm
      next hnonempty =>
        exact Or.inr (h.tail (w, i) x (fun he => hnonempty (Option.isNone_iff_eq_none.mpr he)) hx)
    · rw [Function.update_of_ne hsi] at hne hx
      exact Or.inr (h.tail s x hne hx)
  · rw [Kernel.setQueue_pcbNext, enqueuePCB, Queue.push_links] at hxy
    by_cases hxp : x = p
    · rw [hxp, Function.update_self] at hxy
      exact Or.inr (h.head (w, i) y hxy)
    · rw [Function.update_of_ne hxp] at hxy
      exact Or.inr (h.next x y (hx.resolve_left hxp) hxy)

/-- What is taken out of a queue was in reach, and nothing more comes into reach. -/
theorem Within.dequeue {S : PcbRef → Prop} (h : Within k S) (hs : dequeuePCBFIFOByPriority w k = some (some p, k')) :
    S p ∧ Within k' S := by
  obtain ⟨i, next, c, n, -, hshift, rfl⟩ := dequeuePCBFIFOByPriority_inv hs
  obtain ⟨hp, hhead, htail, hnext⟩ := Queue.shift_mem h.next (h.head (w, i)) (h.tail (w, i)) hshift
  exact ⟨hp, h.setSub hhead (fun x _ hx => htail x hx) hnext⟩

/-- An unlinked PCB that is not put into a queue is out of reach of a switch to the next ready PCB. -/
theorem out_of_reach {k₁ k₂ : Kernel} {c : PcbRef} (hrep : Rep k L) (hun : Unlinked L c) (hc : c ≠ p)
    (hput : enqueuePCBByPriority w p k = some k₁) (htake : dequeuePCBFIFOByPriority w k₁ = some (some x, k₂)) :
    x ≠ c ∧ ∀ L', Rep k₂ L' → Unlinked L' c := by
  have hreach : ¬(c = p ∨ ∃ s, c ∈ L s) := fun h => h.elim hc fun ⟨s, hs⟩ => hun s hs
  obtain ⟨hx, hwithin⟩ := (hrep.within.enqueue hput).dequeue htake
  exact ⟨fun e => hreach (e ▸ hx), fun L' hrep' s hs => hreach (hwithin.mem hrep' hs)⟩

end
end DoorRtos
