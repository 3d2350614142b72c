import DoorRtos.Primitives

/-! What the two queues of queues hold, and how the operations of `queue.c` change it. -/

namespace DoorRtos
open Linked

/-- `h` is the least index of a non-empty subqueue of queue `w`, or one past the last index. -/
structure Highest (L : Slot → List PcbRef) (w : QueueId) (h : Nat) : Prop where
  below : ∀ i : Level, i.val < h → L (w, i) = []
  here : ∀ i : Level, i.val = h → L (w, i) ≠ []
  bound : h ≤ numPrio + 1

/-- The subqueues hold the PCBs of `L`, the newest first: each is a list from its head to its tail that ends
    in `NULL`, no PCB is linked twice, and both `highest_prio` are exact. -/
structure Rep (k : Kernel) (L : Slot → List PcbRef) : Prop where
  holds : HoldsAll k.pcbNext k.sub L
  highest : ∀ w, Highest L w (k.queue w).highestPrio

/-- PCB `p` is linked in queue `w`. -/
def InQueue (L : Slot → List PcbRef) (w : QueueId) (p : PcbRef) : Prop := ∃ i, p ∈ L (w, i)

/-- PCB `p` is linked in neither queue. -/
def Unlinked (L : Slot → List PcbRef) (p : PcbRef) : Prop := ∀ s, p ∉ L s

instance (L : Slot → List PcbRef) (w : QueueId) (p : PcbRef) : Decidable (InQueue L w p) :=
  inferInstanceAs (Decidable (∃ i, p ∈ L (w, i)))

instance (L : Slot → List PcbRef) (p : PcbRef) : Decidable (Unlinked L p) := inferInstanceAs (Decidable (∀ s, p ∉ L s))

section
variable {k : Kernel} {L L' : Slot → List PcbRef} {w w' : QueueId} {i : Level} {p q : PcbRef} {l : List PcbRef}

instance (k : Kernel) (L : Slot → List PcbRef) : Decidable (Rep k L) :=
  decidable_of_iff
    ((∀ s, IsList k.pcbNext (k.sub s).head (L s) ∧ (L s ≠ [] → (k.sub s).tail = (L s).getLast?)) ∧
      (∀ s t, ∀ x ∈ L s, x ∈ L t → s = t) ∧
      ∀ w, (∀ i : Level, i.val < (k.queue w).highestPrio → L (w, i) = []) ∧
        (∀ i : Level, i.val = (k.queue w).highestPrio → L (w, i) ≠ []) ∧ (k.queue w).highestPrio ≤ numPrio + 1)
    ⟨fun ⟨hq, ha, hh⟩ => ⟨⟨fun s => ⟨(hq s).1, (hq s).2⟩, fun s t x hs ht => ha s t x hs ht⟩,
      fun w => ⟨(hh w).1, (hh w).2.1, (hh w).2.2⟩⟩,
    fun h => ⟨fun s => ⟨(h.holds.holds s).list, (h.holds.holds s).tail⟩, fun s t x hs ht => h.holds.apart s t x hs ht,
      fun w => ⟨(h.highest w).below, (h.highest w).here, (h.highest w).bound⟩⟩⟩

theorem unlinked_iff : Unlinked L p ↔ ∀ w, ¬InQueue L w p :=
  ⟨fun h w ⟨i, hi⟩ => h (w, i) hi, fun h s hs => h s.1 ⟨s.2, hs⟩⟩

theorem Rep.det (h : Rep k L) (h' : Rep k L') : L = L' := h.holds.det h'.holds

theorem Rep.queue_unique (h : Rep k L) (hw : InQueue L w p) (hw' : InQueue L w' p) : w = w' := by
  obtain ⟨i, hi⟩ := hw
  obtain ⟨j, hj⟩ := hw'
  exact congrArg Prod.fst (h.holds.apart (w, i) (w', j) p hi hj)

theorem Rep.length_le (h : Rep k L) (s : Slot) : (L s).length ≤ maxProcesses :=
  PcbRef.length_le (h.holds.holds s).nodup

/-- Changes outside the links and the queues keep what the queues hold. -/
theorem Rep.congr {k' : Kernel} (h : Rep k L) (hnext : k'.pcbNext = k.pcbNext) (hq : k'.queue = k.queue) : Rep k' L := by
  have hsub : k'.sub = k.sub := by
    funext s
    simp only [Kernel.sub, hq]
  refine ⟨?_, ?_⟩
  · rw [hnext, hsub]
    exact h.holds
  · rw [hq]
    exact h.highest

/-- Both queues are empty just after `init_METAPCB_queue`. -/
theorem rep_init (hr : k.readyQueue = initMETAPCBQueue) (hm : k.memoryWaitQueue = initMETAPCBQueue) :
    Rep k fun _ => [] := by
  have hq : ∀ w, k.queue w = initMETAPCBQueue := fun w => by
    cases w
    · exact hr
    · exact hm
  refine ⟨HoldsAll.empty _ fun s => ?_, fun w => ?_⟩
  · simp only [Kernel.sub, hq]
    rfl
  · rw [hq]
    exact ⟨fun _ _ => rfl, fun i hi => absurd (hi ▸ i.isLt) (Nat.lt_irrefl _), Nat.le_refl _⟩

/-! ### Insertion and removal, on the contents -/

/-- The contents with `p` added to subqueue `i` of queue `w`. -/
def insertAt (L : Slot → List PcbRef) (w : QueueId) (i : Level) (p : PcbRef) : Slot → List PcbRef :=
  Function.update L (w, i) (p :: L (w, i))

theorem inQueue_insertAt : InQueue (insertAt L w i p) w' q ↔ InQueue L w' q ∨ w' = w ∧ q = p := by
  unfold InQueue insertAt
  constructor
  · rintro ⟨j, hj⟩
    by_cases hs : (w', j) = (w, i)
    · rw [hs, Function.update_self] at hj
      cases hs
      rcases List.mem_cons.mp hj with hq | hq
      · exact Or.inr ⟨rfl, hq⟩
      · exact Or.inl ⟨i, hq⟩
    · rw [Function.update_of_ne hs] at hj
      exact Or.inl ⟨j, hj⟩
  · rintro (⟨j, hj⟩ | ⟨rfl, rfl⟩)
    · refine ⟨j, ?_⟩
      by_cases hs : (w', j) = (w, i)
      · rw [hs, Function.update_self]
        exact List.mem_cons_of_mem p (hs ▸ hj)
      · rwa [Function.update_of_ne hs]
    · exact ⟨i, by simp⟩

theorem unlinked_insertAt : Unlinked (insertAt L w i p) q ↔ Unlinked L q ∧ q ≠ p := by
  simp only [unlinked_iff, inQueue_insertAt]
  constructor
  · exact fun h => ⟨fun w' hw => h w' (Or.inl hw), fun e => h w (Or.inr ⟨rfl, e⟩)⟩
  · rintro ⟨h, hne⟩ w' (hw | ⟨-, e⟩)
    · exact h w' hw
    · exact hne e

/-- Taking `p` out of the subqueue that holds it. -/
theorem inQueue_update (hrep : Rep k L) (hp : p ∈ L (w, i)) (hl : ∀ x, x ∈ l ↔ x ∈ L (w, i) ∧ x ≠ p) :
    InQueue (Function.update L (w, i) l) w' q ↔ InQueue L w' q ∧ q ≠ p := by
  unfold InQueue
  constructor
  · rintro ⟨j, hj⟩
    by_cases hs : (w', j) = (w, i)
    · rw [hs, Function.update_self] at hj
      cases hs
      exact ⟨⟨i, ((hl q).mp hj).1⟩, ((hl q).mp hj).2⟩
    · rw [Function.update_of_ne hs] at hj
      exact ⟨⟨j, hj⟩, fun e => hs (hrep.holds.apart _ _ p (e ▸ hj) hp)⟩
  · rintro ⟨⟨j, hj⟩, hne⟩
    refine ⟨j, ?_⟩
    by_cases hs : (w', j) = (w, i)
    · rw [hs, Function.update_self]
      exact (hl q).mpr ⟨hs ▸ hj, hne⟩
    · rwa [Function.update_of_ne hs]

theorem mem_dropLast_iff (hrep : Rep k L) (hl : L (w, i) = l ++ [p]) (x : PcbRef) : x ∈ l ↔ x ∈ L (w, i) ∧ x ≠ p := by
  have hnd := (hrep.holds.holds (w, i)).nodup
  rw [hl] at hnd ⊢
  have hpl : p ∉ l := fun hp => (List.nodup_append.mp hnd).2.2 p hp p List.mem_cons_self rfl
  simp only [List.mem_append, List.mem_singleton]
  constructor
  · exact fun hx => ⟨Or.inl hx, fun e => hpl (e ▸ hx)⟩
  · exact fun hx => hx.1.resolve_right hx.2

/-! ### `highest_prio` -/

/-- A non-empty queue has a first non-empty subqueue, and that one an oldest PCB. -/
theorem exists_first (L : Slot → List PcbRef) (w : QueueId) :
    (∀ i, L (w, i) = []) ∨ ∃ i l p, L (w, i) = l ++ [p] ∧ ∀ j : Level, j.val < i.val → L (w, j) = [] := by
  by_cases h : ∃ i, L (w, i) ≠ []
  · right
    -- Descend to the least non-empty index.
    obtain ⟨i, hi⟩ := h
    induction hn : i.val using Nat.strongRecOn generalizing i with
    | _ n ih =>
      by_cases hlow : ∃ j : Level, j.val < i.val ∧ L (w, j) ≠ []
      · obtain ⟨j, hj, hne⟩ := hlow
        exact ih j.val (hn ▸ hj) j hne rfl
      · obtain ⟨l, p, hlp⟩ := (List.eq_nil_or_concat (L (w, i))).resolve_left hi
        refine ⟨i, l, p, by rw [hlp, List.concat_eq_append], fun j hj => ?_⟩
        exact Classical.byContradiction fun hne => hlow ⟨j, hj, hne⟩
  · left
    intro i
    exact Classical.byContradiction fun hne => h ⟨i, hne⟩

theorem Highest.eq_of_first {h : Nat} (hh : Highest L w h) (hi : L (w, i) ≠ [])
    (hlow : ∀ j : Level, j.val < i.val → L (w, j) = []) : h = i.val := by
  rcases Nat.lt_trichotomy h i.val with hlt | heq | hgt
  · exact absurd (hlow ⟨h, Nat.lt_trans hlt i.isLt⟩ hlt) (hh.here ⟨h, Nat.lt_trans hlt i.isLt⟩ rfl)
  · exact heq
  · exact absurd (hh.below i hgt) hi

theorem Highest.eq_of_empty {h : Nat} (hh : Highest L w h) (hnil : ∀ i, L (w, i) = []) : h = numPrio + 1 := by
  rcases Nat.lt_or_eq_of_le hh.bound with hlt | heq
  · exact absurd (hnil ⟨h, hlt⟩) (hh.here ⟨h, hlt⟩ rfl)
  · exact heq

theorem Rep.exists_of_highestPrio (h : Rep k L) (hlt : (k.queue w).highestPrio < numPrio + 1) : ∃ p, InQueue L w p := by
  obtain ⟨p, hp⟩ := List.exists_mem_of_ne_nil _ ((h.highest w).here ⟨_, hlt⟩ rfl)
  exact ⟨p, _, hp⟩

theorem Highest.le_of_mem {h : Nat} (hh : Highest L w h) (hp : p ∈ L (w, i)) : h ≤ i.val := by
  refine Nat.le_of_not_lt fun hlt => ?_
  rw [hh.below i hlt] at hp
  exact List.not_mem_nil hp

/-- Whatever the queue looks like, the loop passes over empty subqueues only. -/
theorem raiseHighestPrio_skips (past : Bool) (subqueues : Level → PCBQueue) (n h : Nat) :
    h ≤ raiseHighestPrio past subqueues n h ∧
      ∀ i : Level, h ≤ i.val → i.val < raiseHighestPrio past subqueues n h → isEmpty (subqueues i) = true := by
  induction n generalizing h with
  | zero => exact ⟨Nat.le_refl h, fun i hle hlt => absurd hlt (Nat.not_lt_of_le hle)⟩
  | succ n ih =>
    unfold raiseHighestPrio
    split
    next htest =>
      obtain ⟨hempty, hlt⟩ := Bool.and_eq_true_iff.mp htest
      obtain ⟨hle, hskip⟩ := ih (h + 1)
      refine ⟨Nat.le_of_succ_le hle, fun i hi hir => ?_⟩
      rcases Nat.lt_or_eq_of_le hi with hi | rfl
      · exact hskip i hi hir
      · unfold isEmptyAt at hempty
        rwa [dif_pos i.isLt] at hempty
    next => exact ⟨Nat.le_refl h, fun i hle hlt => absurd hlt (Nat.not_lt_of_le hle)⟩

/-- The loop stops at the first non-empty subqueue at or above its start, and past the last one when there is
    none; what lies past the last subqueue does not matter. -/
theorem raiseHighestPrio_spec {past : Bool} {subqueues : Level → PCBQueue} {n h : Nat}
    (hsub : ∀ i, isEmpty (subqueues i) = true ↔ L (w, i) = []) (hlow : ∀ i : Level, i.val < h → L (w, i) = [])
    (hbound : h ≤ numPrio + 1) (hn : numPrio + 1 < n + h) : Highest L w (raiseHighestPrio past subqueues n h) := by
  induction n generalizing h with
  | zero => omega
  | succ n ih =>
    unfold raiseHighestPrio
    by_cases hlt : h < numPrio + 1
    · by_cases hnil : L (w, ⟨h, hlt⟩) = []
      · have hempty : isEmptyAt past subqueues h = true := by
          unfold isEmptyAt
          rw [dif_pos hlt]
          exact (hsub ⟨h, hlt⟩).mpr hnil
        rw [hempty, decide_eq_true hlt]
        refine ih (fun i hi => ?_) hlt (by omega)
        rcases Nat.lt_or_eq_of_le (Nat.le_of_lt_succ hi) with hi | hi
        · exact hlow i hi
        · have : i = ⟨h, hlt⟩ := Fin.ext hi
          exact this ▸ hnil
      · have hempty : isEmptyAt past subqueues h = false := by
          unfold isEmptyAt
          rw [dif_pos hlt]
          exact Bool.eq_false_iff.mpr fun he => hnil ((hsub ⟨h, hlt⟩).mp he)
        rw [hempty]
        refine ⟨hlow, fun i hi => ?_, hbound⟩
        have : i = ⟨h, hlt⟩ := Fin.ext hi
        exact this ▸ hnil
    · rw [decide_eq_false hlt, Bool.and_false]
      refine ⟨hlow, fun i hi => absurd ?_ hlt, hbound⟩
      have hih : i.val = h := hi
      exact hih ▸ i.isLt

theorem isEmpty_iff {next : Links PcbRef} {c : PCBQueue} (h : c.Holds next l) : isEmpty c = true ↔ l = [] := h.isEmpty_iff

/-- With one subqueue changed, `is_empty` still tells which of the lists are empty. -/
theorem isEmpty_update_iff {next : Links PcbRef} {c : PCBQueue}
    (hall : HoldsAll next (Function.update k.sub (w, i) c) (Function.update L (w, i) l)) (j : Level) :
    isEmpty (Function.update (k.queue w).subqueues i c j) = true ↔ Function.update L (w, i) l (w, j) = [] := by
  have hj := isEmpty_iff (hall.holds (w, j))
  by_cases hji : j = i
  · subst hji
    rw [Function.update_self] at hj ⊢
    exact hj
  · rw [Function.update_of_ne fun e => hji (congrArg Prod.snd e)] at hj
    rw [Function.update_of_ne hji]
    exact hj

/-- Storing queue `w` keeps the `highest_prio` of the other queue exact. -/
theorem Highest.update_other {l : List PcbRef} {h : Nat} (hh : Highest L w' h) (hw : w' ≠ w) :
    Highest (Function.update L (w, i) l) w' h := by
  have heq : ∀ j, Function.update L (w, i) l (w', j) = L (w', j) := fun j =>
    Function.update_of_ne (fun e => hw (congrArg Prod.fst e)) _ _
  exact ⟨fun j hj => by rw [heq]; exact hh.below j hj, fun j hj => by rw [heq]; exact hh.here j hj, hh.bound⟩

/-- One subqueue of queue `w` is replaced, with the links of its PCBs and an exact `highest_prio`. -/
theorem Rep.setQueue {next : Links PcbRef} {c : PCBQueue} {h : Nat} (hrep : Rep k L)
    (hall : HoldsAll next (Function.update k.sub (w, i) c) (Function.update L (w, i) l))
    (hh : Highest (Function.update L (w, i) l) w h) :
    Rep (k.setQueue w next ⟨h, Function.update (k.queue w).subqueues i c⟩) (Function.update L (w, i) l) where
  holds := by
    rw [Kernel.setQueue_pcbNext, Kernel.setQueue_sub]
    exact hall
  highest := fun w' => by
    by_cases hw : w' = w
    · subst hw
      rw [Kernel.setQueue_queue_self]
      exact hh
    · rw [Kernel.setQueue_queue_of_ne _ _ _ _ _ hw]
      exact (hrep.highest w').update_other hw

/-! ### `enqueue_PCB_by_priority` -/

/-- An unlinked PCB goes to the head of the subqueue of its priority. -/
theorem enqueuePCBByPriority_spec (hrep : Rep k L) (hp : Unlinked L p) (hi : (k.pcbs p).priority = i.val) :
    ∃ next c, enqueuePCBByPriority w p k = some (k.setQueue w next c) ∧ Rep (k.setQueue w next c) (insertAt L w i p) := by
  have hlt : (k.pcbs p).priority < numPrio + 1 := hi ▸ i.isLt
  have hidx : (⟨(k.pcbs p).priority, hlt⟩ : Level) = i := Fin.ext hi
  have hcons : insertAt L w i p (w, i) = p :: L (w, i) := by simp [insertAt]
  have heq : ∀ j, j ≠ i → insertAt L w i p (w, j) = L (w, j) := fun j hj => by
    unfold insertAt
    rw [Function.update_of_ne fun e => hj (congrArg Prod.snd e)]
  refine ⟨_, _, by unfold enqueuePCBByPriority; rw [dif_pos hlt], ?_⟩
  rw [hidx]
  have hpush := hrep.holds.push (k := (w, i)) hp
  refine hrep.setQueue hpush ?_
  have hh := hrep.highest w
  change Highest (insertAt L w i p) w _
  rw [hi]
  split
  next hless =>
    refine ⟨fun j hj => ?_, fun j hj => ?_, Nat.le_of_lt i.isLt⟩
    · rw [heq j fun e => Nat.lt_irrefl _ (e ▸ hj)]
      exact hh.below j (Nat.lt_trans hj hless)
    · rw [Fin.ext hj, hcons]
      exact List.cons_ne_nil _ _
  next hless =>
    refine ⟨fun j hj => ?_, fun j hj => ?_, hh.bound⟩
    · rw [heq j fun e => hless (e ▸ hj)]
      exact hh.below j hj
    · by_cases hji : j = i
      · rw [hji, hcons]
        exact List.cons_ne_nil _ _
      · rw [heq j hji]
        exact hh.here j hj

theorem enqueuePCBByPriority_eq (hi : (k.pcbs p).priority = i.val) :
    enqueuePCBByPriority w p k = some (k.setQueue w (enqueuePCB k.pcbNext ((k.queue w).subqueues i) p).1
      ⟨if i.val < (k.queue w).highestPrio then i.val else (k.queue w).highestPrio,
        Function.update (k.queue w).subqueues i (enqueuePCB k.pcbNext ((k.queue w).subqueues i) p).2⟩) := by
  have hlt : (k.pcbs p).priority < numPrio + 1 := hi ▸ i.isLt
  have hidx : (⟨(k.pcbs p).priority, hlt⟩ : Level) = i := Fin.ext hi
  unfold enqueuePCBByPriority
  rw [dif_pos hlt, hidx, hi]

theorem enqueuePCBByPriority_eq_none (h : numPrio < (k.pcbs p).priority) : enqueuePCBByPriority w p k = none := by
  unfold enqueuePCBByPriority
  rw [dif_neg (by omega)]

/-- Adding a PCB pushes it on the subqueue of its priority. -/
theorem enqueuePCBByPriority_pushed {k' : Kernel} (hs : enqueuePCBByPriority w p k = some k') :
    ∃ i : Level, (k.pcbs p).priority = i.val ∧ k' = k.setQueue w (enqueuePCB k.pcbNext ((k.queue w).subqueues i) p).1
      ⟨if i.val < (k.queue w).highestPrio then i.val else (k.queue w).highestPrio,
        Function.update (k.queue w).subqueues i (enqueuePCB k.pcbNext ((k.queue w).subqueues i) p).2⟩ := by
  by_cases hle : numPrio < (k.pcbs p).priority
  · rw [enqueuePCBByPriority_eq_none hle] at hs
    cases hs
  · have heq := enqueuePCBByPriority_eq (k := k) (p := p) (w := w)
      (i := ⟨(k.pcbs p).priority, Nat.lt_succ_of_le (Nat.le_of_not_lt hle)⟩) rfl
    exact ⟨_, rfl, Option.some.inj (hs.symm.trans heq)⟩

/-- Adding a PCB changes the links and one of the queues only. -/
theorem enqueuePCBByPriority_inv {k' : Kernel} (hs : enqueuePCBByPriority w p k = some k') :
    (k.pcbs p).priority ≤ numPrio ∧ ∃ next c, k' = k.setQueue w next c := by
  obtain ⟨i, hi, hk⟩ := enqueuePCBByPriority_pushed hs
  exact ⟨hi ▸ Nat.le_of_lt_succ i.isLt, _, _, hk⟩

/-! ### `dequeue_PCB_FIFO_by_priority` -/

theorem dequeuePCBFIFOByPriority_empty (hrep : Rep k L) (hnil : ∀ i, L (w, i) = []) :
    dequeuePCBFIFOByPriority w k = some (none, k) := by
  unfold dequeuePCBFIFOByPriority
  rw [dif_neg (by rw [(hrep.highest w).eq_of_empty hnil]; exact Nat.lt_irrefl _)]
  rfl

/-- What is taken out of a queue is what is taken out of the subqueue of its `highest_prio`. -/
theorem dequeuePCBFIFOByPriority_eq {o : Option PcbRef} {next : Links PcbRef} {c : PCBQueue}
    (hh : (k.queue w).highestPrio = i.val)
    (hs : dequeuePCBFIFO k.pcbNext ((k.queue w).subqueues i) = some (o, next, c)) :
    dequeuePCBFIFOByPriority w k = some (o, k.setQueue w next
      ⟨raiseHighestPrio k.pastSubqueues (Function.update (k.queue w).subqueues i c) (numPrio + 2) i.val,
        Function.update (k.queue w).subqueues i c⟩) := by
  have hlt : (k.queue w).highestPrio < numPrio + 1 := hh ▸ i.isLt
  have hidx : (⟨(k.queue w).highestPrio, hlt⟩ : Level) = i := Fin.ext hh
  unfold dequeuePCBFIFOByPriority
  rw [dif_pos hlt, hidx, hs, hh]
  rfl

/-- The oldest PCB of the first non-empty subqueue is taken out. -/
theorem dequeuePCBFIFOByPriority_spec (hrep : Rep k L) (hl : L (w, i) = l ++ [p])
    (hlow : ∀ j : Level, j.val < i.val → L (w, j) = []) :
    ∃ next c, dequeuePCBFIFOByPriority w k = some (some p, k.setQueue w next c) ∧
      Rep (k.setQueue w next c) (Function.update L (w, i) l) := by
  have hne : L (w, i) ≠ [] := by simp [hl]
  have hh : (k.queue w).highestPrio = i.val := (hrep.highest w).eq_of_first hne hlow
  have hlen : l.length ≤ maxProcesses := by
    have := hrep.length_le (w, i)
    rw [hl, List.length_append] at this
    omega
  obtain ⟨next, c, hs, hall, -⟩ := hrep.holds.shift hl hlen
  refine ⟨next, _, dequeuePCBFIFOByPriority_eq hh hs, hrep.setQueue hall ?_⟩
  refine raiseHighestPrio_spec (isEmpty_update_iff hall) (fun j hj => ?_) (Nat.le_of_lt i.isLt) (by omega)
  have hji : j ≠ i := fun e => Nat.lt_irrefl _ (e ▸ hj)
  rw [Function.update_of_ne fun e => hji (congrArg Prod.snd e)]
  exact hlow j hj

/-- Where a PCB that is taken out comes from, whatever the queue looks like. -/
theorem dequeuePCBFIFOByPriority_inv {k' : Kernel} (hs : dequeuePCBFIFOByPriority w k = some (some p, k')) :
    ∃ (i : Level) (next : Links PcbRef) (c : PCBQueue) (h : Nat), (k.queue w).highestPrio = i.val ∧
      dequeuePCBFIFO k.pcbNext ((k.queue w).subqueues i) = some (some p, next, c) ∧
      k' = k.setQueue w next ⟨h, Function.update (k.queue w).subqueues i c⟩ := by
  unfold dequeuePCBFIFOByPriority at hs
  by_cases hlt : (k.queue w).highestPrio < numPrio + 1
  · simp only [dif_pos hlt] at hs
    obtain ⟨⟨q, next, c⟩, hshift, hs⟩ := Option.bind_eq_some_iff.mp hs
    cases hs
    exact ⟨⟨_, hlt⟩, next, c, _, rfl, hshift, rfl⟩
  · simp only [dif_neg hlt] at hs
    cases hs

theorem isMETAPCBQueueEmpty_iff (hrep : Rep k L) : isMETAPCBQueueEmpty w k = true ↔ ∀ i, L (w, i) = [] := by
  unfold isMETAPCBQueueEmpty
  have hh := hrep.highest w
  by_cases hlt : (k.queue w).highestPrio < numPrio + 1
  · rw [dif_pos hlt]
    have hne := hh.here ⟨_, hlt⟩ rfl
    have hempty := isEmpty_iff (hrep.holds.holds (w, ⟨_, hlt⟩))
    constructor
    · exact fun h => absurd (hempty.mp h) hne
    · exact fun h => absurd (h ⟨_, hlt⟩) hne
  · rw [dif_neg hlt]
    exact ⟨fun _ i => hh.below i (Nat.lt_of_lt_of_le i.isLt (Nat.le_of_not_lt hlt)), fun _ => rfl⟩

/-! ### `remove_element` -/

/-- A walk finds the head at once. -/
theorem seekElement_head {next : Links PcbRef} {n : Nat} :
    seekElement next p (n + 1) none (some p) = some (none, some p) := by
  unfold seekElement
  exact if_pos rfl

theorem seekElement_found {next : Links PcbRef} {n : Nat} {c : PcbRef} {prev ptr : Option PcbRef}
    {r : Option PcbRef × Option PcbRef} (hs : seekElement next p n prev ptr = some r) (hr : r.2 = some c) : c = p := by
  induction n generalizing prev ptr with
  | zero => cases hs
  | succ n ih =>
    unfold seekElement at hs
    cases ptr with
    | none =>
      cases hs
      cases hr
    | some x =>
      dsimp only at hs
      split at hs
      next hx =>
        cases hs
        exact (Option.some.inj hr).symm.trans hx
      next => exact ih hs

/-- The walk stops at `p`, with the node before it. -/
theorem seekElement_of_mem {next : Links PcbRef} {ptr prev : Option PcbRef} {a b : List PcbRef} {n : Nat}
    (h : IsList next ptr (a ++ p :: b)) (hn : a.length < n) :
    seekElement next p n prev ptr = some (a.getLast?.or prev, some p) := by
  induction n generalizing a prev ptr with
  | zero => cases hn
  | succ n ih =>
    unfold seekElement
    cases a with
    | nil =>
      rw [h.1]
      simp
    | cons x a =>
      have hxp : x ≠ p := fun e => (List.nodup_cons.mp h.nodup).1 (by simp [e])
      rw [h.1]
      simp only [hxp, if_false]
      rw [ih (a := a) h.2 (Nat.lt_of_succ_lt_succ hn)]
      rw [List.getLast?_cons]
      cases a.getLast? <;> rfl

/-- The walk runs off the end of a list that does not hold `p`. -/
theorem seekElement_of_not_mem {next : Links PcbRef} {ptr : Option PcbRef} {n : Nat} (prev : Option PcbRef)
    (h : IsList next ptr l) (hp : p ∉ l) (hn : l.length < n) :
    ∃ prev', seekElement next p n prev ptr = some (prev', none) := by
  induction n generalizing l prev ptr with
  | zero => cases hn
  | succ n ih =>
    unfold seekElement
    cases l with
    | nil =>
      rw [isList_nil.mp h]
      exact ⟨prev, rfl⟩
    | cons x l =>
      have hxp : x ≠ p := fun e => hp (e ▸ List.mem_cons_self)
      rw [h.1]
      simp only [hxp, if_false]
      exact ih _ h.2 (fun hpl => hp (List.mem_cons_of_mem x hpl)) (Nat.lt_of_succ_lt_succ hn)

theorem removeElement_of_not_mem (hrep : Rep k L) (hp : p ∉ L (w, i)) :
    removeElement w i p k = some (rtxError, k) := by
  have hlist : IsList k.pcbNext ((k.queue w).subqueues i).head (L (w, i)) := (hrep.holds.holds (w, i)).list
  obtain ⟨prev, hs⟩ := seekElement_of_not_mem none hlist hp (Nat.lt_succ_of_le (hrep.length_le (w, i)))
  unfold removeElement
  rw [hs]

/-- Replacing a non-empty subqueue by a non-empty one. -/
theorem Highest.update_of_ne_nil {h : Nat} (hh : Highest L w h) (hi : L (w, i) ≠ []) (hl : l ≠ []) :
    Highest (Function.update L (w, i) l) w h := by
  have heq : ∀ j, j ≠ i → Function.update L (w, i) l (w, j) = L (w, j) := fun j hj =>
    Function.update_of_ne (fun e => hj (congrArg Prod.snd e)) _ _
  refine ⟨fun j hj => ?_, fun j hj => ?_, hh.bound⟩
  · rw [heq j fun e => hi (e ▸ hh.below j hj)]
    exact hh.below j hj
  · by_cases hji : j = i
    · rw [hji, Function.update_self]
      exact hl
    · rw [heq j hji]
      exact hh.here j hj

section
variable {a b : List PcbRef} {y : PcbRef}

/-- The lists of the other subqueues keep clear of what is left of subqueue `i`. -/
theorem Rep.clear (hrep : Rep k L) (hl : ∀ x ∈ l, x ∈ L (w, i)) : ∀ s, s ≠ (w, i) → ∀ x ∈ L s, x ∉ l :=
  fun s hs x hx hxl => hs (hrep.holds.apart s (w, i) x hx (hl x hxl))

/-- The only PCB of its subqueue. -/
theorem unlinkElement_only (hrep : Rep k L) (hl : L (w, i) = [p]) :
    ∃ q, unlinkElement w i none p k = some (k.setQueue w k.pcbNext q) ∧
      Rep (k.setQueue w k.pcbNext q) (Function.update L (w, i) []) := by
  have hq : Queue.Holds k.pcbNext ((k.queue w).subqueues i) [p] := hl ▸ hrep.holds.holds (w, i)
  have hh := hrep.highest w
  refine ⟨_, if_pos ⟨hq.head_eq, hq.tail (List.cons_ne_nil p [])⟩, ?_⟩
  have hall := hrep.holds.set (k := (w, i)) (Queue.holds_empty k.pcbNext) (fun _ _ _ _ => rfl)
    (hrep.clear fun x hx => absurd hx List.not_mem_nil)
  refine hrep.setQueue hall (raiseHighestPrio_spec (isEmpty_update_iff hall) (fun j hj => ?_) hh.bound (by omega))
  by_cases hji : j = i
  · rw [hji, Function.update_self]
  · rw [Function.update_of_ne fun e => hji (congrArg Prod.snd e)]
    exact hh.below j hj

/-- The first PCB of a longer subqueue. -/
theorem unlinkElement_first (hrep : Rep k L) (hl : L (w, i) = p :: b) (hb : b ≠ []) :
    ∃ q, unlinkElement w i none p k = some (k.setQueue w k.pcbNext q) ∧
      Rep (k.setQueue w k.pcbNext q) (Function.update L (w, i) b) := by
  have hq : Queue.Holds k.pcbNext ((k.queue w).subqueues i) (p :: b) := hl ▸ hrep.holds.holds (w, i)
  have hnd := List.nodup_cons.mp hq.nodup
  have htail : ((k.queue w).subqueues i).tail ≠ some p := by
    obtain ⟨x, b, rfl⟩ := List.exists_cons_of_ne_nil hb
    rw [hq.tail (List.cons_ne_nil p _), List.getLast?_cons_cons]
    exact fun he => hnd.1 (List.mem_of_getLast? he)
  refine ⟨_, by unfold unlinkElement; rw [if_neg fun h => htail h.2]; exact if_pos hq.head_eq, ?_⟩
  refine hrep.setQueue (hrep.holds.set hq.pop_cons.2 (fun _ _ _ _ => rfl)
    (hrep.clear fun x hx => hl ▸ List.mem_cons_of_mem p hx)) ?_
  exact (hrep.highest w).update_of_ne_nil (by rw [hl]; exact List.cons_ne_nil p b) hb

/-- A PCB with PCBs on both sides. -/
theorem unlinkElement_inner (hrep : Rep k L) (hl : L (w, i) = a ++ y :: p :: b) (hb : b ≠ []) :
    ∃ next, unlinkElement w i (some y) p k = some (k.setQueue w next (k.queue w)) ∧
      Rep (k.setQueue w next (k.queue w)) (Function.update L (w, i) (a ++ y :: b)) := by
  have hq : Queue.Holds k.pcbNext ((k.queue w).subqueues i) (a ++ y :: p :: b) := hl ▸ hrep.holds.holds (w, i)
  have hhead : ((k.queue w).subqueues i).head ≠ some p := hq.head_ne
  have htail : ((k.queue w).subqueues i).tail = b.getLast? := by
    rw [hq.tail (by simp), List.append_cons, List.append_cons, List.getLast?_append_of_ne_nil _ hb]
  have hpb : p ∉ b :=
    (List.nodup_cons.mp (List.nodup_cons.mp (List.nodup_append.mp hq.nodup).2.1).2).1
  have hne : ((k.queue w).subqueues i).tail ≠ some p := fun he => hpb (List.mem_of_getLast? (htail ▸ he))
  refine ⟨Function.update k.pcbNext y (k.pcbNext p), ?_, ?_⟩
  · unfold unlinkElement
    simp only [if_neg hhead, if_neg hne, if_neg fun h : _ ∧ _ => hhead h.1]
    rfl
  · have hy : y ∈ L (w, i) := hl ▸ by simp
    have hset := hrep.setQueue (w := w) (i := i) (c := (k.queue w).subqueues i) (h := (k.queue w).highestPrio)
      (hrep.holds.set (k := (w, i)) (hq.bypass hb)
        (fun s hs x hx => Function.update_of_ne (fun e : x = y => hs (hrep.holds.apart s (w, i) y (e ▸ hx) hy)) _ _)
        (hrep.clear fun x hx => ?_))
      ((hrep.highest w).update_of_ne_nil (by simp [hl]) (by simp))
    · rwa [Function.update_eq_self] at hset
    · rw [hl]
      simp only [List.mem_append, List.mem_cons] at hx ⊢
      tauto

/-- The last PCB of a longer subqueue: the new tail keeps its link to it. -/
theorem unlinkElement_last (hrep : Rep k L) (hl : L (w, i) = a ++ [y, p]) :
    unlinkElement w i (some y) p k = some (k.setQueue w k.pcbNext
      ⟨(k.queue w).highestPrio, Function.update (k.queue w).subqueues i ⟨((k.queue w).subqueues i).head, some y⟩⟩) := by
  have hq : Queue.Holds k.pcbNext ((k.queue w).subqueues i) (a ++ [y, p]) := hl ▸ hrep.holds.holds (w, i)
  have hhead : ((k.queue w).subqueues i).head ≠ some p := hq.head_ne
  have htail : ((k.queue w).subqueues i).tail = some p := by
    rw [hq.tail (by simp)]
    simp
  unfold unlinkElement
  simp only [if_neg hhead, if_neg fun h : _ ∧ _ => hhead h.1, if_pos htail]

end

theorem removeElement_of_mem {a b : List PcbRef} (hrep : Rep k L) (hl : L (w, i) = a ++ p :: b) :
    removeElement w i p k = (unlinkElement w i a.getLast? p k).map fun k => (rtxSuccess, k) := by
  have hlist : IsList k.pcbNext ((k.queue w).subqueues i).head (a ++ p :: b) := hl ▸ (hrep.holds.holds (w, i)).list
  have hlen : a.length < maxProcesses + 1 := by
    have := hrep.length_le (w, i)
    rw [hl, List.length_append] at this
    omega
  unfold removeElement
  rw [seekElement_of_mem hlist hlen, Option.or_none]

/-- A linked PCB that is first in its subqueue, or not last, is taken out. -/
theorem removeElement_spec {a b : List PcbRef} (hrep : Rep k L) (hl : L (w, i) = a ++ p :: b) (hab : a = [] ∨ b ≠ []) :
    ∃ next q, removeElement w i p k = some (rtxSuccess, k.setQueue w next q) ∧
      Rep (k.setQueue w next q) (Function.update L (w, i) (a ++ b)) := by
  rw [removeElement_of_mem hrep hl]
  rcases List.eq_nil_or_concat a with rfl | ⟨a, y, rfl⟩
  · by_cases hb : b = []
    · subst hb
      obtain ⟨q, hs, hrep'⟩ := unlinkElement_only hrep hl
      exact ⟨_, q, by rw [List.getLast?_nil, hs]; rfl, hrep'⟩
    · obtain ⟨q, hs, hrep'⟩ := unlinkElement_first hrep hl hb
      exact ⟨_, q, by rw [List.getLast?_nil, hs]; rfl, hrep'⟩
  · have hb : b ≠ [] := hab.resolve_left (by simp)
    rw [List.concat_eq_append, List.append_assoc] at hl ⊢
    obtain ⟨next, hs, hrep'⟩ := unlinkElement_inner hrep hl hb
    exact ⟨next, _, by rw [List.getLast?_concat, hs]; rfl, hrep'⟩

/-- The last PCB of a longer subqueue. -/
theorem removeElement_last {a : List PcbRef} {y : PcbRef} (hrep : Rep k L) (hl : L (w, i) = a ++ [y, p]) :
    removeElement w i p k = some (rtxSuccess, k.setQueue w k.pcbNext
      ⟨(k.queue w).highestPrio, Function.update (k.queue w).subqueues i ⟨((k.queue w).subqueues i).head, some y⟩⟩) := by
  have hl' : L (w, i) = (a ++ [y]) ++ p :: [] := by rw [hl]; simp
  rw [removeElement_of_mem hrep hl', List.getLast?_concat, unlinkElement_last hrep hl]
  rfl

end
end DoorRtos
