import DoorRtos.Pool
import DoorRtos.Runs
import DoorRtos.Theorems.Boot
import DoorRtos.Theorems.Stores

/-! The memory pool is conserved: a request takes the oldest free block, a release adds the newest, and nothing
    else touches the free queue. -/

namespace DoorRtos
open Linked

/-- The blocks of `free` are free, the newest first, and with those handed out they make up the pool. -/
structure Pool.Keeping (img : Layout) (s : Pool) (free : List Addr) : Prop where
  holds : Queue.Holds s.kernel.blockNext s.kernel.freeMemQ free
  perm : (free ++ s.out).Perm img.pool
  sorted : free.Pairwise fun x y => s.freeSince y < s.freeSince x
  before : ∀ x ∈ free, s.freeSince x < s.clock

section
variable {img : Layout} {s s' : Pool} {free : List Addr} {b : Addr} {k k' : Kernel}

/-! ### The layout -/

/-- The bytes of different blocks are apart. -/
theorem Layout.block_apart (img : Layout) {i j : Fin numMemBlocks} (hij : i ≠ j) :
    (img.block i).val + sizeofMemoryBlock ≤ (img.block j).val ∨
      (img.block j).val + sizeofMemoryBlock ≤ (img.block i).val := by
  have hne : i.val ≠ j.val := fun h => hij (Fin.ext h)
  rcases Nat.lt_or_gt_of_ne hne with hlt | hgt
  · left
    have hmul := Nat.mul_le_mul_right sizeofMemoryBlock (Nat.succ_le_of_lt hlt)
    rw [Nat.succ_mul] at hmul
    show img.endAddr + i.val * sizeofMemoryBlock + sizeofMemoryBlock ≤ img.endAddr + j.val * sizeofMemoryBlock
    omega
  · right
    have hmul := Nat.mul_le_mul_right sizeofMemoryBlock (Nat.succ_le_of_lt hgt)
    rw [Nat.succ_mul] at hmul
    show img.endAddr + j.val * sizeofMemoryBlock + sizeofMemoryBlock ≤ img.endAddr + i.val * sizeofMemoryBlock
    omega

/-! ### The calls -/

/-- The oldest free block is handed out. -/
theorem request_take (hh : Queue.Holds k.blockNext k.freeMemQ (free ++ [b])) :
    ∃ next q, kernelRequestMemoryBlock k = .returned (some b, { k with blockNext := next, freeMemQ := q }) ∧
      Queue.Holds next q free := by
  obtain ⟨next, q, hs, hh', -⟩ := hh.shift (Addr.length_le hh.nodup)
  exact ⟨next, q, kernelRequestMemoryBlock_take hs, hh'⟩

/-- Nothing is handed out when no block is free, and the free queue stays as it is. -/
theorem request_none (hh : Queue.Holds k.blockNext k.freeMemQ []) :
    (∀ b k', kernelRequestMemoryBlock k ≠ .returned (some b, k')) ∧
      ∀ k', (kernelRequestMemoryBlock k).last = some k' → k'.blockNext = k.blockNext ∧ k'.freeMemQ = k.freeMemQ := by
  have hdeq : dequeueMemoryBlockFIFO k.blockNext k.freeMemQ = some (none, k.blockNext, k.freeMemQ) := hh.shift_nil
  constructor
  · intro b k' ho
    obtain ⟨next, q, hdeq', -, -⟩ := kernelRequestMemoryBlock_returned ho
    cases hdeq.symm.trans hdeq'
  · intro k' hs
    rcases Outcome.last_eq_some.mp hs with ⟨o, ho⟩ | ho
    · obtain ⟨next, q, hdeq', he, -⟩ := kernelRequestMemoryBlock_returned ho
      cases hdeq.symm.trans hdeq'
      rw [he]
      exact ⟨rfl, rfl⟩
    · obtain ⟨next, q, k₂, hdeq', hput, hrun⟩ := kernelRequestMemoryBlock_switched ho
      cases hdeq.symm.trans hdeq'
      have hres := ((Rescheduled.setState { k with blockNext := k.blockNext, freeMemQ := k.freeMemQ } k.currentPcb
        .memoryWait).trans (enqueuePCBByPriority_rescheduled hput)).trans (runNext_rescheduled hrun)
      exact ⟨hres.blockNext, hres.freeMemQ⟩

/-- A request while a block is free: the oldest one is handed out. -/
theorem Pool.step_request_take (hh : Queue.Holds s.kernel.blockNext s.kernel.freeMemQ (free ++ [b])) :
    ∃ next q, s.step .request =
        some { s with kernel := { s.kernel with blockNext := next, freeMemQ := q }, out := b :: s.out } ∧
      Queue.Holds next q free := by
  obtain ⟨next, q, ho, hh'⟩ := request_take hh
  refine ⟨next, q, ?_, hh'⟩
  unfold Pool.step
  rw [ho]

/-! ### The invariant -/

theorem Pool.Keeping.nodup (h : s.Keeping img free) : (free ++ s.out).Nodup := h.perm.nodup_iff.mpr img.pool_nodup

theorem Pool.Keeping.serves (h : s.Keeping img free) : s.Serves free where
  oldest hne := by
    obtain ⟨l, b, rfl⟩ := (List.eq_nil_or_concat free).resolve_left hne
    rw [List.concat_eq_append] at h ⊢
    obtain ⟨next, q, hs, -⟩ := request_take h.holds
    refine ⟨b, _, hs, List.mem_append_right l List.mem_cons_self, fun x hx => ?_⟩
    rcases List.mem_append.mp hx with hx | hx
    · exact Nat.le_of_lt ((List.pairwise_append.mp h.sorted).2.2 x hx b List.mem_cons_self)
    · rw [List.mem_singleton.mp hx]
  nothing hnil := (request_none (hnil ▸ h.holds)).1

theorem Pool.Keeping.conserved (h : s.Keeping img free) : s.Conserved img := by
  refine ⟨free, h.holds, h.nodup, fun b => ?_, h.serves⟩
  rw [← h.perm.mem_iff, List.mem_append]

theorem Pool.keeping_start (img : Layout) (k : Kernel) : (Pool.start img k).Keeping img img.pool.reverse where
  holds := initFreeMemory_holds img k
  perm := by
    rw [show (Pool.start img k).out = [] from rfl, List.append_nil]
    exact img.pool.reverse_perm
  sorted := by
    rw [List.pairwise_reverse]
    refine List.pairwise_iff_getElem.mpr fun i j hi hj hij => ?_
    show img.pool.idxOf img.pool[i] < img.pool.idxOf img.pool[j]
    rw [img.pool_nodup.idxOf_getElem, img.pool_nodup.idxOf_getElem]
    exact hij
  before x hx := by
    have hlt := List.idxOf_lt_length_of_mem (List.mem_reverse.mp hx)
    have hlen : img.pool.length = numMemBlocks := by rw [Layout.pool, List.length_map, List.length_finRange]
    rwa [hlen] at hlt

theorem Pool.Keeping.request (h : s.Keeping img free) (hs : s.step .request = some s') : ∃ free', s'.Keeping img free' := by
  rcases List.eq_nil_or_concat free with rfl | ⟨l, b, rfl⟩
  · obtain ⟨hnone, hsame⟩ := request_none h.holds
    have hkeep : ∀ k, (kernelRequestMemoryBlock s.kernel).last = some k → Pool.Keeping img { s with kernel := k } [] :=
      fun k hk => by
        obtain ⟨hnext, hq⟩ := hsame k hk
        refine ⟨?_, h.perm, h.sorted, h.before⟩
        show Queue.Holds k.blockNext k.freeMemQ []
        rw [hnext, hq]
        exact h.holds
    unfold Pool.step at hs
    cases ho : kernelRequestMemoryBlock s.kernel with
    | returned r =>
      obtain ⟨_ | b, k⟩ := r
      · rw [ho] at hs hkeep
        cases hs
        exact ⟨[], hkeep k rfl⟩
      · exact absurd ho (hnone b k)
    | switched k =>
      rw [ho] at hs hkeep
      cases hs
      exact ⟨[], hkeep k rfl⟩
    | stuck =>
      rw [ho] at hs
      cases hs
  · rw [List.concat_eq_append] at h
    obtain ⟨next, q, hs', hh⟩ := Pool.step_request_take h.holds
    cases hs'.symm.trans hs
    refine ⟨l, hh, ?_, (List.pairwise_append.mp h.sorted).1, fun x hx => h.before x (List.mem_append_left [b] hx)⟩
    show (l ++ b :: s.out).Perm img.pool
    rw [List.append_cons]
    exact h.perm

theorem Pool.Keeping.release (h : s.Keeping img free) (hb : b ∈ s.out) (hs : s.step (.release b) = some s') :
    ∃ free', s'.Keeping img free' := by
  obtain ⟨k, hk, rfl⟩ := Option.map_eq_some_iff.mp hs
  have hres := kernelReleaseMemoryBlock_stores hk
  have hbfree : b ∉ free := fun hmem => (List.nodup_append.mp h.nodup).2.2 b hmem b hb rfl
  have hsince : ∀ x ∈ free, Function.update s.freeSince b s.clock x = s.freeSince x := fun x hx =>
    Function.update_of_ne (fun e : x = b => hbfree (e ▸ hx)) _ _
  refine ⟨b :: free, ?_, ?_, List.pairwise_cons.mpr ⟨fun x hx => ?_, ?_⟩, fun x hx => ?_⟩
  · show Queue.Holds k.blockNext k.freeMemQ (b :: free)
    rw [hres.blockNext, hres.freeMemQ]
    exact h.holds.push hbfree
  · show (b :: free ++ s.out.erase b).Perm img.pool
    refine List.Perm.trans ?_ h.perm
    exact List.perm_middle.symm.trans (List.Perm.append_left free (List.perm_cons_erase hb).symm)
  · show Function.update s.freeSince b s.clock x < Function.update s.freeSince b s.clock b
    rw [hsince x hx, Function.update_self]
    exact h.before x hx
  · refine h.sorted.imp_of_mem fun {x y} hx hy hlt => ?_
    show Function.update s.freeSince b s.clock y < Function.update s.freeSince b s.clock x
    rw [hsince x hx, hsince y hy]
    exact hlt
  · show Function.update s.freeSince b s.clock x < s.clock + 1
    rcases List.mem_cons.mp hx with rfl | hx
    · rw [Function.update_self]
      exact Nat.lt_succ_self _
    · rw [hsince x hx]
      exact Nat.lt_succ_of_lt (h.before x hx)

theorem Pool.Keeping.step {e : PoolEvent} (h : s.Keeping img free) (hok : s.OnlyHandedOut e) (hs : s.step e = some s') :
    ∃ free', s'.Keeping img free' := by
  cases e with
  | request => exact h.request hs
  | release b => exact h.release hok hs
  | elsewhere k =>
    cases hs
    exact ⟨free, h.holds, h.perm, h.sorted, h.before⟩

end

/-- In every run in which only blocks that are handed out are released, the pool is conserved; its blocks are
    `NUM_MEM_BLOCKS` pieces of memory apart from each other. -/
theorem pool_conserved (img : Layout) (k : Kernel) {es : List PoolEvent}
    (hes : Runs.Along Pool.step Pool.OnlyHandedOut (.start img k) es) :
    Runs.Throughout Pool.step (Pool.Conserved img) (.start img k) es ∧
      ∀ i j, i ≠ j → (img.block i).val + sizeofMemoryBlock ≤ (img.block j).val ∨
        (img.block j).val + sizeofMemoryBlock ≤ (img.block i).val := by
  refine ⟨?_, fun i j hij => img.block_apart hij⟩
  have hinv := Runs.throughout_of_invariant (I := fun s : Pool => ∃ free, s.Keeping img free) (fun s e s' hI hok hs => by
    obtain ⟨free, hkeep⟩ := hI
    exact hkeep.step hok hs) ⟨_, Pool.keeping_start img k⟩ hes
  exact hinv.imp fun s hI => by
    obtain ⟨free, hkeep⟩ := hI
    exact hkeep.conserved

/-- The block carved first is handed out first, and its holder may release it. -/
theorem pool_conserved_first_block :
    Runs.Throughout Pool.step (Pool.Conserved rtosMap) (.start rtosMap zeroed) [.request, .release firstBlock] := by
  have hfirst : ∃ l, rtosMap.pool = firstBlock :: l := ⟨_, by unfold Layout.pool; rw [List.finRange_succ]; rfl⟩
  have hhold : ∀ s, (Pool.start rtosMap zeroed).step .request = some s → firstBlock ∈ s.out := fun s hs => by
    obtain ⟨l, hl⟩ := hfirst
    have hh := (Pool.keeping_start rtosMap zeroed).holds
    rw [hl, List.reverse_cons] at hh
    obtain ⟨next, q, hs', -⟩ := Pool.step_request_take hh
    rw [Option.some.inj (hs.symm.trans hs')]
    exact List.mem_cons_self
  have hrun : Runs.Along Pool.step Pool.OnlyHandedOut (.start rtosMap zeroed) [.request, .release firstBlock] :=
    fun s hs => ⟨trivial, fun _ _ => ⟨hhold s hs, trivial⟩⟩
  exact (pool_conserved rtosMap zeroed hrun).1

end DoorRtos
