import DoorRtos.Boot

/-! The memory pool and the calls on it: any process requests and releases blocks, while everything else in the
    kernel may change as it likes. -/

namespace DoorRtos
open Linked

/-- The kernel, the blocks that it has handed out and that have not come back, and a record of the order in which
    the blocks became free. -/
structure Pool where
  kernel : Kernel
  out : List Addr
  clock : Nat
  freeSince : Addr → Nat

inductive PoolEvent where
  | request
  | release (b : Addr)
  | elsewhere (k : Kernel)

namespace Pool

/-- Just after `init_free_memory`, which has freed one block in each round. -/
def start (img : Layout) (k : Kernel) : Pool := ⟨initFreeMemory img k, [], numMemBlocks, fun b => img.pool.idxOf b⟩

def step (s : Pool) : PoolEvent → Option Pool
  | .request =>
    match kernelRequestMemoryBlock s.kernel with
    | .returned (some b, k) => some { s with kernel := k, out := b :: s.out }
    | .returned (none, k) => some { s with kernel := k }
    | .switched k => some { s with kernel := k }
    | .stuck => none
  | .release b =>
    (kernelReleaseMemoryBlock b s.kernel).last.map fun k =>
      { kernel := k
        out := s.out.erase b
        clock := s.clock + 1
        freeSince := Function.update s.freeSince b s.clock }
  | .elsewhere k => some { s with kernel := { k with blockNext := s.kernel.blockNext, freeMemQ := s.kernel.freeMemQ } }

/-- Only a block that is handed out is released. -/
def OnlyHandedOut (s : Pool) : PoolEvent → Prop
  | .release b => b ∈ s.out
  | _ => True

/-- What a request does when `free` is free: it hands out the block that has been free the longest, and none when
    there is none. -/
structure Serves (s : Pool) (free : List Addr) : Prop where
  oldest : free ≠ [] → ∃ b k, kernelRequestMemoryBlock s.kernel = .returned (some b, k) ∧ b ∈ free ∧
    ∀ x ∈ free, s.freeSince b ≤ s.freeSince x
  nothing : free = [] → ∀ b k, kernelRequestMemoryBlock s.kernel ≠ .returned (some b, k)

/-- The free queue is a list from its head to its tail without repetition, and its blocks and those handed out
    make up the pool. -/
def Conserved (img : Layout) (s : Pool) : Prop :=
  ∃ free, Queue.Holds s.kernel.blockNext s.kernel.freeMemQ free ∧ (free ++ s.out).Nodup ∧
    (∀ b, b ∈ img.pool ↔ b ∈ free ∨ b ∈ s.out) ∧ s.Serves free

end Pool
end DoorRtos
