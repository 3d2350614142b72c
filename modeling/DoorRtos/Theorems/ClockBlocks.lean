import DoorRtos.Theorems.Display

/-! The blocks of the wall clock process, and of all processes that handle theirs with care. -/

namespace DoorRtos
open Interaction Network

/-- What a process holds, it still holds, except for the block `b`. -/
def Local.KeepsBut (b : Addr) (l l' : Local) : Prop := ∀ x ∈ l.held, x ≠ b → x ∈ l'.held

section
variable {pids : PcbRef → Nat} {p q : PcbRef} {l l' l'' : Local} {b e : Addr} {α β : Type} {code : Proc α}
  {f : α → ClockProc β} {R : Local → α → Prop} {T : Local → β → Prop} {delay h m s : Int}

theorem Local.Keeps.trans (h : l.Keeps l') (h' : l'.Keeps l'') : l.Keeps l'' := fun x hx => h' x (h x hx)

/-- A block that has just been requested, and has been handed over again. -/
theorem Local.KeepsBut.obtained {content : Content} (h : (l.obtain b content).KeepsBut b l') (hnew : b ∉ l.held) :
    l.Keeps l' :=
  fun x hx => h x (Local.mem_obtain.mpr (Or.inr hx)) fun he => hnew (he ▸ hx)

end

end DoorRtos
