/-! Refinement of an abstract machine by a concrete one, both of which answer operations: the concrete one may
    get stuck, the abstract one never does. A relation that every allowed operation keeps, with equal answers,
    gives equal answers over every sequence of allowed operations. -/

namespace Refinement
variable {σ τ ω α : Type}

/-- The answers of the concrete machine to a sequence of operations, and its last state. -/
def run (step : σ → ω → Option (α × σ)) (s : σ) : List ω → Option (List α × σ)
  | [] => some ([], s)
  | o :: os =>
    match step s o with
    | none => none
    | some (a, s') => (run step s' os).map fun r => (a :: r.1, r.2)

/-- The answers of the abstract machine, and its last state. -/
def spec (op : τ → ω → α × τ) (t : τ) : List ω → List α × τ
  | [] => ([], t)
  | o :: os => ((op t o).1 :: (spec op (op t o).2 os).1, (spec op (op t o).2 os).2)

/-- Every operation of the sequence is allowed in the abstract state before it. -/
def AllAllowed (op : τ → ω → α × τ) (allowed : τ → ω → Prop) (t : τ) : List ω → Prop
  | [] => True
  | o :: os => allowed t o ∧ AllAllowed op allowed (op t o).2 os

section
variable {step : σ → ω → Option (α × σ)} {op : τ → ω → α × τ} {allowed : τ → ω → Prop} {R : σ → τ → Prop}

theorem run_refines
    (h : ∀ s t o, R s t → allowed t o → ∃ s', step s o = some ((op t o).1, s') ∧ R s' (op t o).2) :
    ∀ {os : List ω} {s : σ} {t : τ}, R s t → AllAllowed op allowed t os →
      ∃ s', run step s os = some ((spec op t os).1, s') ∧ R s' (spec op t os).2
  | [], s, _, hR, _ => ⟨s, rfl, hR⟩
  | o :: os, s, t, hR, hall => by
    obtain ⟨s₁, hs₁, hR₁⟩ := h s t o hR hall.1
    obtain ⟨s₂, hs₂, hR₂⟩ := run_refines h hR₁ hall.2
    refine ⟨s₂, ?_, hR₂⟩
    unfold run
    rw [hs₁]
    show (run step s₁ os).map _ = _
    rw [hs₂]
    rfl

/-- What holds of the abstract machine first and is kept by allowed operations holds at the end. -/
theorem spec_invariant {I : τ → Prop} (h : ∀ t o, I t → allowed t o → I (op t o).2) {os : List ω} {t : τ} (ht : I t)
    (hall : AllAllowed op allowed t os) : I (spec op t os).2 := by
  induction os generalizing t with
  | nil => exact ht
  | cons o os ih => exact ih (h t o ht hall.1) hall.2

end
end Refinement
