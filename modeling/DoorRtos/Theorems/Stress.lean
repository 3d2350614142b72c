import DoorRtos.Boot
import DoorRtos.Theorems.ProcessC1
import DoorRtos.Theorems.ProcessC2

/-! What becomes of the blocks and of the reports that the two consumers receive. -/

namespace DoorRtos

/-- The reports have been examined in the order in which they arrived, as far as they have been. The consumer cannot stop
    before it has examined them all, except at a request for a block, and comes to a stop when no report arrives. -/
structure ExaminesInOrder {σ : Type} (step : σ → ConsumerEvent → Option σ) (consumer : σ → Consumer)
    (requests : σ → Prop) (s : σ) :
    Prop where
  order : (consumer s).examined <+: (consumer s).arrived
  rest : (∀ ev, ev.isReport = false → step s ev = none) → (consumer s).examined = (consumer s).arrived ∨ requests s
  finite : ∃ n, ∀ es t, (∀ ev ∈ es, ev.isReport = false) → Runs.exec step s es = some t → es.length ≤ n

/-- A consumer whose invariant orders its reports, says why it stops, and bounds the steps before the next report. -/
theorem examinesInOrder_throughout {σ : Type} {step : σ → ConsumerEvent → Option σ} {consumer : σ → Consumer}
    {requests : σ → Prop} {I : σ → List Addr → List Addr → Prop} {W : σ → List Addr → Nat} {s₀ : σ}
    {L₀ lost₀ : List Addr} {es : List ConsumerEvent}
    (horder : ∀ s L lost, I s L lost → (consumer s).examined <+: (consumer s).arrived)
    (hrest : ∀ s L lost, I s L lost → (∀ ev, ev.isReport = false → step s ev = none) →
      (consumer s).examined = (consumer s).arrived ∨ requests s)
    (hstep : ∀ s t L lost ev, I s L lost → step s ev = some t →
      ∃ L' lost', I t L' lost' ∧ (ev.isReport = false → W t L' < W s L))
    (h₀ : I s₀ L₀ lost₀) : Runs.Throughout step (ExaminesInOrder step consumer requests) s₀ es := by
  refine (Runs.throughout_of_preserved (I := fun s => ∃ L lost, I s L lost) (fun s ev t h hs => ?_)
    ⟨L₀, lost₀, h₀⟩).imp fun s h => ?_
  · obtain ⟨L, lost, h⟩ := h
    obtain ⟨L', lost', h', -⟩ := hstep s t L lost ev h hs
    exact ⟨L', lost', h'⟩
  · obtain ⟨L, lost, h⟩ := h
    refine ⟨horder s L lost h, hrest s L lost h, W s L, fun es t hes ht => ?_⟩
    -- The rank of a state is the work left under a list that the invariant gives for its local queue.
    refine Runs.length_le_of_exec (R := fun s n => ∃ L lost, I s L lost ∧ W s L = n) (fun s n ev t hR hev hs => ?_)
      ⟨L, lost, h, rfl⟩ hes ht
    obtain ⟨L, lost, h, rfl⟩ := hR
    obtain ⟨L', lost', h', hwork⟩ := hstep s t L lost ev h hs
    exact ⟨W t L', hwork hev, L', lost', h', rfl⟩

/-- In every run, whatever reports arrive and whenever the consumers' own messages come back. -/
theorem consumers_in_order (messNext : Linked.Links Addr) (contents : Addr → Content) (es : List ConsumerEvent) :
    Runs.Throughout C1.step (ExaminesInOrder C1.step C1.toConsumer fun s => s.pc = .request ∨ s.pc = .printRequest)
      (C1.start messNext contents) es ∧
    Runs.Throughout C2.step (ExaminesInOrder C2.step C2.toConsumer fun s => s.pc = .request ∨ s.pc = .printRequest)
      (C2.start messNext contents) es := by
  constructor
  · refine examinesInOrder_throughout (I := C1.Inv) (W := C1.work) (fun s L lost h => ⟨_, h.working.order.symm⟩)
      (fun s L lost h hno => ?_) (fun s t L lost ev h hs => ?_) (.start messNext contents)
    · exact h.rest (Option.map_eq_none_iff.mp (hno .wakeup rfl)) (hno .run rfl)
    · obtain ⟨L', h', hwork⟩ := h.step hs
      exact ⟨L', _, h', hwork⟩
  · refine examinesInOrder_throughout (I := C2.Inv) (W := C2.work) (fun s L lost h => ⟨_, h.working.order.symm⟩)
      (fun s L lost h hno => ?_) (fun s t L lost ev h hs => ?_) (.start messNext contents)
    · exact h.rest (Option.map_eq_none_iff.mp (hno .wakeup rfl)) (hno .run rfl)
    · obtain ⟨L', h', hwork⟩ := h.step hs
      exact ⟨L', _, h', hwork⟩

/-- Every block is accounted for at every moment of exactly those runs in which `process_c1` requests a block for no second
    report that is divisible by 20, and `process_c2` takes no message after such a report. -/
theorem consumers_accounted_iff (messNext : Linked.Links Addr) (contents : Addr → Content) (es : List ConsumerEvent) :
    (Runs.Throughout C1.step (fun s => s.Accounted s.pointers) (C1.start messNext contents) es ↔
      Runs.Along C1.step C1.Spares (C1.start messNext contents) es) ∧
    (Runs.Throughout C2.step (fun s => s.Accounted s.pointers) (C2.start messNext contents) es ↔
      Runs.Along C2.step C2.Spares (C2.start messNext contents) es) :=
  ⟨C1.accounted_iff messNext contents es, C2.accounted_iff messNext contents es⟩

/-- The data of a report with a small number. -/
def reportData (num : UInt8) : Nat → UInt8 := fun i => if i = 3 then num else 0

/-- A block that has not been given away as often as obtained, and that nothing leads to. -/
theorem exists_not_accounted {σ : Type} (consumer : σ → Consumer) (pointers : σ → List (Option Addr)) (a : Addr)
    {o : Option σ} (h : (o.any fun s => decide ((consumer s).obtained.count a ≠ (consumer s).given.count a ∧
      (consumer s).queue.head = none ∧ some a ∉ pointers s)) = true) :
    ∃ s, o = some s ∧ ¬(consumer s).Accounted (pointers s) := by
  obtain ⟨s, rfl, hend⟩ := Option.any_eq_true _ _ |>.mp h
  obtain ⟨hcount, hhead, hp⟩ := of_decide_eq_true hend
  refine ⟨s, rfl, fun hacc => ?_⟩
  rcases hacc a with heq | ⟨-, hr | hr⟩
  · exact hcount heq.symm
  · exact hp hr
  · rw [hhead] at hr
    cases hr

/-- `process_c1` is sent the reports 0 and 20, and `process_c2` the reports 0 and 1. The block in `q` is lost to the one,
    and the report 0 to the other. -/
theorem consumers_leak :
    (∃ s, Runs.exec C1.step (C1.start (fun _ => none) fun _ => ⟨0, fun _ => 0⟩)
        [.report (rtosMap.block 0) (reportData 0), .report (rtosMap.block 1) (reportData 20), .run, .run,
          .grant (rtosMap.block 2), .grant (rtosMap.block 3), .run, .run, .run, .run, .run, .wakeup, .run, .run, .run, .run,
          .run, .run, .grant (rtosMap.block 4)] = some s ∧ ¬s.Accounted s.pointers) ∧
    ∃ s, Runs.exec C2.step (C2.start (fun _ => none) fun _ => ⟨0, fun _ => 0⟩)
        [.grant (rtosMap.block 2), .report (rtosMap.block 0) (reportData 0), .report (rtosMap.block 1) (reportData 1), .run,
          .run, .grant (rtosMap.block 3), .run, .run, .run, .run, .run, .wakeup, .run, .run, .run, .run] = some s ∧
      ¬s.Accounted s.pointers :=
  ⟨exists_not_accounted C1.toConsumer C1.pointers (rtosMap.block 2) (by decide +kernel),
    exists_not_accounted C2.toConsumer C2.pointers (rtosMap.block 0) (by decide +kernel)⟩

end DoorRtos
