/-! Runs of a deterministic labelled transition system, and the rules that carry a property from one step
    to a whole run. An event that the system cannot take ends the run. The runs of other systems are at the end. -/

namespace Runs
variable {σ ε : Type} (step : σ → ε → Option σ)

/-- The state after a list of events. -/
def exec (s : σ) : List ε → Option σ
  | [] => some s
  | e :: es => (step s e).bind fun t => exec t es

/-- Every step of the run meets `C`, a condition on the event and on the state before it. -/
def Along (C : σ → ε → Prop) (s : σ) : List ε → Prop
  | [] => True
  | e :: es => ∀ t, step s e = some t → C s e ∧ Along C t es

/-- Every state of the run, the first and the last included, has `P`. -/
def Throughout (P : σ → Prop) (s : σ) : List ε → Prop
  | [] => P s
  | e :: es => P s ∧ ∀ t, step s e = some t → Throughout P t es

/-- The system that takes only steps that meet `C`. -/
def guarded (C : σ → ε → Prop) [∀ s e, Decidable (C s e)] (s : σ) (e : ε) : Option σ := if C s e then step s e else none

/-- Every event meets `C` in the state in which its turn comes. -/
def Meets (C : σ → ε → Prop) (s : σ) : List ε → Prop
  | [] => True
  | e :: es => C s e ∧ ∀ t, step s e = some t → Meets C t es

section
variable {step} {C : σ → ε → Prop} {P I : σ → Prop} {s t : σ} {e : ε} {es fs : List ε}

@[simp] theorem exec_nil : exec step s ([] : List ε) = some s := rfl

@[simp] theorem exec_cons : exec step s (e :: es) = (step s e).bind fun t => exec step t es := rfl

theorem exec_append : exec step s (es ++ fs) = (exec step s es).bind fun t => exec step t fs := by
  induction es generalizing s with
  | nil => rfl
  | cons e es ih =>
    rw [List.cons_append, exec_cons, exec_cons]
    cases step s e with
    | none => rfl
    | some u => exact ih

theorem Throughout.first (h : Throughout step P s es) : P s := by
  cases es with
  | nil => exact h
  | cons e es => exact h.1

theorem Throughout.imp {Q : σ → Prop} (hPQ : ∀ s, P s → Q s) (h : Throughout step P s es) : Throughout step Q s es := by
  induction es generalizing s with
  | nil => exact hPQ s h
  | cons e es ih => exact ⟨hPQ s h.1, fun t ht => ih (h.2 t ht)⟩

/-- What holds first and is kept by every step that meets `C` holds throughout a run whose steps all do. -/
theorem throughout_of_invariant (hstep : ∀ s e t, I s → C s e → step s e = some t → I t) (hs : I s)
    (hC : Along step C s es) : Throughout step I s es := by
  induction es generalizing s with
  | nil => exact hs
  | cons e es ih => exact ⟨hs, fun t ht => ih (hstep s e t hs (hC t ht).1 ht) (hC t ht).2⟩

/-- What holds first and is kept by every step that meets `C` holds after a run whose steps all do. -/
theorem exec_invariant (hstep : ∀ s e t, I s → C s e → step s e = some t → I t) (hs : I s) (hC : Along step C s es)
    (ht : exec step s es = some t) : I t := by
  induction es generalizing s with
  | nil => exact Option.some.inj ht ▸ hs
  | cons e es ih =>
    obtain ⟨u, hu, ht⟩ := Option.bind_eq_some_iff.mp ht
    exact ih (hstep s e u hs (hC u hu).1 hu) (hC u hu).2 ht

theorem Along.imp {D : σ → ε → Prop} (hCD : ∀ s e, C s e → D s e) (h : Along step C s es) : Along step D s es := by
  induction es generalizing s with
  | nil => trivial
  | cons e es ih => exact fun t ht => ⟨hCD s e (h t ht).1, ih (h t ht).2⟩

theorem Along.left (h : Along step C s (es ++ fs)) : Along step C s es := by
  induction es generalizing s with
  | nil => trivial
  | cons e es ih => exact fun t ht => ⟨(h t ht).1, ih (h t ht).2⟩

theorem Along.right (h : Along step C s (es ++ fs)) (hs : exec step s es = some t) : Along step C t fs := by
  induction es generalizing s with
  | nil =>
    cases hs
    exact h
  | cons e es ih =>
    obtain ⟨u, hu, hs⟩ := Option.bind_eq_some_iff.mp hs
    exact ih (h u hu).2 hs

theorem Along.and_forall {p : ε → Prop} (h : Along step C s es) (hp : ∀ e ∈ es, p e) :
    Along step (fun s e => C s e ∧ p e) s es := by
  induction es generalizing s with
  | nil => trivial
  | cons e es ih =>
    exact fun t ht => ⟨⟨(h t ht).1, hp e List.mem_cons_self⟩,
      ih (h t ht).2 fun e' he' => hp e' (List.mem_cons_of_mem e he')⟩

/-- The steps of a run of the guarded system all meet its condition. -/
theorem along_of_guarded [∀ s e, Decidable (C s e)] (h : exec (guarded step C) s es = some t) :
    Along step C s es ∧ exec step s es = some t := by
  induction es generalizing s with
  | nil => exact ⟨trivial, h⟩
  | cons e es ih =>
    obtain ⟨u, hu, h⟩ := Option.bind_eq_some_iff.mp h
    obtain ⟨hC, hu⟩ := Option.ite_none_right_eq_some.mp hu
    obtain ⟨halong, hexec⟩ := ih h
    refine ⟨fun v hv => ⟨hC, ?_⟩, by rw [exec_cons, hu]; exact hexec⟩
    cases hu.symm.trans hv
    exact halong

/-- What holds first and is kept by every step holds throughout every run. -/
theorem throughout_of_preserved (hstep : ∀ s e t, I s → step s e = some t → I t) (hs : I s) : Throughout step I s es := by
  induction es generalizing s with
  | nil => exact hs
  | cons e es ih => exact ⟨hs, fun t ht => ih (hstep s e t hs ht)⟩

theorem Meets.left (h : Meets step C s (es ++ fs)) : Meets step C s es := by
  induction es generalizing s with
  | nil => trivial
  | cons e es ih => exact ⟨h.1, fun t ht => ih (h.2 t ht)⟩

theorem Meets.right (h : Meets step C s (es ++ fs)) (hs : exec step s es = some t) : Meets step C t fs := by
  induction es generalizing s with
  | nil =>
    cases hs
    exact h
  | cons e es ih =>
    obtain ⟨u, hu, hs⟩ := Option.bind_eq_some_iff.mp hs
    exact ih (h.2 u hu) hs

/-- What every event of the list meets in every state, each of them meets in its turn. -/
theorem meets_of_forall (h : ∀ e ∈ es, ∀ s, C s e) : Meets step C s es := by
  induction es generalizing s with
  | nil => trivial
  | cons e es ih =>
    exact ⟨h e List.mem_cons_self s, fun t _ => ih fun e' he' => h e' (List.mem_cons_of_mem e he')⟩

/-- What every event meets under an invariant that every step keeps, each event of a run meets in its turn. -/
theorem meets_of_preserved (hC : ∀ s e, I s → C s e) (hstep : ∀ s e t, I s → step s e = some t → I t) (hs : I s) :
    Meets step C s es := by
  induction es generalizing s with
  | nil => trivial
  | cons e es ih => exact ⟨hC s e hs, fun t ht => ih (hstep s e t hs ht)⟩

/-- Two conditions that agree under an invariant that every step keeps are met by the same runs. -/
theorem meets_congr {D : σ → ε → Prop} (hCD : ∀ s e, I s → (C s e ↔ D s e)) (hstep : ∀ s e t, I s → step s e = some t → I t)
    (hs : I s) : Meets step C s es ↔ Meets step D s es := by
  induction es generalizing s with
  | nil => exact Iff.rfl
  | cons e es ih => exact and_congr (hCD s e hs) (forall_congr' fun t => forall_congr' fun ht => ih (hstep s e t hs ht))

/-- Of two systems that take corresponding events, related by `R` as long as the first one goes on, the first one meets
    its condition where the second one meets its own. -/
theorem Meets.transfer {σ' ε' ι : Type} {step' : σ' → ε' → Option σ'} {D : σ' → ε' → Prop} {R : σ → σ' → Prop} {f : ι → ε}
    {g : ι → ε'} {is : List ι} {s' : σ'} (hC : ∀ i s s', R s s' → D s' (g i) → C s (f i))
    (hstep : ∀ i s s' t, R s s' → D s' (g i) → step s (f i) = some t → ∃ t', step' s' (g i) = some t' ∧ R t t')
    (hR : R s s') (h : Meets step' D s' (is.map g)) : Meets step C s (is.map f) := by
  induction is generalizing s s' with
  | nil => trivial
  | cons i is ih =>
    refine ⟨hC i s s' hR h.1, fun t ht => ?_⟩
    obtain ⟨t', ht', hR'⟩ := hstep i s s' t hR h.1 ht
    exact ih hR' (h.2 t' ht')

/-- A system that can take every event that meets `C`, and keeps the invariant, takes a whole run of them. -/
theorem exec_of_progress (hstep : ∀ s e, I s → C s e → ∃ t, step s e = some t ∧ I t) (hs : I s) (hC : Meets step C s es) :
    ∃ t, exec step s es = some t ∧ I t := by
  induction es generalizing s with
  | nil => exact ⟨s, rfl, hs⟩
  | cons e es ih =>
    obtain ⟨u, hu, hIu⟩ := hstep s e hs hC.1
    obtain ⟨t, ht, hIt⟩ := ih hIu (hC.2 u hu)
    exact ⟨t, by rw [exec_cons, hu]; exact ht, hIt⟩

/-- A bound that every step lowers bounds the length of a run. -/
theorem length_le_of_exec {p : ε → Prop} {R : σ → Nat → Prop} {n : Nat}
    (hstep : ∀ s n e t, R s n → p e → step s e = some t → ∃ m < n, R t m) (hs : R s n) (hp : ∀ e ∈ es, p e)
    (ht : exec step s es = some t) : es.length ≤ n := by
  induction es generalizing s n with
  | nil => exact Nat.zero_le n
  | cons e es ih =>
    obtain ⟨u, hu, ht⟩ := Option.bind_eq_some_iff.mp ht
    obtain ⟨m, hm, hRu⟩ := hstep s n e u hs (hp e List.mem_cons_self) hu
    have := ih hRu (fun e' he' => hp e' (List.mem_cons_of_mem e he')) ht
    rw [List.length_cons]
    omega

theorem along_of_forall (h : ∀ e ∈ es, ∀ s, C s e) : Along step C s es := by
  induction es generalizing s with
  | nil => trivial
  | cons e es ih =>
    exact fun t _ => ⟨h e List.mem_cons_self s, ih fun e' he' => h e' (List.mem_cons_of_mem e he')⟩

/-- When, among the steps that meet `B`, one that meets `C` keeps the invariant and one that does not ends in a state
    without `P`, `P` holds throughout exactly those runs of steps that meet `B` whose steps all meet `C`. -/
theorem throughout_iff_along_within {B : σ → ε → Prop} (hP : ∀ s, I s → P s)
    (hgood : ∀ s e t, I s → B s e → C s e → step s e = some t → I t)
    (hbad : ∀ s e t, I s → B s e → ¬C s e → step s e = some t → ¬P t) (hs : I s) (hB : Along step B s es) :
    Throughout step P s es ↔ Along step C s es := by
  induction es generalizing s with
  | nil => exact iff_of_true (hP s hs) trivial
  | cons e es ih =>
    constructor
    · intro h t ht
      have hC : C s e := Classical.byContradiction fun hn => hbad s e t hs (hB t ht).1 hn ht (h.2 t ht).first
      exact ⟨hC, (ih (hgood s e t hs (hB t ht).1 hC ht) (hB t ht).2).mp (h.2 t ht)⟩
    · intro h
      exact ⟨hP s hs, fun t ht =>
        (ih (hgood s e t hs (hB t ht).1 (h t ht).1 ht) (hB t ht).2).mpr (h t ht).2⟩

/-- When a step that meets `C` keeps the invariant, and one that does not ends in a state without `P`,
    `P` holds throughout exactly the runs whose steps all meet `C`. -/
theorem throughout_iff_along (hP : ∀ s, I s → P s) (hgood : ∀ s e t, I s → C s e → step s e = some t → I t)
    (hbad : ∀ s e t, I s → ¬C s e → step s e = some t → ¬P t) (hs : I s) :
    Throughout step P s es ↔ Along step C s es :=
  throughout_iff_along_within (B := fun _ _ => True) hP (fun s e t h _ => hgood s e t h) (fun s e t h _ => hbad s e t h) hs
    (along_of_forall fun _ _ _ => trivial)

end

/-! ### Systems that may go on in several ways -/

/-- A run of labelled steps, with the labels. -/
inductive Path {σ ε : Type} (step : σ → ε → σ → Prop) : σ → List ε → σ → Prop
  | nil (s : σ) : Path step s [] s
  | cons {s t u : σ} {e : ε} {es : List ε} (h : step s e t) (hp : Path step t es u) : Path step s (e :: es) u

theorem Path.append {σ ε : Type} {step : σ → ε → σ → Prop} {s t u : σ} {es fs : List ε} (hp : Path step s es t)
    (hq : Path step t fs u) : Path step s (es ++ fs) u := by
  induction hp with
  | nil s => exact hq
  | cons h _ ih => exact .cons h (ih hq)

end Runs
