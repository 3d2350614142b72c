import DoorRtos.Interaction
import DoorRtos.Runs

/-! Programs with a local state: what a call needs of it, what the call with its answer makes of it, and what is seen of
    the call; and the rules that say what holds at every moment of a run, and at its end. -/

namespace Interaction
open Runs

/-- Which calls may be made in a local state, and what they do to it. `ε` is what is seen of a call. -/
structure Effect (Op : Type) (Ans : Op → Type) (σ ε : Type) where
  ok : σ → Op → Prop
  act : σ → (op : Op) → Ans op → ε → σ → Prop

namespace Effect
variable {Op Op' : Type} {Ans : Op → Type} {Ans' : Op' → Type} {σ ε : Type}

/-- The effect of the calls that stand for others, with the same answers. -/
def pull (E : Effect Op' Ans' σ ε) (f : Op → Op') (back : ∀ op, Ans' (f op) → Ans op) : Effect Op Ans σ ε where
  ok s op := E.ok s (f op)
  act s op x e s' := ∃ y, back op y = x ∧ E.act s (f op) y e s'

end Effect

namespace Prog
variable {Op Op' : Type} {Ans : Op → Type} {Ans' : Op' → Type} {σ ε α β : Type}

/-- Every call of the program is in `good`, however the calls are answered. -/
def All (good : Op → Prop) : Prog Op Ans α → Prop
  | .ret _ => True
  | .call op next => good op ∧ ∀ x, (next x).All good

/-- One call of the program. -/
inductive Step (E : Effect Op Ans σ ε) : Prog Op Ans α × σ → ε → Prog Op Ans α × σ → Prop
  | call {op : Op} {next : Ans op → Prog Op Ans α} {s s' : σ} {x : Ans op} {e : ε} (h : E.act s op x e s') :
      Step E (.call op next, s) e (next x, s')

/-- However the calls are answered: every call may be made, at every moment `P` holds of what has been seen, and at the end
    `Q` holds, of the local state and of the result as well. -/
def Spec (E : Effect Op Ans σ ε) : Prog Op Ans α → σ → (List ε → Prop) → (List ε → σ → α → Prop) → Prop
  | .ret a, s, P, Q => P [] ∧ Q [] s a
  | .call op next, s, P, Q => P [] ∧ E.ok s op ∧
      ∀ x e s', E.act s op x e s' → (next x).Spec E s' (fun es => P (e :: es)) fun es => Q (e :: es)

section
variable {good : Op → Prop} {good' : Op' → Prop} {p : Prog Op Ans α} {f : α → Prog Op Ans β} {op : Op}

theorem All.perform (h : good op) : (perform op : Prog Op Ans (Ans op)).All good := ⟨h, fun _ => trivial⟩

theorem All.bind (hp : p.All good) (hf : ∀ a, (f a).All good) : (p >>= f).All good := by
  induction p with
  | ret a => exact hf a
  | call op next ih => exact ⟨hp.1, fun x => ih x (hp.2 x)⟩

theorem all_hoist {g : Op → Op'} {back : ∀ op, Ans' (g op) → Ans op} (h : p.All fun op => good' (g op)) :
    (p.hoist g back).All good' := by
  induction p with
  | ret a => trivial
  | call op next ih => exact ⟨h.1, fun y => ih (back op y) (h.2 (back op y))⟩

end

section
variable {E : Effect Op Ans σ ε} {p p' : Prog Op Ans α} {f : α → Prog Op Ans β} {op : Op} {next : Ans op → Prog Op Ans α}
  {s s' : σ} {es : List ε} {a : α} {P P' : List ε → Prop} {Q Q' : List ε → σ → α → Prop} {R : List ε → σ → β → Prop}

theorem Spec.ret (hP : P []) (hQ : Q [] s a) : (ret a : Prog Op Ans α).Spec E s P Q := ⟨hP, hQ⟩

theorem Spec.call (hP : P []) (hok : E.ok s op)
    (hn : ∀ x e s', E.act s op x e s' → (next x).Spec E s' (fun es => P (e :: es)) fun es => Q (e :: es)) :
    (call op next).Spec E s P Q := ⟨hP, hok, hn⟩

theorem Spec.imp (h : p.Spec E s P Q) (hP : ∀ es, P es → P' es) (hQ : ∀ es s a, Q es s a → Q' es s a) :
    p.Spec E s P' Q' := by
  induction p generalizing s P P' Q Q' with
  | ret a => exact ⟨hP [] h.1, hQ [] s a h.2⟩
  | call op next ih =>
    exact ⟨hP [] h.1, h.2.1, fun x e s' hact =>
      ih x (h.2.2 x e s' hact) (fun es => hP (e :: es)) fun es => hQ (e :: es)⟩

/-- The first part of a sequence has `P` throughout, and whatever it ends with, the second part does. -/
theorem Spec.bind (hp : p.Spec E s P Q)
    (hf : ∀ es s' a, Q es s' a → (f a).Spec E s' (fun es' => P (es ++ es')) fun es' => R (es ++ es')) :
    (p >>= f).Spec E s P R := by
  induction p generalizing s P Q R with
  | ret a => exact hf [] s a hp.2
  | call op next ih =>
    exact ⟨hp.1, hp.2.1, fun x e s' hact => ih x (hp.2.2 x e s' hact) fun es => hf (e :: es)⟩

theorem Spec.first (h : p.Spec E s P Q) : P [] := by
  cases p with
  | ret a => exact h.1
  | call op next => exact h.1

/-- What is specified of a program is specified of what is left of it after some of its steps. -/
theorem Spec.path {c c' : Prog Op Ans α × σ} (hpath : Path (Step E) c es c') (h : c.1.Spec E c.2 P Q) :
    c'.1.Spec E c'.2 (fun es' => P (es ++ es')) fun es' => Q (es ++ es') := by
  induction hpath generalizing P Q with
  | nil c => exact h
  | cons hs _ ih =>
    cases hs with
    | call hact => exact ih (h.2.2 _ _ _ hact)

/-- What is specified to hold at every moment holds after every run. -/
theorem Spec.throughout {c c' : Prog Op Ans α × σ} (h : c.1.Spec E c.2 P Q) (hpath : Path (Step E) c es c') : P es := by
  have hfirst := (h.path hpath).first
  rwa [List.append_nil] at hfirst

theorem spec_hoist {E : Effect Op' Ans' σ ε} {g : Op → Op'} {back : ∀ op, Ans' (g op) → Ans op} :
    (p.hoist g back).Spec E s P Q ↔ p.Spec (E.pull g back) s P Q := by
  induction p generalizing s P Q with
  | ret a => exact Iff.rfl
  | call op next ih =>
    refine and_congr_right fun _ => and_congr_right fun _ => ⟨fun h x e s' hact => ?_, fun h y e s' hact => ?_⟩
    · obtain ⟨y, rfl, hact⟩ := hact
      exact (ih (back op y)).mp (h y e s' hact)
    · exact (ih (back op y)).mpr (h (back op y) e s' ⟨y, rfl, hact⟩)

end
end Prog
end Interaction
