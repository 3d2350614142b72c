import Mathlib.Data.List.Basic

/-! Programs that call on their surroundings and go on with what they are answered, the histories of calls and answers
    that they can have, and the rules that put together what holds of the histories of their parts. -/

namespace Interaction

/-- A program over the calls `Op`, each with the type of its answers. -/
inductive Prog (Op : Type) (Ans : Op → Type) (α : Type) where
  | ret (a : α)
  | call (op : Op) (next : Ans op → Prog Op Ans α)

/-- A call with its answer. -/
abbrev Event (Op : Type) (Ans : Op → Type) := (op : Op) × Ans op

abbrev History (Op : Type) (Ans : Op → Type) := List (Event Op Ans)

namespace Prog
variable {Op : Type} {Ans : Op → Type} {α β : Type}

def bind : Prog Op Ans α → (α → Prog Op Ans β) → Prog Op Ans β
  | ret a, f => f a
  | call op next, f => call op fun x => bind (next x) f

instance : Monad (Prog Op Ans) where
  pure := ret
  bind := bind

/-- One call, with its answer as the result. -/
def perform (op : Op) : Prog Op Ans (Ans op) := call op ret

/-- The program over other calls, one for each of its own. -/
def hoist {Op' : Type} {Ans' : Op' → Type} (f : Op → Op') (back : ∀ op, Ans' (f op) → Ans op) :
    Prog Op Ans α → Prog Op' Ans' α
  | ret a => ret a
  | call op next => call (f op) fun x => hoist f back (next (back op x))

/-- The program can end with the result `a` after the history `h`. -/
inductive Does : Prog Op Ans α → History Op Ans → α → Prop
  | ret (a : α) : Does (.ret a) [] a
  | call {op : Op} {next : Ans op → Prog Op Ans α} {x : Ans op} {h : History Op Ans} {a : α} (hn : Does (next x) h a) :
      Does (.call op next) (⟨op, x⟩ :: h) a

/-- Every history after which the program ends, and its result, are in `Q`. -/
def Sat (p : Prog Op Ans α) (Q : History Op Ans → α → Prop) : Prop := ∀ h a, Does p h a → Q h a

section
variable {p : Prog Op Ans α} {f : α → Prog Op Ans β} {op : Op} {next : Ans op → Prog Op Ans α} {h : History Op Ans}
  {a b : α} {Q : History Op Ans → α → Prop} {R : History Op Ans → β → Prop}

@[simp] theorem ret_bind (a : α) (f : α → Prog Op Ans β) : (ret a >>= f) = f a := rfl

@[simp] theorem call_bind (op : Op) (next : Ans op → Prog Op Ans α) (f : α → Prog Op Ans β) :
    (call op next >>= f) = call op fun x => next x >>= f := rfl

@[simp] theorem perform_bind (op : Op) (f : Ans op → Prog Op Ans β) : (perform op >>= f) = call op f := rfl

@[simp] theorem does_ret : Does (ret a : Prog Op Ans α) h b ↔ h = [] ∧ b = a := by
  constructor
  · intro hd
    cases hd
    exact ⟨rfl, rfl⟩
  · rintro ⟨rfl, rfl⟩
    exact .ret b

@[simp] theorem does_call : Does (call op next) h a ↔ ∃ x h', h = ⟨op, x⟩ :: h' ∧ Does (next x) h' a := by
  constructor
  · intro hd
    cases hd with
    | call hn => exact ⟨_, _, rfl, hn⟩
  · rintro ⟨x, h', rfl, hn⟩
    exact .call hn

/-- A program whose calls can all be answered has a history. -/
theorem exists_does [∀ op, Nonempty (Ans op)] (p : Prog Op Ans α) : ∃ h a, Does p h a := by
  induction p with
  | ret a => exact ⟨[], a, .ret a⟩
  | call op next ih =>
    obtain ⟨x⟩ := (inferInstance : Nonempty (Ans op))
    obtain ⟨h, a, hd⟩ := ih x
    exact ⟨⟨op, x⟩ :: h, a, .call hd⟩

/-- The histories of a sequence are those of its two parts, one behind the other. -/
theorem does_bind {b : β} : Does (p >>= f) h b ↔ ∃ h₁ a h₂, h = h₁ ++ h₂ ∧ Does p h₁ a ∧ Does (f a) h₂ b := by
  induction p generalizing h with
  | ret a =>
    rw [ret_bind]
    constructor
    · exact fun hd => ⟨[], a, h, rfl, .ret a, hd⟩
    · rintro ⟨h₁, a', h₂, rfl, hd, hf⟩
      obtain ⟨rfl, rfl⟩ := does_ret.mp hd
      exact hf
  | call op next ih =>
    rw [call_bind, does_call]
    constructor
    · rintro ⟨x, h', rfl, hd⟩
      obtain ⟨h₁, a, h₂, rfl, hp, hf⟩ := (ih x).mp hd
      exact ⟨⟨op, x⟩ :: h₁, a, h₂, rfl, .call hp, hf⟩
    · rintro ⟨h₁, a, h₂, rfl, hp, hf⟩
      obtain ⟨x, h', rfl, hn⟩ := does_call.mp hp
      exact ⟨x, h' ++ h₂, rfl, (ih x).mpr ⟨h', a, h₂, rfl, hn, hf⟩⟩

/-! ### Surroundings that answer every call -/

/-- The history and the result of a program among surroundings with a state, which answer every call. -/
def answered {σ : Type} (reply : (op : Op) → σ → Ans op × σ) : Prog Op Ans α → σ → History Op Ans × α
  | ret a, _ => ([], a)
  | call op next, s =>
    let r := answered reply (next (reply op s).1) (reply op s).2
    (⟨op, (reply op s).1⟩ :: r.1, r.2)

theorem does_answered {σ : Type} (reply : (op : Op) → σ → Ans op × σ) (p : Prog Op Ans α) (s : σ) :
    Does p (answered reply p s).1 (answered reply p s).2 := by
  induction p generalizing s with
  | ret a => exact .ret a
  | call op next ih => exact .call (ih _ _)

/-! ### The rules -/

theorem Sat.imp {Q' : History Op Ans → α → Prop} (hp : Sat p Q) (hQ : ∀ h a, Q h a → Q' h a) : Sat p Q' :=
  fun h a hd => hQ h a (hp h a hd)

theorem Sat.ret (hQ : Q [] a) : Sat (ret a : Prog Op Ans α) Q := by
  intro h b hd
  obtain ⟨rfl, rfl⟩ := does_ret.mp hd
  exact hQ

theorem Sat.call (hn : ∀ x, Sat (next x) fun h a => Q (⟨op, x⟩ :: h) a) : Sat (call op next) Q := by
  intro h a hd
  obtain ⟨x, h', rfl, hd'⟩ := does_call.mp hd
  exact hn x h' a hd'

theorem Sat.bind (hp : Sat p Q) (hf : ∀ h₁ a, Q h₁ a → Sat (f a) fun h₂ b => R (h₁ ++ h₂) b) : Sat (p >>= f) R := by
  intro h b hd
  obtain ⟨h₁, a, h₂, rfl, hp', hf'⟩ := does_bind.mp hd
  exact hf h₁ a (hp h₁ a hp') h₂ b hf'

end
end Prog
end Interaction
