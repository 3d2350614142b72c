import Mathlib.Algebra.GroupWithZero.Nat

/-! A memory of bytes with longwords in it, the highest byte first, and words pushed onto a stack that grows downwards. -/

namespace Stack

/-- The byte at each address. -/
abbrev Memory := Nat → UInt8

/-- The longword at an address. -/
def load (m : Memory) (a : Nat) : UInt32 :=
  UInt32.ofNat ((((m a).toNat * 256 + (m (a + 1)).toNat) * 256 + (m (a + 2)).toNat) * 256 + (m (a + 3)).toNat)

def store (m : Memory) (a : Nat) (v : UInt32) : Memory := fun b =>
  if b = a then UInt8.ofNat (v.toNat / 2 ^ 24)
  else if b = a + 1 then UInt8.ofNat (v.toNat / 2 ^ 16)
  else if b = a + 2 then UInt8.ofNat (v.toNat / 2 ^ 8)
  else if b = a + 3 then UInt8.ofNat v.toNat
  else m b

/-- Pushes the words from `sp` downwards, and returns the address of the last one. -/
def pushAll (m : Memory) (sp : Nat) : List UInt32 → Memory × Nat
  | [] => (m, sp)
  | v :: vs => pushAll (store m (sp - 4) v) (sp - 4) vs

/-- The two memories hold the same bytes from `lo` up to `hi`. -/
def Agree (lo hi : Nat) (m m' : Memory) : Prop := ∀ a, lo ≤ a → a < hi → m' a = m a

section
variable {m m' m'' : Memory} {a b lo lo' hi hi' sp : Nat} {v : UInt32} {vs : List UInt32}

theorem Agree.refl (lo hi : Nat) (m : Memory) : Agree lo hi m m := fun _ _ _ => rfl

theorem Agree.symm (h : Agree lo hi m m') : Agree lo hi m' m := fun a hlo hhi => (h a hlo hhi).symm

theorem Agree.trans (h : Agree lo hi m m') (h' : Agree lo hi m' m'') : Agree lo hi m m'' :=
  fun a hlo hhi => (h' a hlo hhi).trans (h a hlo hhi)

theorem Agree.mono (h : Agree lo hi m m') (hlo : lo ≤ lo') (hhi : hi' ≤ hi) : Agree lo' hi' m m' :=
  fun a ha ha' => h a (Nat.le_trans hlo ha) (Nat.lt_of_lt_of_le ha' hhi)

theorem load_congr (h : Agree a (a + 4) m m') : load m' a = load m a := by
  unfold load
  rw [h a (Nat.le_refl a) (by omega), h (a + 1) (by omega) (by omega), h (a + 2) (by omega) (by omega),
    h (a + 3) (by omega) (by omega)]

theorem store_of_lt (h : b < a) : store m a v b = m b := by
  unfold store
  rw [if_neg (by omega), if_neg (by omega), if_neg (by omega), if_neg (by omega)]

theorem store_of_ge (h : a + 4 ≤ b) : store m a v b = m b := by
  unfold store
  rw [if_neg (by omega), if_neg (by omega), if_neg (by omega), if_neg (by omega)]

/-- What is stored is loaded again. -/
@[simp] theorem load_store (m : Memory) (a : Nat) (v : UInt32) : load (store m a v) a = v := by
  have h₀ : store m a v a = UInt8.ofNat (v.toNat / 2 ^ 24) := if_pos rfl
  have h₁ : store m a v (a + 1) = UInt8.ofNat (v.toNat / 2 ^ 16) := by simp [store]
  have h₂ : store m a v (a + 2) = UInt8.ofNat (v.toNat / 2 ^ 8) := by simp [store]
  have h₃ : store m a v (a + 3) = UInt8.ofNat v.toNat := by simp [store]
  have hv := v.toNat_lt
  unfold load
  rw [h₀, h₁, h₂, h₃, ← UInt32.toNat_inj]
  simp only [UInt8.toNat_ofNat', UInt32.toNat_ofNat']
  omega

/-- A longword above or below the one stored stays as it is. -/
theorem load_store_of_disjoint (h : b + 4 ≤ a ∨ a + 4 ≤ b) : load (store m a v) b = load m b := by
  refine load_congr fun x hx hx' => ?_
  rcases h with h | h
  · exact store_of_lt (by omega)
  · exact store_of_ge (by omega)

/-- What is above the stack pointer stays as it is. -/
theorem pushAll_above (hroom : 4 * vs.length ≤ sp) (ha : sp ≤ a) : (pushAll m sp vs).1 a = m a := by
  induction vs generalizing m sp with
  | nil => rfl
  | cons v vs ih =>
    rw [List.length_cons] at hroom
    exact (ih (by omega) (by omega)).trans (store_of_ge (by omega))

theorem pushAll_sp (m : Memory) (sp : Nat) (vs : List UInt32) : (pushAll m sp vs).2 = sp - 4 * vs.length := by
  induction vs generalizing m sp with
  | nil => rfl
  | cons v vs ih =>
    rw [pushAll, ih, List.length_cons]
    omega

end
end Stack
