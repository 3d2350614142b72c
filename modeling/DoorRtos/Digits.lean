import Mathlib.Data.Nat.Digits.Lemmas

/-! Numbers written in a base with one character for each digit, and texts read back as numbers. -/

namespace Digits
variable {α : Type} {b n k : Nat} {char : Nat → α} {c : α}

/-- The characters of the digits of a number in base `b`, the lowest one first. -/
def chars (b : Nat) (char : Nat → α) (n : Nat) : List α := (Nat.digits b n).map char

/-- The number that a text stands for in base `b`, the highest digit first. -/
def value (b : Nat) (digit : α → Nat) (t : List α) : Nat := t.foldl (fun v c => b * v + digit c) 0

theorem chars_zero (b : Nat) (char : Nat → α) : chars b char 0 = [] := by
  unfold chars
  rw [Nat.digits_zero, List.map_nil]

theorem chars_of_pos (hb : 1 < b) (hn : 0 < n) : chars b char n = char (n % b) :: chars b char (n / b) := by
  unfold chars
  rw [Nat.digits_def' hb hn, List.map_cons]

theorem chars_ne_nil (hn : n ≠ 0) : chars b char n ≠ [] := by
  unfold chars
  rw [Ne, List.map_eq_nil_iff]
  exact Nat.digits_ne_nil_iff_ne_zero.mpr hn

theorem length_chars_le (hb : 1 < b) (hn : n < b ^ k) : (chars b char n).length ≤ k := by
  unfold chars
  rw [List.length_map]
  exact (Nat.digits_length_le_iff hb n).mpr hn

theorem exists_of_mem_chars (hb : 1 < b) (hc : c ∈ chars b char n) : ∃ d, d < b ∧ c = char d := by
  obtain ⟨d, hd, rfl⟩ := List.mem_map.mp hc
  exact ⟨d, Nat.digits_lt_base hb hd, rfl⟩

section
variable (digit : α → Nat) (hb : 1 < b) (hdigit : ∀ d, d < b → digit (char d) = d)
include hb hdigit

/-- The characters of a number are read back as the number. -/
theorem value_chars (n : Nat) : value b digit (chars b char n).reverse = n := by
  unfold value
  rw [List.foldl_reverse]
  induction n using Nat.strong_induction_on with
  | _ n ih =>
    rcases Nat.eq_zero_or_pos n with rfl | hn
    · rw [chars_zero, List.foldr_nil]
    · rw [chars_of_pos hb hn, List.foldr_cons, ih (n / b) (Nat.div_lt_self hn hb),
        hdigit _ (Nat.mod_lt n (Nat.zero_lt_of_lt hb))]
      exact Nat.div_add_mod n b

/-- The text of a number other than zero begins with no zero. -/
theorem head_chars (hn : n ≠ 0) : (chars b char n).reverse.head? ≠ some (char 0) := by
  have hne : Nat.digits b n ≠ [] := Nat.digits_ne_nil_iff_ne_zero.mpr hn
  unfold chars
  rw [List.head?_reverse, List.getLast?_map, List.getLast?_eq_some_getLast hne]
  intro he
  have hlast := congrArg digit (Option.some.inj he)
  rw [hdigit _ (Nat.digits_lt_base hb (List.getLast_mem hne)), hdigit 0 (Nat.zero_lt_of_lt hb)] at hlast
  exact Nat.getLast_digit_ne_zero b hn hlast

end
end Digits
