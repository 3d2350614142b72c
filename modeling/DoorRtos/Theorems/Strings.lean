import DoorRtos.Buffer
import DoorRtos.Digits
import DoorRtos.Keyboard
import DoorRtos.Strings

/-! What `Strncpy` stores, and the numerals of `IntToStr`. -/

namespace DoorRtos
open Buffer

/-- The memory holds the characters of `t` and a `'\0'` behind them. -/
structure IsString (text : Nat → UInt8) (t : List UInt8) : Prop where
  holds : Holds text 0 (t ++ [0])
  noNul : 0 ∉ t

section
variable {text new old : Nat → UInt8} {t : List UInt8} {N : Int} {n count i : Nat}

theorem IsString.char (h : IsString text t) (hi : i < t.length) : text i = t[i] ∧ t[i] ≠ 0 := by
  have hchar := h.holds.left i t[i] (List.getElem?_eq_getElem hi)
  rw [Nat.zero_add] at hchar
  exact ⟨hchar, fun h0 => h.noNul (h0 ▸ List.getElem_mem hi)⟩

theorem IsString.nul (h : IsString text t) : text t.length = 0 := by
  have hnul := h.holds.last
  rwa [Nat.zero_add] at hnul

/-- An index up to the end of the text is that of the `'\0'` or of a character. -/
theorem IsString.nul_or_char (h : IsString text t) (hi : i ≤ t.length) :
    i = t.length ∧ text i = 0 ∨ ∃ hlt : i < t.length, text i = t[i] ∧ text i ≠ 0 := by
  rcases Nat.eq_or_lt_of_le hi with rfl | hlt
  · exact Or.inl ⟨rfl, h.nul⟩
  · obtain ⟨hchar, hne⟩ := h.char hlt
    exact Or.inr ⟨hlt, hchar, hchar ▸ hne⟩

theorem isString_put (new : Nat → UInt8) (ht : 0 ∉ t) : IsString (put new 0 (t ++ [0])) t := ⟨holds_put _ _ _, ht⟩

/-! ### `Strncpy` -/

/-- Nothing is stored outside of `newString[0..N-1]`, and there is a string then that the copied one begins with. -/
structure CopiesWithin (t : List UInt8) (N : Int) (r : List Nat × (Nat → UInt8)) : Prop where
  within : ∀ i ∈ r.1, (i : Int) < N
  string : ∃ u, u <+: t ∧ (u.length : Int) < N ∧ IsString r.2 u

theorem strncpyFrom_eq (h : IsString old t) (hn : n = (N - count).toNat) (hcount : count ≤ t.length) :
    strncpyFrom old N n count new =
      (List.range' count (((t.drop count).take n).length + 1), put new count ((t.drop count).take n ++ [0])) := by
  induction n generalizing count new with
  | zero => rfl
  | succ n ih =>
    unfold strncpyFrom
    rcases h.nul_or_char hcount with ⟨rfl, hnul⟩ | ⟨hlt, hchar, hne⟩
    · rw [if_neg fun hand => hand.1 hnul, List.drop_length]
      rfl
    · rw [if_pos ⟨hne, by omega⟩, ih (by omega) hlt, hchar, List.drop_eq_getElem_cons hlt, List.take_succ_cons,
        List.length_cons, List.range'_succ]
      rfl

/-- It copies the first `N` characters, and the `'\0'` comes behind them. -/
theorem strncpyTraced_eq (h : IsString old t) (new : Nat → UInt8) (N : Int) :
    strncpyTraced new old N = (List.range ((t.take N.toNat).length + 1), put new 0 (t.take N.toNat ++ [0])) := by
  have hfrom : strncpyFrom old N N.toNat 0 new = _ := strncpyFrom_eq h (by simp) (Nat.zero_le t.length)
  rwa [List.drop_zero, ← List.range_eq_range'] at hfrom

theorem strncpy_eq_put (new : Nat → UInt8) (i : Nat) (t : List UInt8) (n : Nat) :
    strncpy new i t n = put new i (t.take n ++ [0]) := by
  induction t generalizing new i n with
  | nil => cases n <;> rfl
  | cons c t ih =>
    cases n with
    | zero => rfl
    | succ n => exact ih (Function.update new i c) (i + 1) n

/-- The copy of a list of characters is that of the string in memory. -/
theorem strncpyTraced_eq_strncpy (h : IsString old t) (new : Nat → UInt8) (N : Int) :
    (strncpyTraced new old N).2 = strncpy new 0 t N.toNat := by
  rw [strncpyTraced_eq h, strncpy_eq_put]

/-- The `'\0'` is stored behind the characters copied. -/
theorem strncpyTraced_last (h : IsString old t) (new : Nat → UInt8) (N : Int) :
    (t.take N.toNat).length ∈ (strncpyTraced new old N).1 := by
  rw [strncpyTraced_eq h]
  exact List.mem_range.mpr (Nat.lt_succ_self _)

/-- `Strncpy` stays inside of the destination exactly for strings shorter than `N`. -/
theorem strncpy_within_iff (h : IsString old t) (new : Nat → UInt8) (N : Int) :
    CopiesWithin t N (strncpyTraced new old N) ↔ (t.length : Int) < N := by
  constructor
  · intro hc
    have hlast := hc.within _ (strncpyTraced_last h new N)
    rw [List.length_take] at hlast
    omega
  · intro hlt
    rw [strncpyTraced_eq h, List.take_of_length_le (by omega)]
    refine ⟨fun i hi => ?_, t, List.prefix_rfl, hlt, isString_put new h.noNul⟩
    have hi := List.mem_range.mp hi
    omega

end

/-- The text `"PID "` of `print_pcb_infos`. -/
theorem strncpy_within_data :
    CopiesWithin [80, 73, 68, 32] messDataSize
      (strncpyTraced (fun _ => 0) (put (fun _ => 0) 0 ([80, 73, 68, 32] ++ [0])) messDataSize) :=
  (strncpy_within_iff (isString_put _ (by decide)) _ _).mpr (by decide)

/-- A text as long as the data field of a message: the `'\0'` goes behind the field. -/
theorem strncpy_behind_data :
    IsString (put (fun _ => 0) 0 (List.replicate messDataSize 65 ++ [0])) (List.replicate messDataSize 65) ∧
      ¬CopiesWithin (List.replicate messDataSize 65) messDataSize
        (strncpyTraced (fun _ => 0) (put (fun _ => 0) 0 (List.replicate messDataSize 65 ++ [0])) messDataSize) := by
  have hstring : IsString (put (fun _ => 0) 0 (List.replicate messDataSize 65 ++ [0])) (List.replicate messDataSize 65) :=
    isString_put _ fun h0 => absurd (List.eq_of_mem_replicate h0) (by decide)
  refine ⟨hstring, fun hc => ?_⟩
  have hlast := hc.within _ (strncpyTraced_last hstring _ _)
  rw [List.length_take, List.length_replicate] at hlast
  exact absurd hlast (by decide)

/-! ### `IntToStr` -/

/-- What a character stands for as a digit. -/
def digitValue (c : UInt8) : Nat := c.toNat - '0'.toNat

/-- The text is the usual numeral of `n`. -/
structure Numeral (n : Nat) (t : List UInt8) : Prop where
  nonempty : t ≠ []
  digits : ∀ c ∈ t, '0'.toNat ≤ c.toNat ∧ c.toNat ≤ '9'.toNat
  leading : t.head? = some 48 → t = [48]
  value : Digits.value 10 digitValue t = n

def digitByte (d : Nat) : UInt8 := UInt8.ofNat (48 + d)

/-- The digits of a number, the lowest one first. -/
def digitBytes (n : Nat) : List UInt8 := Digits.chars 10 digitByte n

section
variable {temp reversedString text : Nat → UInt8} {number : UInt32} {n i j : Nat} {l t : List UInt8} {c : UInt8}

theorem readHolder_eq (hi : i < holderSize) : readHolder temp i = some (temp i) := if_pos hi

theorem storeHolder_eq (hi : i < holderSize) (c : UInt8) :
    storeHolder temp i c = some (Function.update temp i c) :=
  if_pos hi

/-! The digits. -/

/-- A 32-bit number has at most ten digits. -/
theorem length_digitBytes (number : UInt32) : (digitBytes number.toNat).length ≤ 10 :=
  Digits.length_chars_le (by decide) (Nat.lt_of_lt_of_le number.toNat_lt (by decide))

theorem digitByte_toNat (hd : i < 10) : (digitByte i).toNat = 48 + i := by
  unfold digitByte
  rw [UInt8.toNat_ofNat']
  omega

theorem storeDigits_eq (hn : (digitBytes number.toNat).length < n)
    (hi : i + (digitBytes number.toNat).length ≤ holderSize) :
    storeDigits n number i temp =
      some (i + (digitBytes number.toNat).length, put temp i (digitBytes number.toNat)) := by
  induction n generalizing number i temp with
  | zero => cases hn
  | succ n ih =>
    unfold storeDigits
    by_cases hpos : number > 0
    · have hlt : 0 < number.toNat := UInt32.lt_iff_toNat_lt.mp hpos
      have hdigit : 0x30 + (number % 10).toUInt8 = digitByte (number.toNat % 10) := by
        apply UInt8.toNat_inj.mp
        rw [digitByte_toNat (Nat.mod_lt _ (by decide))]
        simp
        omega
      have hquot : (number / 10).toInt32.toUInt32.toNat = number.toNat / 10 := by simp
      have hcons : digitBytes number.toNat = digitByte (number.toNat % 10) :: digitBytes (number.toNat / 10) :=
        Digits.chars_of_pos (by decide) hlt
      rw [hcons, List.length_cons] at hn hi
      rw [if_pos hpos, hcons, List.length_cons]
      simp only [storeHolder_eq (show i < holderSize by omega), Option.bind_eq_bind, Option.bind_some]
      rw [ih (by rw [hquot]; omega) (by rw [hquot]; omega), hquot, hdigit]
      simp only [put, Nat.add_assoc, Nat.add_comm 1]
    · have hzero : number.toNat = 0 := by
        have := UInt32.lt_iff_toNat_lt.not.mp hpos
        simpa using this
      rw [if_neg hpos, hzero]
      rfl

/-- The loop copies everything but the first character, the last one first, and stops at the first one. -/
theorem copyReversed_eq (reversedString : Nat → UInt8) (hl : Holds temp 0 (c :: l)) (hi : l.length < holderSize)
    (hj : j + l.length ≤ holderSize) :
    copyReversed temp l.length j reversedString = some (j + l.length, put reversedString j l.reverse) := by
  induction l using List.reverseRecOn generalizing j reversedString with
  | nil => rfl
  | append_singleton l x ih =>
    rw [List.length_append, List.length_singleton] at hi hj ⊢
    have hx : temp (l.length + 1) = x := by
      have hlast := (show Holds temp 0 ((c :: l) ++ [x]) from hl).last
      rwa [Nat.zero_add] at hlast
    unfold copyReversed
    rw [readHolder_eq hi, hx]
    simp only [Option.bind_eq_bind, Option.bind_some, storeHolder_eq (show j < holderSize by omega)]
    rw [ih _ (show Holds temp 0 ((c :: l) ++ [x]) from hl).left (by omega) (by omega), List.reverse_append]
    simp only [List.reverse_singleton, List.singleton_append, put]
    congr 2
    omega

theorem numeral_zero : Numeral 0 [48] :=
  ⟨List.cons_ne_nil _ _, fun _ hc => List.mem_singleton.mp hc ▸ ⟨by decide, by decide⟩, fun _ => rfl, rfl⟩

/-- The value of a digit's character. -/
theorem digitValue_digitByte (d : Nat) (hd : d < 10) : digitValue (digitByte d) = d := by
  unfold digitValue
  rw [digitByte_toNat hd]
  exact Nat.add_sub_cancel_left 48 d

/-- The digits of a number, the highest one first, are its numeral. -/
theorem numeral_digitBytes (hn : n ≠ 0) : Numeral n (digitBytes n).reverse where
  nonempty := List.reverse_ne_nil_iff.mpr (Digits.chars_ne_nil hn)
  digits c hc := by
    obtain ⟨d, hd, rfl⟩ := Digits.exists_of_mem_chars (by decide) (List.mem_reverse.mp hc)
    rw [digitByte_toNat hd]
    exact ⟨Nat.le_add_right 48 d, by show 48 + d ≤ 57; omega⟩
  leading h := absurd h (Digits.head_chars digitValue (by decide) digitValue_digitByte hn)
  value := Digits.value_chars digitValue (by decide) digitValue_digitByte n

/-- The digits that are stored, the lowest one first, and the numeral they are read back to. -/
theorem storeNumber_spec (number : UInt32) (temp : Nat → UInt8) :
    ∃ l c temp', storeNumber number temp = some (l.length + 1, temp') ∧ Numeral number.toNat (l.reverse ++ [c]) ∧
      l.length < 10 ∧ Holds temp' 0 (c :: l) := by
  unfold storeNumber
  by_cases hzero : number = 0
  · subst hzero
    exact ⟨[], 48, put temp 0 [48], by rw [if_pos rfl, storeHolder_eq (by decide)]; rfl, numeral_zero, by decide,
      holds_put _ _ _⟩
  · have hne : number.toNat ≠ 0 := fun h0 => hzero (UInt32.toNat_inj.mp h0)
    have hbound := length_digitBytes number
    have hnumeral := numeral_digitBytes hne
    have hstore : storeDigits (holderSize + 1) number 0 temp = _ :=
      storeDigits_eq (Nat.lt_of_le_of_lt hbound (by decide)) (by rw [Nat.zero_add]; exact hbound.trans (by decide))
    rw [if_neg hzero, hstore, Nat.zero_add]
    cases hd : digitBytes number.toNat with
    | nil => exact absurd (by rw [hd]; rfl) hnumeral.nonempty
    | cons c l =>
      rw [hd] at hnumeral hbound
      exact ⟨l, c, put temp 0 (c :: l), rfl, List.reverse_cons ▸ hnumeral, hbound, holds_put _ _ _⟩

theorem Numeral.noNul (h : Numeral n t) : 0 ∉ t := fun h0 => absurd (h.digits 0 h0).1 (by decide)

/-! The result. -/

theorem toInt_of_ascii (hc : c.toNat < 128) : c.toInt8.toInt = (c.toNat : Int) :=
  BitVec.toInt_eq_toNat_of_lt (by show 2 * c.toNat < 256; omega)

theorem isInteger_of_digits (h : IsString text t) (hd : ∀ c ∈ t, '0'.toNat ≤ c.toNat ∧ c.toNat ≤ '9'.toNat)
    (hi : i ≤ t.length) (hn : t.length < i + n) : isIntegerFrom text n i = some rtxSuccess := by
  induction n generalizing i with
  | zero => omega
  | succ n ih =>
    unfold isIntegerFrom
    rcases h.nul_or_char hi with ⟨rfl, hnul⟩ | ⟨hlt, hchar, hne⟩
    · rw [if_pos hnul]
    · obtain ⟨hlow, hhigh⟩ := hd t[i] (List.getElem_mem hlt)
      have hsigned : charAt text i = (t[i].toNat : Int) := by
        unfold charAt
        rw [hchar]
        exact toInt_of_ascii (Nat.lt_of_le_of_lt hhigh (by decide))
      rw [if_neg hne, hsigned, if_neg (by omega)]
      exact ih hlt (by omega)

/-- The first array holds the digits, the highest one first, and a `'\0'`. -/
theorem intToStr_spec (stringHolder stringHolderTemp : Nat → UInt8) (number : UInt32) :
    ∃ t temp, intToStr stringHolder stringHolderTemp number = some (put stringHolder 0 (t ++ [0]), temp) ∧
      Numeral number.toNat t ∧ t.length ≤ 10 := by
  obtain ⟨l, c, temp, hdigits, hnumeral, hlength, hholds⟩ := storeNumber_spec number (Function.update stringHolderTemp 0 0)
  have hcopy := copyReversed_eq (j := 0) stringHolder hholds (hlength.trans (by decide))
    (by rw [Nat.zero_add]; exact hlength.le.trans (by decide))
  have hput : Function.update (Function.update (put stringHolder 0 l.reverse) (0 + l.length) c) (0 + l.length + 1) 0 =
      put stringHolder 0 (l.reverse ++ [c] ++ [0]) := by
    rw [List.append_assoc, put_append, List.length_reverse]
    rfl
  have hlast : 0 + l.length < holderSize := by show 0 + l.length < 20; omega
  have hnul : 0 + l.length + 1 < holderSize := by show 0 + l.length + 1 < 20; omega
  refine ⟨l.reverse ++ [c], temp, ?_, hnumeral, by rwa [List.length_append, List.length_reverse]⟩
  unfold intToStr
  simp only [storeHolder_eq (show 0 < holderSize by decide), Option.bind_eq_bind, Option.bind_some]
  rw [hdigits]
  simp only [Option.bind_some, hcopy, readHolder_eq (show 0 < holderSize by decide), hholds.head,
    storeHolder_eq hlast, storeHolder_eq hnul, hput]
  rfl

/-- `IntToStr` gives the usual numeral of every 32-bit number, and accesses its two arrays only. -/
theorem intToStr_numeral (stringHolder stringHolderTemp : Nat → UInt8) (number : UInt32) :
    ∃ holder temp t, intToStr stringHolder stringHolderTemp number = some (holder, temp) ∧ Numeral number.toNat t ∧
      IsString holder t ∧ t.length < holderSize ∧ isInteger holder holderSize = some rtxSuccess := by
  obtain ⟨t, temp, hs, hnumeral, hlength⟩ := intToStr_spec stringHolder stringHolderTemp number
  have hstring : IsString (put stringHolder 0 (t ++ [0])) t := isString_put stringHolder hnumeral.noNul
  have hsize : t.length < holderSize := Nat.lt_of_le_of_lt hlength (by decide)
  exact ⟨put stringHolder 0 (t ++ [0]), temp, t, hs, hnumeral, hstring, hsize,
    isInteger_of_digits hstring hnumeral.digits (Nat.zero_le _) (by rwa [Nat.zero_add])⟩

end

end DoorRtos
