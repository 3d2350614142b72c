import DoorRtos.Theorems.Strings

/-! The numerals of `IntToHex`. The digits are stored the lowest one first, the sign behind them, and `ReverseStr` turns the
    text around. -/

namespace DoorRtos
open Buffer

/-! ### `StrLength` and `ReverseStr` -/

section
variable {text new array : Nat → UInt8} {t t' : List UInt8} {size : UInt32} {n i : Nat} {c : UInt8}

theorem seekNul_eq (h : IsString text t) (hi : i ≤ t.length) (hn : t.length < i + n) :
    seekNul text n i = some t.length := by
  induction n generalizing i with
  | zero => omega
  | succ n ih =>
    unfold seekNul
    rcases h.nul_or_char hi with ⟨rfl, hnul⟩ | ⟨hlt, -, hne⟩
    · rw [if_neg (not_not.mpr hnul)]
    · rw [if_pos hne]
      exact ih hlt (by omega)

/-- The whole loop, from the first character. -/
theorem IsString.seekNul (h : IsString text t) (hlen : t.length < addressSpace) :
    DoorRtos.seekNul text addressSpace 0 = some t.length :=
  seekNul_eq h (Nat.zero_le _) (by rwa [Nat.zero_add])

/-- The memory holds one string only. -/
theorem IsString.det (h : IsString text t) (h' : IsString text t') : t = t' := by
  have hlen : t.length = t'.length := by
    rcases Nat.lt_trichotomy t.length t'.length with hlt | heq | hlt
    · obtain ⟨hchar, hne⟩ := h'.char hlt
      exact absurd (hchar.symm.trans h.nul) hne
    · exact heq
    · obtain ⟨hchar, hne⟩ := h.char hlt
      exact absurd (hchar.symm.trans h'.nul) hne
  refine List.ext_getElem hlen fun i hi hi' => ?_
  exact (h.char hi).1.symm.trans (h'.char hi').1

theorem storeArray_eq (hi : i < size.toNat) : storeArray size array i c = some (Function.update array i c) := if_pos hi

theorem readArray_eq (hi : i < size.toNat) : readArray size array i = some (array i) := if_pos hi

theorem strLength_eq (h : IsString text t) (hlen : t.length + 1 < addressSpace) :
    ∃ size, strLength text = some size ∧ size.toNat = t.length + 1 := by
  refine ⟨UInt32.ofNat t.length + 1, ?_, ?_⟩
  · unfold strLength
    rw [h.seekNul (Nat.lt_of_succ_lt hlen)]
    rfl
  · rw [UInt32.toNat_add, UInt32.toNat_ofNat_of_lt' (Nat.lt_of_succ_lt hlen)]
    exact Nat.mod_eq_of_lt hlen

/-- `size - counter - 1` stays above zero. -/
theorem reverse_index (hsize : size.toNat = n + 1) (hi : i < n) :
    (size - UInt32.ofNat (i + 1) - 1).toNat = n - (i + 1) := by
  have hlt := size.toNat_lt
  have hcounter : (UInt32.ofNat (i + 1)).toNat = i + 1 := UInt32.toNat_ofNat_of_lt' (by show i + 1 < 2 ^ 32; omega)
  have hfirst : (size - UInt32.ofNat (i + 1)).toNat = n + 1 - (i + 1) := by
    rw [UInt32.toNat_sub_of_le _ _ (UInt32.le_iff_toNat_le.mpr (by omega)), hsize, hcounter]
  rw [UInt32.toNat_sub_of_le _ _ (UInt32.le_iff_toNat_le.mpr (by rw [hfirst]; show 1 ≤ _; omega)), hfirst]
  show n + 1 - (i + 1) - 1 = n - (i + 1)
  omega

/-- The loop stores the first `i` characters, the last one first, so that the first one comes to the end of the array. -/
theorem reverseInto_eq (h : IsString text t) (hsize : size.toNat = t.length + 1) (hi : i ≤ t.length) :
    reverseInto size text i array = some (put array (t.length - i) (t.take i).reverse) := by
  induction i generalizing array with
  | zero => rfl
  | succ i ih =>
    have hindex := reverse_index hsize hi
    unfold reverseInto
    dsimp only
    rw [hindex, storeArray_eq (by omega), (h.char hi).1]
    show reverseInto size text i _ = _
    rw [ih (Nat.le_of_lt hi), ← List.take_append_getElem hi, List.reverse_append, List.reverse_singleton,
      List.singleton_append, put, show t.length - (i + 1) + 1 = t.length - i by omega]

/-- The loop copies the rest of the array up to the `'\0'`. -/
theorem copyArray_eq (h : IsString array t) (hsize : size.toNat = t.length + 1) (hi : i ≤ t.length)
    (hn : t.length < i + n) :
    copyArray size array n i new = some (put new i (t.drop i ++ [0])) := by
  induction n generalizing i new with
  | zero => omega
  | succ n ih =>
    unfold copyArray
    rw [readArray_eq (by omega)]
    show (if array i ≠ 0 then _ else _) = _
    rcases h.nul_or_char hi with ⟨rfl, hnul⟩ | ⟨hlt, hchar, hne⟩
    · rw [if_neg (not_not.mpr hnul), List.drop_length]
      rfl
    · rw [if_pos hne, hchar, ih hlt (by omega), List.drop_eq_getElem_cons hlt]
      rfl

/-- `ReverseStr` gives the string backwards, for every string that has a length. -/
theorem reverseStr_eq (h : IsString text t) (hlen : t.length + 1 < addressSpace) (new array : Nat → UInt8) :
    reverseStr new array text = some (put new 0 (t.reverse ++ [0])) := by
  obtain ⟨size, hstrLength, hsize⟩ := strLength_eq h hlen
  have hreversed : IsString (put (Function.update array t.length 0) 0 t.reverse) t.reverse := by
    refine ⟨(holds_put _ _ _).append (holds_singleton ?_), fun h0 => h.noNul (List.mem_reverse.mp h0)⟩
    rw [put_of_le (Nat.le_refl _), List.length_reverse, Nat.zero_add, Function.update_self]
  have hinto : reverseInto size text t.length (Function.update array t.length 0) =
      some (put (Function.update array t.length 0) 0 t.reverse) := by
    rw [reverseInto_eq h hsize (Nat.le_refl _), Nat.sub_self, List.take_length]
  have hback : t.reverse.length = t.length := List.length_reverse
  have hcopy : copyArray size _ size.toNat 0 new = some (put new 0 (t.reverse.drop 0 ++ [0])) :=
    copyArray_eq hreversed (by rw [hback, hsize]) (Nat.zero_le _) (by omega)
  unfold reverseStr
  rw [hstrLength, h.seekNul (Nat.lt_of_succ_lt hlen)]
  simp only [Option.bind_eq_bind, Option.bind_some]
  rw [storeArray_eq (by omega), Option.bind_some, hinto, Option.bind_some]
  exact hcopy

end

/-! ### `IntToHex` -/

/-- The value of a hexadecimal digit. -/
def hexDigitValue (c : UInt8) : Nat := if c.toNat ≤ '9'.toNat then c.toNat - '0'.toNat else c.toNat - 'A'.toNat + 10

/-- The text is the hexadecimal numeral of `n`, in upper case. -/
structure HexNumeral (n : Nat) (t : List UInt8) : Prop where
  nonempty : t ≠ []
  digits : ∀ c ∈ t, ('0'.toNat ≤ c.toNat ∧ c.toNat ≤ '9'.toNat) ∨ ('A'.toNat ≤ c.toNat ∧ c.toNat ≤ 'F'.toNat)
  leading : t.head? = some 48 → t = [48]
  value : Digits.value 16 hexDigitValue t = n

/-- The numeral of the absolute value, behind a `'-'` when the number is negative. -/
def SignedHexNumeral (n : Int) (t : List UInt8) : Prop :=
  if n < 0 then ∃ u, t = 45 :: u ∧ HexNumeral n.natAbs u else HexNumeral n.natAbs t

/-- The call returns a string, and it is the numeral of the number. -/
def ReturnsHex (number : Int32) (r : Option (Nat → UInt8)) : Prop :=
  ∃ text t, r = some text ∧ IsString text t ∧ SignedHexNumeral number.toInt t

def hexByte (d : Nat) : UInt8 := UInt8.ofNat (if d < 10 then 48 + d else 55 + d)

/-- The hexadecimal digits of a number, the lowest one first. -/
def hexBytes (n : Nat) : List UInt8 := Digits.chars 16 hexByte n

section
variable {text2 : Nat → UInt8} {number : Int32} {l t : List UInt8} {n i : Nat} {c : UInt8}

/-! The digits. -/

theorem hexDigitValue_hexByte : ∀ d, d < 16 → hexDigitValue (hexByte d) = d := by decide

theorem hexByte_digit : ∀ d, d < 16 →
    ('0'.toNat ≤ (hexByte d).toNat ∧ (hexByte d).toNat ≤ '9'.toNat) ∨
      ('A'.toNat ≤ (hexByte d).toNat ∧ (hexByte d).toNat ≤ 'F'.toNat) := by decide

/-- What is stored for a digit is its character. -/
theorem hexChar_ofNat : ∀ d, d < 16 → hexChar (Int32.ofNat d) = hexByte d := by decide

theorem hexNumeral_zero : HexNumeral 0 [48] where
  nonempty := List.cons_ne_nil 48 []
  digits _ hc := List.mem_singleton.mp hc ▸ hexByte_digit 0 (by decide)
  leading _ := rfl
  value := rfl

/-- The digits of a number, the highest one first, are its numeral. -/
theorem hexNumeral_hexBytes (hn : n ≠ 0) : HexNumeral n (hexBytes n).reverse where
  nonempty := List.reverse_ne_nil_iff.mpr (Digits.chars_ne_nil hn)
  digits c hc := by
    obtain ⟨d, hd, rfl⟩ := Digits.exists_of_mem_chars (by decide) (List.mem_reverse.mp hc)
    exact hexByte_digit d hd
  leading h := absurd h (Digits.head_chars hexDigitValue (by decide) hexDigitValue_hexByte hn)
  value := Digits.value_chars hexDigitValue (by decide) hexDigitValue_hexByte n

theorem HexNumeral.noNul (h : HexNumeral n t) : 0 ∉ t := fun h0 => absurd (h.digits 0 h0) (by decide)

/-- A positive number of 32 bits has at most eight digits. -/
theorem length_hexBytes (number : Int32) : (hexBytes number.toInt.toNat).length ≤ 8 := by
  have hlt := number.toInt_lt
  exact Digits.length_chars_le (by decide) (show number.toInt.toNat < 2 ^ 32 by omega)

/-! The number. -/

theorem lt_zero_iff_toInt : number < 0 ↔ number.toInt < 0 := Int32.lt_iff_toInt_lt

theorem zero_lt_iff_toInt : number > 0 ↔ 0 < number.toInt := Int32.lt_iff_toInt_lt

theorem hexChar_mod (hpos : 0 ≤ number.toInt) : hexChar (number % 16) = hexByte (number.toInt.toNat % 16) := by
  have hdigit : number % 16 = Int32.ofNat (number.toInt.toNat % 16) := by
    apply Int32.toInt_inj.mp
    rw [Int32.toInt_mod, Int32.toInt_ofNat_of_lt (by omega)]
    show number.toInt.tmod 16 = _
    rw [Int.tmod_eq_emod_of_nonneg hpos]
    omega
  rw [hdigit]
  exact hexChar_ofNat _ (Nat.mod_lt _ (by decide))

theorem toInt_div_16 (hpos : 0 ≤ number.toInt) : (number / 16).toInt = (number.toInt.toNat / 16 : Nat) := by
  rw [Int32.toInt_div_of_ne_right _ _ (by decide)]
  show number.toInt.tdiv 16 = _
  rw [Int.tdiv_eq_ediv_of_nonneg hpos]
  omega

theorem storeHexDigits_eq (hpos : 0 ≤ number.toInt) (hn : (hexBytes number.toInt.toNat).length < n) :
    storeHexDigits n number i text2 =
      some (i + (hexBytes number.toInt.toNat).length, put text2 i (hexBytes number.toInt.toNat)) := by
  induction n generalizing number i text2 with
  | zero => cases hn
  | succ n ih =>
    unfold storeHexDigits
    by_cases hgt : number > 0
    · have hlt : 0 < number.toInt.toNat := by
        have h0 := zero_lt_iff_toInt.mp hgt
        omega
      have hquot := toInt_div_16 hpos
      have hbytes : hexBytes number.toInt.toNat =
          hexByte (number.toInt.toNat % 16) :: hexBytes (number / 16).toInt.toNat := by
        rw [hquot]
        exact Digits.chars_of_pos (by decide) hlt
      rw [hbytes, List.length_cons] at hn ⊢
      rw [if_pos hgt]
      dsimp only
      rw [hexChar_mod hpos, ih (by omega) (by omega), put, Nat.add_right_comm, Nat.add_assoc]
    · have hzero : number.toInt.toNat = 0 := by
        have h0 := zero_lt_iff_toInt.not.mp hgt
        omega
      rw [if_neg hgt, hzero]
      rfl

/-- The digits of a number that is not negative are stored. -/
theorem storeHexNumber_spec (text2 : Nat → UInt8) (hpos : 0 ≤ number.toInt) :
    ∃ l, storeHexNumber number text2 = some (l.length, put text2 0 l) ∧ l.length ≤ 8 ∧
      HexNumeral number.toInt.toNat l.reverse := by
  unfold storeHexNumber
  by_cases hzero : number = 0
  · subst hzero
    exact ⟨[48], if_pos rfl, by decide, hexNumeral_zero⟩
  · have hne : number.toInt.toNat ≠ 0 := fun h0 => by
      have hint : number.toInt = 0 := by omega
      exact hzero (Int32.toInt_inj.mp hint)
    have hlength := length_hexBytes number
    refine ⟨hexBytes number.toInt.toNat, ?_, hlength, hexNumeral_hexBytes hne⟩
    rw [if_neg hzero, storeHexDigits_eq hpos (by omega), Nat.zero_add]

/-- No digits of a negative number are stored. -/
theorem storeHexNumber_neg (text2 : Nat → UInt8) (hneg : number.toInt < 0) :
    storeHexNumber number text2 = some (0, text2) := by
  have hzero : number ≠ 0 := fun h0 => by
    subst h0
    exact absurd hneg (by decide)
  have hgt : ¬number > 0 := fun hgt => by
    have h0 := zero_lt_iff_toInt.mp hgt
    omega
  unfold storeHexNumber storeHexDigits
  rw [if_neg hzero, if_neg hgt]

/-! The result. -/

/-- The number that the digits are taken of. -/
def negated (number : Int32) : Int32 := if number < 0 then number * -1 else number

/-- The sign is stored behind the digits, and the text is turned around. -/
theorem intToHex_eq (newString stringArray : Nat → UInt8)
    (hstore : storeHexNumber (negated number) text2 = some (l.length, put text2 0 l)) (hlength : l.length ≤ 8)
    (hl : 0 ∉ l) :
    intToHex text2 newString stringArray number =
      some (put newString 0 ((if number < 0 then 45 :: l.reverse else l.reverse) ++ [0])) := by
  unfold intToHex
  by_cases hneg : number < 0
  · have hsigned : Function.update (Function.update (put text2 0 l) l.length 45) (l.length + 1) 0 =
        put text2 0 (l ++ [45] ++ [0]) := by
      rw [put_append, put_append, List.length_append, Nat.zero_add, Nat.zero_add]
      rfl
    have hstring : IsString (put text2 0 (l ++ [45] ++ [0])) (l ++ [45]) := isString_put text2 (by simpa using hl)
    have hlen : (l ++ [45]).length + 1 < addressSpace := by
      rw [List.length_append]
      show l.length + 1 + 1 < 2 ^ 32
      omega
    unfold negated at hstore
    rw [if_pos hneg] at hstore ⊢
    simp only [hneg, decide_true, if_true, hstore, Option.bind_eq_bind, Option.bind_some]
    rw [hsigned, reverseStr_eq hstring hlen, List.reverse_append]
    rfl
  · have hplain : Function.update (put text2 0 l) l.length 0 = put text2 0 (l ++ [0]) := by
      rw [put_append, Nat.zero_add]
      rfl
    have hlen : l.length + 1 < addressSpace := by
      show l.length + 1 < 2 ^ 32
      omega
    unfold negated at hstore
    rw [if_neg hneg] at hstore ⊢
    simp only [hneg, decide_false, Bool.false_eq_true, if_false, hstore, Option.bind_eq_bind, Option.bind_some]
    rw [hplain, reverseStr_eq (isString_put text2 hl) hlen]

/-- Negation gives the absolute value of every number but one. -/
theorem toInt_negated (hne : number.toInt ≠ -2 ^ 31) : (negated number).toInt = number.toInt.natAbs := by
  have hge := number.le_toInt
  have hlt := number.toInt_lt
  unfold negated
  split
  next hneg =>
    have hneg := lt_zero_iff_toInt.mp hneg
    rw [Int32.toInt_mul]
    show (number.toInt * -1).bmod (2 ^ 32) = _
    rw [Int.mul_neg_one, Int.bmod_eq_of_le (by omega) (by omega)]
    omega
  next hneg =>
    have hneg := lt_zero_iff_toInt.not.mp hneg
    omega

/-- The smallest number is its own negation, and only the sign is stored for it. -/
theorem intToHex_minValue (text2 newString stringArray : Nat → UInt8) :
    intToHex text2 newString stringArray Int32.minValue = some (put newString 0 [45, 0]) :=
  intToHex_eq (l := []) newString stringArray (storeHexNumber_neg text2 (by decide)) (Nat.zero_le 8) List.not_mem_nil

/-- A sign alone is the numeral of no number. -/
theorem not_signedHexNumeral_sign {z : Int} (hz : z < 0) : ¬SignedHexNumeral z [45] := fun h => by
  unfold SignedHexNumeral at h
  rw [if_pos hz] at h
  obtain ⟨u, hu, hnumeral⟩ := h
  cases hu
  exact hnumeral.nonempty rfl

theorem not_returnsHex_minValue (text2 newString stringArray : Nat → UInt8) :
    ¬ReturnsHex Int32.minValue (intToHex text2 newString stringArray Int32.minValue) := fun h => by
  obtain ⟨text, t, hr, ht, hsigned⟩ := h
  rw [intToHex_minValue] at hr
  cases hr
  have hstring : IsString (put newString 0 [45, 0]) [45] := isString_put (t := [45]) newString (by decide)
  obtain rfl := ht.det hstring
  exact not_signedHexNumeral_sign (by decide) hsigned

/-- `IntToHex` returns the numeral of every `SINT32` but the smallest one. -/
theorem intToHex_numeral_iff (text2 newString stringArray : Nat → UInt8) (number : Int32) :
    ReturnsHex number (intToHex text2 newString stringArray number) ↔ number.toInt ≠ -2 ^ 31 := by
  constructor
  · intro h hmin
    have hnumber : number = Int32.minValue := Int32.toInt_inj.mp hmin
    subst hnumber
    exact not_returnsHex_minValue text2 newString stringArray h
  · intro hne
    have habs := toInt_negated hne
    obtain ⟨l, hstore, hlength, hnumeral⟩ :=
      storeHexNumber_spec text2 (show 0 ≤ (negated number).toInt from habs ▸ Int.natCast_nonneg _)
    rw [habs, Int.toNat_natCast] at hnumeral
    have hl : 0 ∉ l := fun h0 => hnumeral.noNul (List.mem_reverse.mpr h0)
    refine ⟨_, _, intToHex_eq newString stringArray hstore hlength hl, isString_put newString ?_, ?_⟩
    · split
      · simpa using hl
      · simpa using hl
    · unfold SignedHexNumeral
      by_cases hneg : number < 0
      · rw [if_pos hneg, if_pos (lt_zero_iff_toInt.mp hneg)]
        exact ⟨l.reverse, rfl, hnumeral⟩
      · rw [if_neg hneg, if_neg (lt_zero_iff_toInt.not.mp hneg)]
        exact hnumeral

end

/-- The number `-2147483648`: a sign without digits. -/
theorem intToHex_sign_only :
    intToHex (fun _ => 0) (fun _ => 0) (fun _ => 0) Int32.minValue = some (put (fun _ => 0) 0 [45, 0]) ∧
      ¬ReturnsHex Int32.minValue (intToHex (fun _ => 0) (fun _ => 0) (fun _ => 0) Int32.minValue) :=
  ⟨intToHex_minValue _ _ _, not_returnsHex_minValue _ _ _⟩

end DoorRtos
