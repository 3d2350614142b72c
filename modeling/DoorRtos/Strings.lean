import DoorRtos.Programs

/-! `Strncpy`, `IntToStr`, `IsInteger`, `StrLength`, `ReverseStr` and `IntToHex` of `string.c`. A pointer to a string is the
    memory from there on. -/

namespace DoorRtos

/-! ### `Strncpy` -/

/-- `while (*oldString != '\0' && count < N)`, which goes round at most `N` times, and tests once more; then the `'\0'`
    is stored. The indices of `newString` that are stored to, and what it holds then. -/
def strncpyFrom (oldString : Nat → UInt8) (N : Int) : Nat → Nat → (Nat → UInt8) → List Nat × (Nat → UInt8)
  | 0, count, newString => ([count], Function.update newString count 0)
  | n + 1, count, newString =>
    if oldString count ≠ 0 ∧ (count : Int) < N then
      let r := strncpyFrom oldString N n (count + 1) (Function.update newString count (oldString count))
      (count :: r.1, r.2)
    else ([count], Function.update newString count 0)

/-- `Strncpy`. -/
def strncpyTraced (newString oldString : Nat → UInt8) (N : Int) : List Nat × (Nat → UInt8) :=
  strncpyFrom oldString N N.toNat 0 newString

/-! ### `IntToStr` -/

/-- The number of bytes of `string_holder` and of `string_holder_temp`. -/
abbrev holderSize : Nat := 20

/-- Reads `holder[i]`, an element of the array. -/
def readHolder (holder : Nat → UInt8) (i : Nat) : Option UInt8 := if i < holderSize then some (holder i) else none

/-- Stores to `holder[i]`, an element of the array. -/
def storeHolder (holder : Nat → UInt8) (i : Nat) (c : UInt8) : Option (Nat → UInt8) :=
  if i < holderSize then some (Function.update holder i c) else none

/-- `while (number > 0)`: stores the digits, the lowest one first. The index is that of `temp` in its array, which ends
    before the rounds do. -/
def storeDigits : Nat → UInt32 → Nat → (Nat → UInt8) → Option (Nat × (Nat → UInt8))
  | 0, _, _, _ => none
  | n + 1, number, i, temp => do
    if number > 0 then
      let digit := (number % 10).toUInt8
      let temp ← storeHolder temp i (0x30 + digit)
      storeDigits n (number / 10).toInt32.toUInt32 (i + 1) temp
    else return (i, temp)

/-- `if (number == 0) … else …`: the digits in `string_holder_temp`, and the index behind them. -/
def storeNumber (number : UInt32) (temp : Nat → UInt8) : Option (Nat × (Nat → UInt8)) := do
  if number = 0 then
    let temp ← storeHolder temp 0 0x30
    return (1, temp)
  else storeDigits (holderSize + 1) number 0 temp

/-- `while (temp != string_holder_temp)`: copies down from index `i` of the one array and up from index `j` of the
    other. -/
def copyReversed (temp : Nat → UInt8) : Nat → Nat → (Nat → UInt8) → Option (Nat × (Nat → UInt8))
  | 0, j, reversedString => some (j, reversedString)
  | i + 1, j, reversedString => do
    let c ← readHolder temp (i + 1)
    let reversedString ← storeHolder reversedString j c
    copyReversed temp i (j + 1) reversedString

/-- What the two arrays hold then, the result first. It gives nothing when an access is not to an element of its array,
    or when `temp` would be moved down from the first one. -/
def intToStr (stringHolder stringHolderTemp : Nat → UInt8) (number : UInt32) :
    Option ((Nat → UInt8) × (Nat → UInt8)) := do
  let temp ← storeHolder stringHolderTemp 0 0
  let (i, temp) ← storeNumber number temp
  match i with
  | 0 => none
  | i + 1 =>
    let (j, reversedString) ← copyReversed temp i 0 stringHolder
    let c ← readHolder temp 0
    let reversedString ← storeHolder reversedString j c
    let reversedString ← storeHolder reversedString (j + 1) 0
    return (reversedString, temp)

/-! ### `IsInteger` -/

/-- `while (text[i] != '\0')`, for at most `n` characters; nothing when it does not end before. -/
def isIntegerFrom (text : Nat → UInt8) : Nat → Nat → Option Nat
  | 0, _ => none
  | n + 1, i =>
    if text i = 0 then some rtxSuccess
    else if charAt text i < '0'.toNat ∨ charAt text i > '9'.toNat then some rtxError
    else isIntegerFrom text n (i + 1)

def isInteger (text : Nat → UInt8) (n : Nat) : Option Nat := isIntegerFrom text n 0

/-! ### `StrLength` and `ReverseStr` -/

/-- The loop up to the `'\0'` in `StrLength` and in `ReverseStr`: the number of rounds, when it is at most `n`. -/
def seekNul (text : Nat → UInt8) : Nat → Nat → Option Nat
  | 0, _ => none
  | n + 1, length => if text length ≠ 0 then seekNul text n (length + 1) else some length

/-- The length with the `'\0'`. There are `addressSpace` characters, so a longer loop never ends. -/
def strLength (text : Nat → UInt8) : Option UInt32 :=
  (seekNul text addressSpace 0).map fun length => UInt32.ofNat length + 1

/-- Reads `array[i]`, an element of an array of `size` characters. -/
def readArray (size : UInt32) (array : Nat → UInt8) (i : Nat) : Option UInt8 :=
  if i < size.toNat then some (array i) else none

/-- Stores to `array[i]`, an element of an array of `size` characters. -/
def storeArray (size : UInt32) (array : Nat → UInt8) (i : Nat) (c : UInt8) : Option (Nat → UInt8) :=
  if i < size.toNat then some (Function.update array i c) else none

/-- `while (counter > 0)`: `text` goes down together with `counter`, and is at the character before it. -/
def reverseInto (size : UInt32) (text : Nat → UInt8) : Nat → (Nat → UInt8) → Option (Nat → UInt8)
  | 0, stringArray => some stringArray
  | counter + 1, stringArray => do
    let i := size - UInt32.ofNat (counter + 1) - 1
    let stringArray ← storeArray size stringArray i.toNat (text counter)
    reverseInto size text counter stringArray

/-- `while (stringArray[counter] != '\0')`, for at most `n` characters, and the `'\0'` that is stored behind them. -/
def copyArray (size : UInt32) (stringArray : Nat → UInt8) : Nat → Nat → (Nat → UInt8) → Option (Nat → UInt8)
  | 0, _, _ => none
  | n + 1, counter, newString => do
    let c ← readArray size stringArray counter
    if c ≠ 0 then copyArray size stringArray n (counter + 1) (Function.update newString counter c)
    else return Function.update newString counter 0

/-- What `newString` holds then. The array is the local one, of as many characters as the text. -/
def reverseStr (newString stringArray text : Nat → UInt8) : Option (Nat → UInt8) := do
  let size ← strLength text
  let counter ← seekNul text addressSpace 0
  let stringArray ← storeArray size stringArray counter 0
  let stringArray ← reverseInto size text counter stringArray
  copyArray size stringArray size.toNat 0 newString

/-! ### `IntToHex` -/

/-- `*text2++ = 0x30 + digit`, or `0x37 + digit` for a digit from 10 on: the character stored. -/
def hexChar (digit : Int32) : UInt8 := (if digit < 10 then 0x30 + digit else 0x37 + digit).toInt8.toUInt8

/-- `while (number > 0)`: stores the digits, the lowest one first, and gives the index behind them. A `SINT32` has at most
    eight. -/
def storeHexDigits : Nat → Int32 → Nat → (Nat → UInt8) → Option (Nat × (Nat → UInt8))
  | 0, _, _, _ => none
  | n + 1, number, i, text2 =>
    if number > 0 then
      let digit := number % 16
      storeHexDigits n (number / 16) (i + 1) (Function.update text2 i (hexChar digit))
    else some (i, text2)

/-- `if (number == 0) … else …`. -/
def storeHexNumber (number : Int32) (text2 : Nat → UInt8) : Option (Nat × (Nat → UInt8)) :=
  if number = 0 then some (1, Function.update text2 0 0x30) else storeHexDigits 9 number 0 text2

/-- What the new string holds then. `text2` and `newString` are two pieces of memory that nothing else uses. -/
def intToHex (text2 newString stringArray : Nat → UInt8) (number : Int32) : Option (Nat → UInt8) := do
  let negative := decide (number < 0)
  let number := if negative then number * -1 else number
  let (i, text2) ← storeHexNumber number text2
  let (i, text2) := if negative then (i + 1, Function.update text2 i 0x2d) else (i, text2)
  reverseStr newString stringArray (Function.update text2 i 0)

end DoorRtos
