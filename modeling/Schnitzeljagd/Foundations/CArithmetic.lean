import Mathlib.Data.Nat.ModEq
import Mathlib.Tactic.Ring

/-!
# C integers and their conversions

An `int` has 32 bits and wraps in two's complement; its remainder takes the sign
of the dividend. `size_t` is unsigned and at least as wide as `int`. A plain
`char` is signed on some platforms and unsigned on others. The width of `size_t`
and the sign of `char` are fields of an `Abi`, so a result for every `Abi` holds
on every such platform.

Arrays are byte lists. A read outside the array has no value, and a store
outside the array leaves no array: both are undefined behaviour in C.
-/

namespace Foundations.CArithmetic

/-- The type `unsigned char`, whose arithmetic is that of eight bits. -/
abbrev Byte := BitVec 8

/-- The type `int`, of 32 bits. Its arithmetic wraps around. -/
abbrev CInt := BitVec 32

/-- What a platform chooses: the sign of plain `char` and the width of `size_t`. -/
structure Abi where
  charSigned : Bool
  sizeBits : Nat
  sizeBits_ge : 32 ≤ sizeBits

/-- Integer promotion of an `unsigned char`, which keeps its value and is never negative. -/
def promote (byte : Byte) : CInt := byte.setWidth 32

/-- Assignment of an `int` to an `unsigned char` keeps the low eight bits. -/
def toUChar (value : CInt) : Byte := value.setWidth 8

/-- The value that a plain `char` holding these bits has in an expression: with its sign if plain
`char` has one. -/
def Abi.charValue (abi : Abi) (bits : Byte) : CInt :=
  if abi.charSigned then bits.signExtend 32 else bits.setWidth 32

/-- The usual arithmetic conversion of an `int` next to a `size_t`, by which a negative number
becomes a very large one. -/
def Abi.toSize (abi : Abi) (value : CInt) : BitVec abi.sizeBits :=
  value.signExtend abi.sizeBits

/-- Array read; a negative or too large index has no value. In C such a read has no defined
result. -/
def load (array : List Byte) (index : Int) : Option Byte :=
  if index < 0 then none else array[index.toNat]?

/-- Array store; a negative or too large index leaves no array. -/
def store (array : List Byte) (index : Int) (byte : Byte) : Option (List Byte) :=
  if 0 ≤ index ∧ index.toNat < array.length then some (array.set index.toNat byte) else none

/-- Reading at a natural number is looking an element up, so that lemmas about lists apply. -/
@[simp] theorem load_natCast (array : List Byte) (index : Nat) :
    load array (index : Int) = array[index]? := by
  simp [load]

/-- Storing inside the array replaces one element and leaves its length as it is. -/
theorem store_natCast (array : List Byte) (index : Nat) (byte : Byte)
    (inside : index < array.length) :
    store array (index : Int) byte = some (array.set index byte) := by
  simp [store, inside]

/-- Promotion is undone by the assignment to an `unsigned char`, so that a byte survives a detour
through `int`. -/
@[simp] theorem toUChar_promote (byte : Byte) : toUChar (promote byte) = byte := by
  simp [toUChar, promote]

/-- The low bits of an exclusive or are those of its operands. -/
@[simp] theorem toUChar_xor (left right : CInt) :
    toUChar (left ^^^ right) = toUChar left ^^^ toUChar right := by
  simp [toUChar]

/-- Whatever the sign of plain `char`, its low eight bits are the stored bits. -/
@[simp] theorem toUChar_charValue (abi : Abi) (bits : Byte) :
    toUChar (abi.charValue bits) = bits := by
  unfold toUChar Abi.charValue
  split
  · apply BitVec.eq_of_getLsbD_eq
    intro position inside
    have low : position < 32 := by omega
    simp only [BitVec.getLsbD_setWidth, BitVec.getLsbD_signExtend, inside, low, decide_true,
      Bool.true_and, if_true]
  · simp

/-- Exclusive or can be computed before or after promotion, with one result. -/
theorem promote_xor (left right : Byte) :
    promote left ^^^ promote right = promote (left ^^^ right) := by
  simp [promote]

/-- A promoted byte is never negative, and so it can be an index. -/
@[simp] theorem promote_toInt (byte : Byte) : (promote byte).toInt = (byte.toNat : Int) := by
  have bound : byte.toNat < 2 ^ 8 := byte.isLt
  rw [BitVec.toInt_eq_toNat_of_lt]
  · simp only [promote, BitVec.toNat_setWidth]
    omega
  · simp only [promote, BitVec.toNat_setWidth]
    omega

/-- Sign extension to `size_t` adds a multiple of `2 ^ 32`, so remainders by its
divisors do not see it. -/
theorem toSize_mod (abi : Abi) (value : CInt) (modulus : Nat) (divides : modulus ∣ 2 ^ 32) :
    (abi.toSize value).toNat % modulus = value.toNat % modulus := by
  have wide : (2 : Nat) ^ 32 ∣ 2 ^ abi.sizeBits := Nat.pow_dvd_pow 2 abi.sizeBits_ge
  have small : value.toNat % 2 ^ abi.sizeBits = value.toNat :=
    Nat.mod_eq_of_lt (lt_of_lt_of_le value.isLt (Nat.pow_le_pow_right (by decide) abi.sizeBits_ge))
  have extended : (abi.toSize value).toNat =
      value.toNat + if value.msb then 2 ^ abi.sizeBits - 2 ^ 32 else 0 := by
    rw [Abi.toSize, BitVec.toNat_signExtend, BitVec.toNat_setWidth, small]
  have padding : modulus ∣ if value.msb then 2 ^ abi.sizeBits - 2 ^ 32 else 0 := by
    split
    · exact Nat.dvd_sub (divides.trans wide) divides
    · exact dvd_zero modulus
  rw [extended, Nat.add_mod, Nat.mod_eq_zero_of_dvd padding, Nat.add_zero, Nat.mod_mod]

/-- The `int` holding a natural number below `2 ^ 31` has that value. -/
theorem ofNat_toInt (value : Nat) (fits : value < 2 ^ 31) :
    (BitVec.ofNat 32 value).toInt = (value : Int) := by
  have exact : (BitVec.ofNat 32 value).toNat = value := by
    rw [BitVec.toNat_ofNat]
    exact Nat.mod_eq_of_lt (by omega)
  rw [BitVec.toInt_eq_toNat_of_lt (by omega), exact]

/-- A nonnegative `int` keeps its value when converted to `size_t`. -/
theorem toSize_ofInt (abi : Abi) (value : Nat) (fits : value < 2 ^ 31) :
    (abi.toSize (BitVec.ofInt 32 value)).toNat = value := by
  have same : (BitVec.ofInt 32 value).toNat = value := by
    rw [BitVec.ofInt_natCast, BitVec.toNat_ofNat]
    exact Nat.mod_eq_of_lt (by omega)
  have positive : (BitVec.ofInt 32 value).msb = false := by
    rw [BitVec.msb_eq_false_iff_two_mul_lt, same]
    omega
  have wide : value < 2 ^ abi.sizeBits :=
    lt_of_lt_of_le fits (Nat.pow_le_pow_right (by decide) (le_trans (by decide) abi.sizeBits_ge))
  rw [Abi.toSize, BitVec.toNat_signExtend, BitVec.toNat_setWidth, same, positive,
    Nat.mod_eq_of_lt wide]
  rfl

/-- Remainder of nonnegative operands is the mathematical one, so it can serve as an index. -/
theorem srem_ofNat_toInt (value modulus : Nat) (fits : value < 2 ^ 31)
    (modulusFits : modulus < 2 ^ 31) :
    ((BitVec.ofNat 32 value).srem (BitVec.ofNat 32 modulus)).toInt =
      ((value % modulus : Nat) : Int) := by
  rw [BitVec.toInt_srem, ofNat_toInt value fits, ofNat_toInt modulus modulusFits]
  exact (Int.ofNat_tmod value modulus).symm

/-- The `int` that a number from `2 ^ 31` to `2 ^ 32` wraps to is negative, by what is missing to
`2 ^ 32`. -/
theorem ofNat_toInt_wrapped (value : Nat) (above : 2 ^ 31 ≤ value) (below : value < 2 ^ 32) :
    (BitVec.ofNat 32 value).toInt = -((2 ^ 32 - value : Nat) : Int) := by
  have exact : (BitVec.ofNat 32 value).toNat = value := by
    rw [BitVec.toNat_ofNat]
    exact Nat.mod_eq_of_lt below
  rw [BitVec.toInt_eq_toNat_cond, exact, if_neg (by omega)]
  omega

/-- The remainder of a product that has wrapped to a negative `int` is not positive. -/
theorem srem_ofNat_wrapped (value modulus : Nat) (above : 2 ^ 31 ≤ value) (below : value < 2 ^ 32)
    (modulusFits : modulus < 2 ^ 31) :
    ((BitVec.ofNat 32 value).srem (BitVec.ofNat 32 modulus)).toInt =
      -(((2 ^ 32 - value) % modulus : Nat) : Int) := by
  rw [BitVec.toInt_srem, ofNat_toInt_wrapped value above below, ofNat_toInt modulus modulusFits,
    Int.neg_tmod]
  exact congrArg Neg.neg (Int.ofNat_tmod _ modulus).symm

end Foundations.CArithmetic
