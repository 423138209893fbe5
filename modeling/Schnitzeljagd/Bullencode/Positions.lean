import Schnitzeljagd.Bullencode.Inverse

/-!
# Positions of a buffer

Two results about single positions. The index that `encrypt` computes into `keytable` is
that of `decrypt` until a product leaves the range of `int` and wraps to a negative
number; its signed remainder then points before the table. Buffers of up to `maxLength`
bytes stay clear of that, and no longer ones do.

Within that length a position is enciphered by itself: what a byte becomes depends on the
byte and its position, and on no other byte of the buffer.
-/

namespace Schnitzeljagd.Bullencode

open Foundations.CArithmetic Foundations.PositionalCipher

/-! ## The index into the key table -/

/-- `encrypt` and `decrypt` compute the same index, which lies in the table and is the
remainder of the exact product. -/
def IndexSound (abi : Abi) (i round : Nat) : Prop :=
  encryptIndex (BitVec.ofNat 32 i) (BitVec.ofNat 32 round) =
      decryptIndex abi (BitVec.ofNat 32 i) (BitVec.ofNat 32 round) ∧
    0 ≤ encryptIndex (BitVec.ofNat 32 i) (BitVec.ofNat 32 round) ∧
    encryptIndex (BitVec.ofNat 32 i) (BitVec.ofNat 32 round) ≤ 1023 ∧
    encryptIndex (BitVec.ofNat 32 i) (BitVec.ofNat 32 round) = ((17 * i * round % 1024 : Nat) : Int)

/-- The index of `encrypt`, which sees the product modulo `2 ^ 32`. -/
theorem encryptIndex_wrapped (i round : Nat) (bounded : round < 16) :
    encryptIndex (BitVec.ofNat 32 i) (BitVec.ofNat 32 round) =
      if 17 * i * round % 2 ^ 32 < 2 ^ 31 then ((17 * i * round % 1024 : Nat) : Int)
      else -(((2 ^ 32 - 17 * i * round % 2 ^ 32) % 1024 : Nat) : Int) := by
  have wrapped : BitVec.ofNat 32 (17 * i * round) = BitVec.ofNat 32 (17 * i * round % 2 ^ 32) := by
    apply BitVec.eq_of_toNat_eq
    simp
  rw [encryptIndex, roundProduct_eq i round bounded, wrapped]
  split
  · next small =>
    have index := srem_ofNat_toInt _ 1024 small (by decide)
    rw [Nat.mod_mod_of_dvd _ (by decide : 1024 ∣ 2 ^ 32)] at index
    exact index
  · next large =>
    exact srem_ofNat_wrapped _ 1024 (Nat.le_of_not_lt large) (Nat.mod_lt _ (by decide)) (by decide)

/-- The index is sound unless the product wraps to a negative number that the size of
the table does not divide. -/
theorem indexSound_iff (abi : Abi) (i round : Nat) (bounded : round < 16) :
    IndexSound abi i round ↔
      17 * i * round % 2 ^ 32 < 2 ^ 31 ∨ 1024 ∣ 17 * i * round := by
  rw [IndexSound, decryptIndex_eq abi i round bounded, encryptIndex_wrapped i round bounded]
  generalize 17 * i * round = product
  split
  · next small =>
    constructor
    · intro _
      exact Or.inl small
    · intro _
      omega
  · next large =>
    constructor
    · rintro ⟨same, _⟩
      omega
    · rintro (small | ⟨quotient, rfl⟩)
      · exact absurd small large
      · omega

/-- The first position behind the longest sound buffer wraps in the last round. -/
theorem maxLength_unsound (abi : Abi) : ¬IndexSound abi maxLength 15 := by
  rw [indexSound_iff abi maxLength 15 (by decide)]
  decide

/-- At a position and in a round the index is sound exactly if the wrapped product is not negative
or the size of the table divides the product. All indices for a buffer are sound exactly if it has
at most `maxLength` bytes.

The product is largest in the last round and at the last position. Up to `maxLength` bytes it
stays below 2^31, so that nothing wraps, and one byte later the last round makes it negative
without the table dividing it. -/
theorem key_index_sound_iff (abi : Abi) (len : Nat) :
    (∀ i < len, ∀ round < 16, (IndexSound abi i round ↔
      17 * i * round % 2 ^ 32 < 2 ^ 31 ∨ 1024 ∣ 17 * i * round)) ∧
    ((∀ i < len, ∀ round < 16, IndexSound abi i round) ↔ len ≤ maxLength) := by
  constructor
  · intro i _ round bounded
    exact indexSound_iff abi i round bounded
  · constructor
    · intro sound
      by_contra longer
      exact maxLength_unsound abi (sound maxLength (Nat.lt_of_not_le longer) 15 (by decide))
    · intro short i inside round bounded
      apply (indexSound_iff abi i round bounded).mpr
      have largest : 17 * i * round ≤ 17 * 8421504 * 15 :=
        Nat.mul_le_mul (Nat.mul_le_mul_left 17 (by unfold maxLength at short; omega)) (by omega)
      left
      omega

/-- At position 8421505 the index of the last round of `encrypt` is -897 and that of
`decrypt` is 127. -/
theorem key_index_negative :
    encryptIndex (BitVec.ofNat 32 8421505) (BitVec.ofNat 32 15) = -897 ∧
      decryptIndex ⟨true, 32, le_rfl⟩ (BitVec.ofNat 32 8421505) (BitVec.ofNat 32 15) = 127 ∧
      load keytable (encryptIndex (BitVec.ofNat 32 8421505) (BitVec.ofNat 32 15)) = none := by
  decide +kernel

/-! ## Position by position -/

/-- Whatever two buffers hold, a function on buffers makes the same byte of a position
exactly if they have the same byte there. So it makes the beginning of the result of the
beginning of a buffer, and another byte at a position changes the result at that position
and nowhere else. -/
def PositionByPosition (transform : List Byte → List Byte → Int → Option (List Byte)) : Prop :=
  ∀ p q first second : List Byte, p.length ≤ maxLength → q.length ≤ maxLength →
    first.length = p.length → second.length = q.length →
    ∃ made made', transform p first p.length = some made ∧
      transform q second q.length = some made' ∧
      made.length = p.length ∧ made'.length = q.length ∧
      (∀ i < p.length, i < q.length → (made[i]? = made'[i]? ↔ p[i]? = q[i]?)) ∧
      (∀ count, q = p.take count → made' = made.take count) ∧
      ∀ i b, i < p.length → p[i]? ≠ some b → q = p.set i b →
        ∃ changed, made[i]? ≠ some changed ∧ made' = made.set i changed

/-- A positional cipher works position by position. -/
theorem encodes_position_by_position
    (transform : List Byte → List Byte → Int → Option (List Byte)) (positions : Schedule Byte)
    (encodes : ∀ p target : List Byte, p.length ≤ maxLength → target.length = p.length →
      transform p target p.length = some (encode positions p)) :
    PositionByPosition transform := by
  intro p q first second shortP shortQ roomP roomQ
  refine ⟨encode positions p, encode positions q, encodes p first shortP roomP,
    encodes q second shortQ roomQ, encode_length positions p, encode_length positions q, ?_, ?_, ?_⟩
  · intro i _ _
    exact encode_getElem?_eq_iff positions p q i
  · rintro count rfl
    exact encode_take positions p count
  · rintro i b inside other rfl
    refine ⟨positions i b, ?_, encode_set positions p i b⟩
    intro same
    have unchanged : (p.set i b)[i]? = p[i]? := by
      apply (encode_getElem?_eq_iff positions _ p i).mp
      rw [same, encode_set, List.getElem?_set_self (by rwa [encode_length])]
    rw [List.getElem?_set_self inside] at unchanged
    exact other unchanged.symm

/-- Bullencode works position by position in both directions.

Both `encrypt` and `decrypt` have the result of a positional cipher, one with the schedule of
bytes to be subtracted and one with its inverse, and every positional cipher has the three
properties. -/
theorem bullencode_position_by_position (abi : Abi) :
    PositionByPosition (encrypt abi) ∧ PositionByPosition (decrypt abi) := by
  constructor
  · exact encodes_position_by_position _ schedule fun p target => encrypt_whole abi p target
  · exact encodes_position_by_position _ (inverse schedule) fun p target _ =>
      decrypt_whole abi p target

end Schnitzeljagd.Bullencode
