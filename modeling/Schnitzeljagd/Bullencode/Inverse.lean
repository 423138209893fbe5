import Schnitzeljagd.Bullencode.Safe
import Schnitzeljagd.Foundations.Loops
import Schnitzeljagd.Foundations.PositionalCipher
import Mathlib.Data.BitVec
import Mathlib.Data.Fintype.EquivFin

/-!
# Bullencode is a positional cipher

The seed of a position does not depend on the text, and each of the sixteen
rounds is an exclusive or followed by the table `box`, which is a permutation.
So a position is enciphered by a cascade of sixteen permutations, `encrypt`
computes the positional cipher of that schedule, and `decrypt` the cipher of the
inverse schedule. Both are proved from the functions as the source writes them,
with their own index arithmetic, and within the range where the products of
`encrypt` fit an `int`. The two directions of invertibility follow.
-/

namespace Schnitzeljagd.Bullencode

open Foundations.CArithmetic Foundations.Loops Foundations.PositionalCipher

/-! ## Tables -/

/-- The table of keys has as many entries as the remainders by which it is read. -/
theorem keytable_length : keytable.length = 1024 := by decide +kernel

/-- The box has an entry for every byte, so that a byte is always an index into it. -/
theorem box_length : box.length = 256 := by decide +kernel

/-- The entry of `box` for a byte. There always is one, since the box has 256 of them. -/
def boxAt (index : Byte) : Byte := box.getD index.toNat 0

/-- The entry of `keytable` for an index modulo its size, which is what both signed and unsigned
remainders come to. -/
def keyAt (index : Nat) : Byte := keytable.getD (index % 1024) 0

/-- The index at which `backbox` finds a byte, as a byte. -/
def unboxAt (value : Byte) : Byte := BitVec.ofNat 8 (box.findIdx (· = value))

/-- The set of a list's values as the bits of one number, so that the kernel can compare sets by
comparing numbers. -/
def valueMask (values : List Nat) : Nat := values.foldr (fun value mask => mask ||| 2 ^ value) 0

/-- A bit of the mask says whether its value is in the list. By induction on the list. -/
theorem valueMask_testBit (values : List Nat) (value : Nat) :
    (valueMask values).testBit value = decide (value ∈ values) := by
  induction values with
  | nil => simp [valueMask]
  | cons head tail inductionHypothesis =>
    have step : valueMask (head :: tail) = valueMask tail ||| 2 ^ head := rfl
    rw [step, Nat.testBit_or, inductionHypothesis, Nat.testBit_two_pow]
    simp [Bool.or_comm, eq_comm]

/-- Every byte value occurs among the entries of `box`. Apart from its length this is all that is
computed about its contents. -/
theorem box_complete : valueMask (box.map BitVec.toNat) = 2 ^ 256 - 1 := by decide +kernel

/-- So the search finds an entry equal to its argument, for any argument. -/
theorem find_box (value : Byte) :
    ∃ inside : box.findIdx (· = value) < box.length, box[box.findIdx (· = value)] = value := by
  have listed : value.toNat ∈ box.map BitVec.toNat := by
    have bit := valueMask_testBit (box.map BitVec.toNat) value.toNat
    rw [box_complete, Nat.testBit_two_pow_sub_one] at bit
    exact of_decide_eq_true (bit.symm.trans (decide_eq_true value.isLt))
  obtain ⟨entry, member, same⟩ := List.mem_map.mp listed
  have inside : box.findIdx (· = value) < box.length :=
    List.findIdx_lt_length_of_exists ⟨entry, member, by simp [BitVec.eq_of_toNat_eq same]⟩
  refine ⟨inside, ?_⟩
  have found := @List.findIdx_getElem Byte (fun entry => decide (entry = value)) box inside
  exact of_decide_eq_true found

/-- Every byte occurs in `box`, so the search never falls off its loop. -/
theorem backbox_eq (value : Byte) : backbox value = some (unboxAt value) := by
  obtain ⟨inside, _⟩ := find_box value
  have search : box.findIdx? (· = value) = some (box.findIdx (· = value)) :=
    (List.findIdx?_eq_some_iff_findIdx_eq).mpr ⟨inside, rfl⟩
  rw [backbox, search]
  rfl

/-- Searching for a byte and looking it up again gives the byte, since the search finds an equal
entry. -/
theorem box_unbox (value : Byte) : boxAt (unboxAt value) = value := by
  obtain ⟨inside, found⟩ := find_box value
  have index : (unboxAt value).toNat = box.findIdx (· = value) := by
    rw [unboxAt, BitVec.toNat_ofNat]
    exact Nat.mod_eq_of_lt (by rwa [box_length] at inside)
  rw [boxAt, index, List.getD_eq_getElem box 0 inside, found]

/-- `box` reaches every byte, and there are only finitely many, so it repeats none. -/
theorem unbox_box (index : Byte) : unboxAt (boxAt index) = index := by
  have finite : Finite Byte := Finite.of_equiv _ (BitVec.equivFin (m := 8)).toEquiv.symm
  have injective : Function.Injective boxAt :=
    Finite.injective_iff_surjective.mpr fun value => ⟨unboxAt value, box_unbox value⟩
  exact injective (box_unbox (boxAt index))

/-- `box` as a permutation of the bytes, with the search as its inverse. -/
def boxPerm : Equiv.Perm Byte := ⟨boxAt, unboxAt, unbox_box, box_unbox⟩

/-- Reading `box` at a promoted byte stays inside it, whatever the byte. -/
theorem load_box (index : Byte) : load box (promote index).toInt = some (boxAt index) := by
  have inside : index.toNat < box.length := by
    rw [box_length]
    exact index.isLt
  rw [promote_toInt, load_natCast, List.getElem?_eq_getElem inside, boxAt,
    List.getD_eq_getElem box 0 inside]

/-- Reading `keytable` at a remainder stays inside it, whatever was divided. -/
theorem load_keytable (index : Nat) :
    load keytable ((index % 1024 : Nat) : Int) = some (keyAt index) := by
  have inside : index % 1024 < keytable.length := by
    rw [keytable_length]
    exact Nat.mod_lt _ (by decide)
  rw [load_natCast, List.getElem?_eq_getElem inside, keyAt,
    List.getD_eq_getElem keytable 0 inside]

/-! ## Index arithmetic -/

/-- The largest buffer length for which every product of `encrypt` fits an `int`. Longer buffers
are a matter of their own. -/
def maxLength : Nat := 8421505

/-- For the sixteen rounds, `round | round<<4` is seventeen times `round`, since the two halves
have no bit in common. -/
theorem round_bits : ∀ round < 16,
    (BitVec.ofNat 32 round ||| BitVec.ofNat 32 round <<< 4 : CInt) =
      BitVec.ofNat 32 (17 * round) := by
  decide

/-- The product of the source, modulo the width of an `int`, for the sixteen rounds. -/
theorem roundProduct_eq (i round : Nat) (bounded : round < 16) :
    roundProduct (BitVec.ofNat 32 i) (BitVec.ofNat 32 round) =
      BitVec.ofNat 32 (17 * i * round) := by
  rw [roundProduct, round_bits round bounded, ← BitVec.ofNat_mul]
  congr 1
  ring

/-- Below the length limit the signed remainder of `encrypt` is the mathematical one. -/
theorem encryptIndex_eq (i round : Nat) (inside : i < maxLength) (bounded : round < 16) :
    encryptIndex (BitVec.ofNat 32 i) (BitVec.ofNat 32 round) =
      ((17 * i * round % 1024 : Nat) : Int) := by
  have fits : 17 * i * round < 2 ^ 31 := by
    have largest : 17 * i * round ≤ 17 * 8421504 * 15 :=
      Nat.mul_le_mul (Nat.mul_le_mul_left 17 (by unfold maxLength at inside; omega)) (by omega)
    omega
  rw [encryptIndex, roundProduct_eq i round bounded]
  exact srem_ofNat_toInt (17 * i * round) 1024 fits (by decide)

/-- The unsigned remainder of `decrypt` is the mathematical one at every position,
since wrapping does not change a value modulo 1024. -/
theorem decryptIndex_eq (abi : Abi) (i round : Nat) (bounded : round < 16) :
    decryptIndex abi (BitVec.ofNat 32 i) (BitVec.ofNat 32 round) =
      ((17 * i * round % 1024 : Nat) : Int) := by
  rw [decryptIndex, keytable_length, toSize_mod abi _ 1024 (by decide),
    roundProduct_eq i round bounded, BitVec.toNat_ofNat,
    Nat.mod_mod_of_dvd _ (by decide : 1024 ∣ 2 ^ 32)]

/-- The key that `decrypt` takes for a position, which is the one modulo the size of the table. -/
theorem unsignedKey_eq (abi : Abi) (i : Nat) :
    unsignedKey abi (BitVec.ofNat 32 i) = some (keyAt i) := by
  rw [unsignedKey, keytable_length, toSize_mod abi _ 1024 (by decide), BitVec.toNat_ofNat,
    Nat.mod_mod_of_dvd _ (by decide : 1024 ∣ 2 ^ 32), load_keytable]

/-- The key that `encrypt` takes for a position that an `int` can hold. -/
theorem signedKey_eq (i : Nat) (fits : i < 2 ^ 31) :
    signedKey (BitVec.ofNat 32 i) = some (keyAt i) := by
  have index := srem_ofNat_toInt i 1024 fits (by decide)
  rw [signedKey, show (0x400 : CInt) = BitVec.ofNat 32 1024 from rfl, index, load_keytable]

/-! ## Seeds and rounds -/

/-- The seed of a position from the seed before it. No byte of the text goes into it. -/
def nextSeed (i : Nat) (seed : Byte) : Byte := boxAt (seed ^^^ keyAt i) ^^^ keyAt i

/-- The seed before a position: it depends on the position only, so that both directions can
compute it. -/
def seedBefore : Nat → Byte
  | 0 => 0x42
  | i + 1 => nextSeed i (seedBefore i)

/-- The seed of a position, as `encrypt` computes it, with one remainder unsigned and one signed.
-/
theorem encryptSeed_eq (abi : Abi) (i : Nat) (seed : Byte) (fits : i < 2 ^ 31) :
    encryptSeed abi (BitVec.ofNat 32 i) seed = some (nextSeed i seed) := by
  simp only [encryptSeed, unsignedKey_eq, signedKey_eq i fits, promote_xor, load_box,
    toUChar_promote, Option.bind_eq_bind, Option.bind_some]
  rfl

/-- The seed of a position, as `decrypt` computes it, with both remainders unsigned. It is the
same seed. -/
theorem decryptSeed_eq (abi : Abi) (i : Nat) (seed : Byte) :
    decryptSeed abi (BitVec.ofNat 32 i) seed = some (nextSeed i seed) := by
  simp only [decryptSeed, unsignedKey_eq, promote_xor, load_box, toUChar_promote,
    Option.bind_eq_bind, Option.bind_some]
  rfl

/-- One round at a position with a given seed, as a permutation of the bytes. -/
def roundPerm (i : Nat) (seed : Byte) (round : Nat) : Equiv.Perm Byte :=
  (xorPerm (seed ^^^ keyAt (17 * i * round))).trans boxPerm

/-- The permutation of a position: sixteen rounds under the seed of the position. -/
def schedule : Schedule Byte := fun i =>
  cascade ((List.range 16).map (roundPerm i (seedBefore (i + 1))))

/-- One round of `encrypt` applies the permutation of the round, as long as its index is not
negative. -/
theorem encryptRound_eq (i round : Nat) (seed b : Byte) (inside : i < maxLength)
    (bounded : round < 16) :
    encryptRound (BitVec.ofNat 32 i) seed b (BitVec.ofNat 32 round) =
      some (roundPerm i seed round b) := by
  have mixed : seed ^^^ b ^^^ keyAt (17 * i * round) =
      b ^^^ (seed ^^^ keyAt (17 * i * round)) := by
    rw [BitVec.xor_comm seed b, BitVec.xor_assoc]
  rw [encryptRound, encryptIndex_eq i round inside bounded, load_keytable]
  simp only [Option.bind_eq_bind, Option.bind_some, promote_xor, load_box, mixed]
  rfl

/-- One round of `decrypt` applies its inverse, at any position. -/
theorem decryptRound_eq (abi : Abi) (i round : Nat) (seed b : Byte) (bounded : round < 16) :
    decryptRound abi (BitVec.ofNat 32 i) seed b (BitVec.ofNat 32 round) =
      some ((roundPerm i seed round).symm b) := by
  rw [decryptRound, decryptIndex_eq abi i round bounded, load_keytable, backbox_eq]
  simp only [Option.bind_eq_bind, Option.bind_some, toUChar_xor, toUChar_charValue,
    toUChar_promote, BitVec.xor_assoc]
  rfl

/-- The round loop of `encrypt` applies the permutation of the position, one round after the
other. -/
theorem encryptRounds_eq (i : Nat) (b : Byte) (inside : i < maxLength) :
    rounds.foldlM (encryptRound (BitVec.ofNat 32 i) (seedBefore (i + 1))) b =
      some (schedule i b) := by
  rw [rounds, List.foldlM_map, foldlM_total _
    (fun current round => roundPerm i (seedBefore (i + 1)) round current)]
  · rw [schedule, cascade_apply, List.foldl_map]
  · intro current round member
    exact encryptRound_eq i round _ current inside (List.mem_range.mp member)

/-- The round loop of `decrypt` applies the inverse permutation of the position, going through the
rounds backwards. -/
theorem decryptRounds_eq (abi : Abi) (i : Nat) (b : Byte) :
    rounds.reverse.foldlM (decryptRound abi (BitVec.ofNat 32 i) (seedBefore (i + 1))) b =
      some (inverse schedule i b) := by
  rw [rounds, ← List.map_reverse, List.foldlM_map, foldlM_total _
    (fun current round => (roundPerm i (seedBefore (i + 1)) round).symm current)]
  · rw [inverse, schedule, cascade_symm_apply, ← List.map_reverse, List.foldl_map]
  · intro current round member
    exact decryptRound_eq abi i round _ current
      (List.mem_range.mp (List.mem_reverse.mp member))

/-! ## Whole buffers -/

/-- The state of either outer loop before position `i` when the loop enciphers by
`positions`: the seed, and the target buffer overwritten up to that position. -/
def progress (positions : Schedule Byte) (source target : List Byte) (i : Nat) :
    Byte × List Byte :=
  (seedBefore i, encode positions (source.take i) ++ target.drop i)

/-- One store moves the progress by one position. -/
theorem store_progress (positions : Schedule Byte) (source target : List Byte) (i : Nat)
    (sourceInside : i < source.length) (targetInside : i < target.length) :
    store (encode positions (source.take i) ++ target.drop i) i (positions i source[i]) =
      some (encode positions (source.take (i + 1)) ++ target.drop (i + 1)) := by
  have written : (encode positions (source.take i)).length = i := by
    rw [encode_length, List.length_take]
    omega
  have room : i < (encode positions (source.take i) ++ target.drop i).length := by
    rw [List.length_append, written, List.length_drop]
    omega
  rw [store_natCast _ i _ room, List.set_append_right i _ (by omega), written, Nat.sub_self,
    List.drop_eq_getElem_cons targetInside, List.set_cons_zero,
    List.take_succ_eq_append_getElem sourceInside, encode_concat, List.length_take,
    Nat.min_eq_left (by omega), List.append_assoc, List.singleton_append]

/-- One turn of the loop of `encrypt`, as a step of the positional cipher. -/
theorem encryptStep_progress (abi : Abi) (source target : List Byte) (i : Nat)
    (inside : i < maxLength) (sourceInside : i < source.length)
    (targetInside : i < target.length) :
    encryptStep abi source (progress schedule source target i) i =
      some (progress schedule source target (i + 1)) := by
  have small : i < 2 ^ 31 := by
    unfold maxLength at inside
    omega
  simp only [encryptStep, progress, load_natCast, List.getElem?_eq_getElem sourceInside,
    encryptSeed_eq abi i _ small, Option.bind_eq_bind, Option.bind_some]
  rw [show nextSeed i (seedBefore i) = seedBefore (i + 1) from rfl,
    encryptRounds_eq i source[i] inside, Option.bind_some,
    store_progress schedule source target i sourceInside targetInside]
  rfl

/-- One turn of the loop of `decrypt`, as a step of the inverse cipher. -/
theorem decryptStep_progress (abi : Abi) (source target : List Byte) (i : Nat)
    (sourceInside : i < source.length) (targetInside : i < target.length) :
    decryptStep abi source (progress (inverse schedule) source target i) i =
      some (progress (inverse schedule) source target (i + 1)) := by
  simp only [decryptStep, progress, load_natCast, List.getElem?_eq_getElem sourceInside,
    decryptSeed_eq, Option.bind_eq_bind, Option.bind_some]
  rw [show nextSeed i (seedBefore i) = seedBefore (i + 1) from rfl, decryptRounds_eq,
    Option.bind_some, store_progress (inverse schedule) source target i sourceInside targetInside]
  rfl

/-- `encrypt` overwrites the first `len` bytes of the target by the positional
cipher of the source, and leaves the rest. -/
theorem encrypt_eq (abi : Abi) (source target : List Byte) (len : Nat)
    (inside : len ≤ maxLength) (sourceFits : len ≤ source.length)
    (targetFits : len ≤ target.length) :
    encrypt abi source target len =
      some (encode schedule (source.take len) ++ target.drop len) := by
  have loop := foldlM_trajectory (encryptStep abi source) (progress schedule source target) len
    fun i below => encryptStep_progress abi source target i (by omega) (by omega) (by omega)
  rw [encrypt, Int.toNat_natCast]
  exact congrArg (Option.map Prod.snd) loop

/-- `decrypt` does the same with the inverse schedule, and without a limit on the length. -/
theorem decrypt_eq (abi : Abi) (source target : List Byte) (len : Nat)
    (sourceFits : len ≤ source.length) (targetFits : len ≤ target.length) :
    decrypt abi source target len =
      some (encode (inverse schedule) (source.take len) ++ target.drop len) := by
  have loop := foldlM_trajectory (decryptStep abi source)
    (progress (inverse schedule) source target) len
    fun i below => decryptStep_progress abi source target i (by omega) (by omega)
  rw [decrypt, Int.toNat_natCast]
  exact congrArg (Option.map Prod.snd) loop

/-- The published loop body differs only in how it writes the store. -/
theorem bullsafe_encrypt_eq (abi : Abi) (source target : List Byte) (len : Int) :
    Bullsafe.encrypt abi source target len = encrypt abi source target len := rfl

/-- A whole buffer of admitted length is enciphered to the positional cipher. -/
theorem encrypt_whole (abi : Abi) (p target : List Byte) (inside : p.length ≤ maxLength)
    (room : target.length = p.length) :
    encrypt abi p target p.length = some (encode schedule p) := by
  rw [encrypt_eq abi p target p.length inside le_rfl room.ge, List.take_length, ← room,
    List.drop_length, List.append_nil]

/-- A whole buffer of any length is deciphered. -/
theorem decrypt_whole (abi : Abi) (p target : List Byte) (room : target.length = p.length) :
    decrypt abi p target p.length = some (encode (inverse schedule) p) := by
  rw [decrypt_eq abi p target p.length le_rfl room.ge, List.take_length, ← room,
    List.drop_length, List.append_nil]

/-- Bullencode is invertible in both directions, with any platform's `char` and `size_t` and
whatever the target buffers hold before. Every call has a result, so no read leaves a table and
`backbox` always returns.

Both loops walk the same schedule of permutations, one for each position: the seed depends on the
position alone (`seedBefore`), and a round is a permutation because `box` repeats no byte
(`unbox_box`). The rounds of `decrypt` are those of `encrypt` inverted and taken backwards. What
remains is that signed and unsigned index arithmetic agree, for which the length is bounded. -/
theorem bullencode_invertible (abi : Abi) (p first second : List Byte)
    (inside : p.length ≤ maxLength) (firstRoom : first.length = p.length)
    (secondRoom : second.length = p.length) :
    (∃ c, encrypt abi p first p.length = some c ∧
      decrypt abi c second p.length = some p) ∧
    (∃ c, decrypt abi p first p.length = some c ∧
      encrypt abi c second p.length = some p) ∧
    (∃ c, Bullsafe.encrypt abi p first p.length = some c ∧
      decrypt abi c second p.length = some p) := by
  have encrypted : (encode schedule p).length = p.length := encode_length schedule p
  have decrypted : (encode (inverse schedule) p).length = p.length := encode_length _ p
  have forth : decrypt abi (encode schedule p) second p.length = some p := by
    have whole := decrypt_whole abi (encode schedule p) second (by rw [encrypted, secondRoom])
    rwa [encrypted, decode_encode] at whole
  have back : encrypt abi (encode (inverse schedule) p) second p.length = some p := by
    have whole := encrypt_whole abi (encode (inverse schedule) p) second
      (by rwa [decrypted]) (by rw [decrypted, secondRoom])
    rw [decrypted] at whole
    exact whole.trans (congrArg some (decode_encode (inverse schedule) p))
  refine ⟨⟨_, encrypt_whole abi p first inside firstRoom, forth⟩,
    ⟨_, decrypt_whole abi p first firstRoom, back⟩, ⟨_, ?_, forth⟩⟩
  rw [bullsafe_encrypt_eq]
  exact encrypt_whole abi p first inside firstRoom

/-- Two bytes in buffers that held other bytes before. -/
theorem bullencode_invertible_two :
    (∃ c, encrypt ⟨true, 32, le_rfl⟩ [0, 255] [7, 7] 2 = some c ∧
      decrypt ⟨true, 32, le_rfl⟩ c [9, 9] 2 = some [0, 255]) ∧
    (∃ c, decrypt ⟨true, 32, le_rfl⟩ [0, 255] [7, 7] 2 = some c ∧
      encrypt ⟨true, 32, le_rfl⟩ c [9, 9] 2 = some [0, 255]) ∧
    (∃ c, Bullsafe.encrypt ⟨true, 32, le_rfl⟩ [0, 255] [7, 7] 2 = some c ∧
      decrypt ⟨true, 32, le_rfl⟩ c [9, 9] 2 = some [0, 255]) :=
  bullencode_invertible ⟨true, 32, le_rfl⟩ [0, 255] [7, 7] [9, 9] (by decide) rfl rfl

end Schnitzeljagd.Bullencode
