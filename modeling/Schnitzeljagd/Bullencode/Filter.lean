import Schnitzeljagd.Bullencode.Inverse

/-!
# Whole streams through the filter

`main` enciphers what each `read` delivers as a block of its own, starting again
at position zero. So `safe -e` and `safe -d` compute a positional stream cipher
over the cut of the stream that the reads make, and `safe -d` restores every
stream exactly when its reads cut the stream where the reads of `safe -e` did.

That different cuts really fail rests on the tables: the first position of a
block is enciphered unlike each of the 999 others. This is checked by evaluating
the schedule on the bytes zero and one, with the tables packed into numbers.
-/

namespace Schnitzeljagd.Bullencode

open Foundations.CArithmetic Foundations.PositionalCipher

/-! ## The first position is unlike the others -/

/-- A table as one number, its entries the digits to the base 256, so that the kernel can look
entries up by shifting. -/
def packed : List Byte → Nat
  | [] => 0
  | entry :: rest => entry.toNat + 256 * packed rest

/-- An entry of the table is a digit of the number. -/
theorem packed_digit (table : List Byte) (index : Nat) :
    (packed table >>> (8 * index)) % 256 = (table.getD index 0).toNat := by
  induction table generalizing index with
  | nil => simp [packed]
  | cons entry rest inductionHypothesis =>
    have small : entry.toNat < 256 := entry.isLt
    cases index with
    | zero =>
      simp only [packed, Nat.mul_zero, Nat.shiftRight_zero, List.getD_cons_zero]
      omega
    | succ index =>
      have tail : packed (entry :: rest) >>> 8 = packed rest := by
        rw [Nat.shiftRight_eq_div_pow, packed]
        omega
      rw [List.getD_cons_succ, ← inductionHypothesis index, Nat.mul_succ, Nat.add_comm,
        Nat.shiftRight_add, tail]

/-- The entry of `keytable` for an index, read off the number. -/
def digitOfKey (i : Nat) : Nat := (packed keytable >>> (8 * (i % 1024))) % 256

/-- The entry of `box` for a byte, read off the number. -/
def digitOfBox (index : Nat) : Nat := (packed box >>> (8 * index)) % 256

/-- `nextSeed` on numbers. -/
def seedDigit (i seed : Nat) : Nat := digitOfBox (seed ^^^ digitOfKey i) ^^^ digitOfKey i

/-- The first `rounds` rounds of a position on numbers. Everything is computed on numbers below
256. -/
def roundDigits (i seed b : Nat) : Nat → Nat
  | 0 => b
  | round + 1 =>
    digitOfBox (roundDigits i seed b round ^^^ (seed ^^^ digitOfKey (17 * i * round)))

/-- Both ways of reading the table of keys agree. -/
theorem digitOfKey_eq (i : Nat) : digitOfKey i = (keyAt i).toNat := packed_digit keytable _

/-- Both ways of reading the box agree. -/
theorem digitOfBox_eq (index : Byte) : digitOfBox index.toNat = (boxAt index).toNat :=
  packed_digit box _

/-- Seeds computed on numbers are the seeds of the cipher. -/
theorem seedDigit_eq (i : Nat) (seed : Byte) :
    seedDigit i seed.toNat = (nextSeed i seed).toNat := by
  rw [seedDigit, digitOfKey_eq, ← BitVec.toNat_xor, digitOfBox_eq, ← BitVec.toNat_xor]
  rfl

/-- Rounds computed on numbers are the rounds of the cipher. -/
theorem roundDigits_eq (i : Nat) (seed b : Byte) (count : Nat) :
    roundDigits i seed.toNat b.toNat count =
      ((List.range count).foldl (fun current round => roundPerm i seed round current) b).toNat := by
  induction count with
  | zero => rfl
  | succ count inductionHypothesis =>
    rw [roundDigits, inductionHypothesis, digitOfKey_eq, ← BitVec.toNat_xor, ← BitVec.toNat_xor,
      digitOfBox_eq, List.range_succ, List.foldl_append]
    rfl

/-- The schedule at a position, evaluated on numbers. This is what makes the comparison of a
thousand positions feasible. -/
theorem schedule_digits (i : Nat) (b : Byte) :
    (schedule i b).toNat = roundDigits i (seedBefore (i + 1)).toNat b.toNat 16 := by
  rw [roundDigits_eq, schedule, cascade_apply, List.foldl_map]

/-- Starting from position `i` and the seed before it, the next `count` positions
send byte zero or byte one elsewhere than the given values. -/
def differFrom (atZero atOne : Nat) : Nat → Nat → Nat → Bool
  | 0, _, _ => true
  | count + 1, i, seed =>
    (roundDigits i (seedDigit i seed) 0 16 != atZero ||
      roundDigits i (seedDigit i seed) 1 16 != atOne)
      && differFrom atZero atOne count (i + 1) (seedDigit i seed)

/-- What the comparison says about numbers holds for the permutations of the positions. -/
theorem differFrom_sound (atZero atOne count start : Nat)
    (differ : differFrom atZero atOne count start (seedBefore start).toNat = true) (i : Nat)
    (above : start ≤ i) (below : i < start + count) :
    (schedule i 0).toNat ≠ atZero ∨ (schedule i 1).toNat ≠ atOne := by
  induction count generalizing start with
  | zero => omega
  | succ count inductionHypothesis =>
    rw [differFrom, seedDigit_eq, Bool.and_eq_true, Bool.or_eq_true, bne_iff_ne, bne_iff_ne]
      at differ
    obtain rfl | later := Nat.eq_or_lt_of_le above
    · rw [schedule_digits, schedule_digits]
      exact differ.1
    · exact inductionHypothesis (start + 1) differ.2 later (by omega)

/-- The comparison itself, evaluated once for all positions of a block but the first. -/
theorem later_positions_differ :
    differFrom (roundDigits 0 (seedDigit 0 0x42) 0 16) (roundDigits 0 (seedDigit 0 0x42) 1 16)
      999 1 (seedDigit 0 0x42) = true := by
  decide +kernel

/-- Every later position of a block enciphers byte zero or byte one unlike the first position, so
a byte that changes its position is lost for some text. -/
theorem first_position_separated (i : Nat) (positive : 0 < i) (below : i < bufferSize) :
    ∃ b, schedule i b ≠ schedule 0 b := by
  have firstSeed : seedDigit 0 0x42 = (seedBefore 1).toNat := seedDigit_eq 0 0x42
  have atZero : roundDigits 0 (seedDigit 0 0x42) 0 16 = (schedule 0 0).toNat := by
    rw [schedule_digits, firstSeed]
    rfl
  have atOne : roundDigits 0 (seedDigit 0 0x42) 1 16 = (schedule 0 1).toNat := by
    rw [schedule_digits, firstSeed]
    rfl
  have checked := later_positions_differ
  rw [atZero, atOne, firstSeed] at checked
  unfold bufferSize at below
  obtain differs | differs := differFrom_sound _ _ 999 1 checked i positive (by omega)
  · exact ⟨0, fun same => differs (congrArg BitVec.toNat same)⟩
  · exact ⟨1, fun same => differs (congrArg BitVec.toNat same)⟩

/-! ## The loop on a stream -/

/-- The bytes of a sequence of reads. -/
def joined (pieces : List Piece) : List Byte := (pieces.map Piece.data).flatten

/-- The sizes of a sequence of reads. -/
def pieceSizes (pieces : List Piece) : List Nat := pieces.map fun piece => piece.data.length

/-- Reads that deliver these pieces and then end of file, every `write` taking all it is offered.
What happens otherwise is the subject of another module. -/
def turns (pieces : List Piece) : List (ReadResult × WriteResult) :=
  pieces.map (fun piece => (.bytes piece, .accepted piece.data.length)) ++
    [(.eof, .accepted 0)]

/-- The bytes that the filter has written once its input has ended, for input read
in these pieces. -/
def filtered (abi : Abi) (name flag : String) (input output : Buffer) (pieces : List Piece) :
    Option (List Byte) :=
  match main abi [name, flag] input output (turns pieces) with
  | some (.filtered state) => some state.stdout
  | _ => none

/-- The pieces have all the bytes. -/
@[simp] theorem pieceSizes_sum (pieces : List Piece) :
    (pieceSizes pieces).sum = (joined pieces).length := by
  simp [pieceSizes, joined, List.length_flatten, Function.comp_def]

/-- A cut of a stream of its length is the cut of some pieces of that stream, so statements about
pieces are statements about cuts. -/
theorem exists_pieces (cut : Cut bufferSize) (stream : List Byte)
    (covers : stream.length = cut.total) :
    ∃ pieces, joined pieces = stream ∧ pieceSizes pieces = cut.sizes := by
  obtain ⟨sizes, positive, bounded⟩ := cut
  simp only [Cut.total] at covers ⊢
  induction sizes generalizing stream with
  | nil => exact ⟨[], (List.eq_nil_of_length_eq_zero covers).symm, rfl⟩
  | cons size sizes inductionHypothesis =>
    rw [List.sum_cons] at covers
    have headLength : (stream.take size).length = size := by
      rw [List.length_take]
      omega
    have tailLength : (stream.drop size).length = sizes.sum := by
      rw [List.length_drop]
      omega
    obtain ⟨pieces, streamRest, sizesRest⟩ := inductionHypothesis (stream.drop size)
      (fun other member => positive other (List.mem_cons_of_mem size member))
      (fun other member => bounded other (List.mem_cons_of_mem size member)) tailLength
    refine ⟨⟨stream.take size, ?_, ?_⟩ :: pieces, ?_, ?_⟩
    · rw [headLength]
      exact positive size (by simp)
    · rw [headLength]
      exact bounded size (by simp)
    · rw [joined, List.map_cons, List.flatten_cons, ← joined, streamRest, List.take_append_drop]
    · rw [pieceSizes, List.map_cons, headLength, ← pieceSizes, sizesRest]

/-- Enciphering the pieces one by one is the positional stream cipher of their cut. -/
theorem encodeStream_pieces (positions : Schedule Byte) (pieces : List Piece) :
    encodeStream positions (pieceSizes pieces) (joined pieces) =
      (pieces.map fun piece => encode positions piece.data).flatten := by
  induction pieces with
  | nil => rfl
  | cons piece pieces inductionHypothesis =>
    unfold encodeStream at inductionHypothesis ⊢
    rw [pieceSizes, joined, List.map_cons, List.map_cons, List.flatten_cons,
      List.splitLengths_cons, List.take_left, List.drop_left, ← pieceSizes, ← joined,
      List.map_cons, List.flatten_cons, inductionHypothesis, List.map_cons, List.flatten_cons]

/-- A function on buffers that enciphers their first `len` bytes by a schedule. -/
def Enciphers (transform : List Byte → List Byte → Int → Option (List Byte))
    (positions : Schedule Byte) : Prop :=
  ∀ source target : List Byte, ∀ len : Nat, len ≤ bufferSize →
    len ≤ source.length → len ≤ target.length →
      transform source target len = some (encode positions (source.take len) ++ target.drop len)

/-- `encrypt` enciphers by the schedule, up to the size of the filter's buffer. -/
theorem encrypt_enciphers (abi : Abi) : Enciphers (encrypt abi) schedule := by
  intro source target len small sourceFits targetFits
  have inside : len ≤ maxLength := le_trans small (by decide)
  exact encrypt_eq abi source target len inside sourceFits targetFits

/-- `decrypt` enciphers by the inverse schedule. -/
theorem decrypt_enciphers (abi : Abi) : Enciphers (decrypt abi) (inverse schedule) := by
  intro source target len _ sourceFits targetFits
  exact decrypt_eq abi source target len sourceFits targetFits

/-- A piece has at least one byte. -/
theorem len_piece_pos (piece : Piece) : 0 < (ReadResult.bytes piece).len := by
  have nonempty := piece.nonempty
  simp only [ReadResult.len]
  omega

/-- So it is not taken for the end of the file. -/
theorem len_piece_ne_zero (piece : Piece) : (ReadResult.bytes piece).len ≠ 0 :=
  (len_piece_pos piece).ne'

/-- The length of a chunk is the same number as `int` and as `size_t`, since it is at most that of
the buffer. -/
theorem toSize_piece (abi : Abi) (piece : Piece) :
    (abi.toSize (BitVec.ofInt 32 piece.data.length)).toNat = piece.data.length := by
  have fits := piece.fits
  unfold bufferSize at fits
  exact toSize_ofInt abi _ (by omega)

/-- One turn of the loop enciphers one piece from position zero on, and writes it. -/
theorem filterTurn_piece (abi : Abi) (transform : List Byte → List Byte → Int → Option (List Byte))
    (positions : Schedule Byte) (enciphers : Enciphers transform positions)
    (state : FilterState) (piece : Piece) (inputFull : state.input.length = bufferSize)
    (outputFull : state.output.length = bufferSize) :
    ∃ next, filterTurn abi transform state (.bytes piece) (.accepted piece.data.length) =
        some next ∧
      next.input.length = bufferSize ∧ next.output.length = bufferSize ∧
      next.stdout = state.stdout ++ encode positions piece.data := by
  have fits := piece.fits
  have filled : (piece.data ++ state.input.drop piece.data.length).length = bufferSize := by
    rw [List.length_append, List.length_drop]
    omega
  have transformed := enciphers (piece.data ++ state.input.drop piece.data.length) state.output
    piece.data.length fits (by omega) (by omega)
  rw [List.take_left] at transformed
  have produced : (encode positions piece.data ++ state.output.drop piece.data.length).length =
      bufferSize := by
    rw [List.length_append, encode_length, List.length_drop]
    omega
  have written : write abi (encode positions piece.data ++ state.output.drop piece.data.length)
      piece.data.length (.accepted piece.data.length) = some (encode positions piece.data) := by
    rw [write, toSize_piece, Nat.min_self]
    rw [if_pos (by omega), List.take_left' (encode_length positions piece.data)]
  refine ⟨⟨_, _, state.stdout ++ encode positions piece.data,
    state.lengths ++ [(piece.data.length : Int)]⟩, ?_, filled, produced, rfl⟩
  simp only [filterTurn, ReadResult.fill, ReadResult.len, transformed, Option.bind_eq_bind,
    Option.bind_some, written]
  rfl

/-- The loop enciphers piece after piece, and ends at the end of the file. By induction on the
pieces, with buffers that are overwritten each time. -/
theorem filterLoop_turns (abi : Abi) (transform : List Byte → List Byte → Int → Option (List Byte))
    (positions : Schedule Byte) (enciphers : Enciphers transform positions)
    (pieces : List Piece) (state : FilterState) (inputFull : state.input.length = bufferSize)
    (outputFull : state.output.length = bufferSize) :
    ∃ final, filterLoop abi transform (turns pieces) state = some (final, true) ∧
      final.stdout =
        state.stdout ++ (pieces.map fun piece => encode positions piece.data).flatten := by
  induction pieces generalizing state with
  | nil => exact ⟨state, by simp [turns, filterLoop, ReadResult.len], by simp⟩
  | cons piece pieces inductionHypothesis =>
    obtain ⟨next, turned, nextInput, nextOutput, nextStdout⟩ :=
      filterTurn_piece abi transform positions enciphers state piece inputFull outputFull
    obtain ⟨final, looped, finalStdout⟩ := inductionHypothesis next nextInput nextOutput
    have running := len_piece_ne_zero piece
    refine ⟨final, ?_, ?_⟩
    · rw [turns, List.map_cons, List.cons_append, filterLoop, if_neg running, turned]
      exact looped
    · rw [finalStdout, nextStdout, List.map_cons, List.flatten_cons, List.append_assoc]

variable (abi : Abi) (name : String) (input output : Buffer)

/-- `safe -e` writes the positional stream cipher over the cut that its reads make. -/
theorem filtered_encrypt (pieces : List Piece) :
    filtered abi name "-e" input output pieces =
      some (encodeStream schedule (pieceSizes pieces) (joined pieces)) := by
  obtain ⟨final, looped, written⟩ := filterLoop_turns abi (encrypt abi) schedule
    (encrypt_enciphers abi) pieces ⟨input.bytes, output.bytes, [], []⟩ input.full output.full
  rw [encodeStream_pieces, filtered, main]
  simp [looped, written]

/-- `safe -d` writes the inverse stream cipher over its own cut. -/
theorem filtered_decrypt (pieces : List Piece) :
    filtered abi name "-d" input output pieces =
      some (encodeStream (inverse schedule) (pieceSizes pieces) (joined pieces)) := by
  obtain ⟨final, looped, written⟩ := filterLoop_turns abi (decrypt abi) (inverse schedule)
    (decrypt_enciphers abi) pieces ⟨input.bytes, output.bytes, [], []⟩ input.full output.full
  rw [encodeStream_pieces, filtered, main]
  simp [looped, written]

/-- For one text, `safe -d` restores what `safe -e` wrote exactly when each byte is deciphered by
the permutation of the position at which it was enciphered, or by one that agrees there. -/
theorem filtered_restores_iff (plain cipher : List Piece) (second : String)
    (secondInput secondOutput : Buffer)
    (delivered : filtered abi name "-e" input output plain = some (joined cipher)) :
    filtered abi second "-d" secondInput secondOutput cipher = some (joined plain) ↔
      Agree schedule (pieceSizes plain) (pieceSizes cipher) (joined plain) := by
  have covers : (pieceSizes plain).sum = (joined plain).length := pieceSizes_sum plain
  rw [filtered_encrypt, Option.some.injEq] at delivered
  have cipherCovers : (pieceSizes cipher).sum = (joined plain).length := by
    rw [pieceSizes_sum, ← delivered, encodeStream_length schedule _ _ covers]
  rw [filtered_decrypt, Option.some.injEq, ← delivered]
  exact restores_iff schedule _ _ _ covers cipherCovers

/-- `safe -d` undoes `safe -e` on every stream exactly when the reads of the two
processes cut the stream at the same places; and a single stream survives
different cuts exactly when the permutations of its two offsets agree on every
byte.

If the cuts differ, they differ first where one read begins and the other is still
under way. The permutation of a read's first position is unlike that of every
later one, so some byte is not restored there. -/
theorem filter_restores_iff (second : String) (secondInput secondOutput : Buffer) :
    (∀ plain cipher : List Piece,
      filtered abi name "-e" input output plain = some (joined cipher) →
        (filtered abi second "-d" secondInput secondOutput cipher = some (joined plain) ↔
          Agree schedule (pieceSizes plain) (pieceSizes cipher) (joined plain))) ∧
    ∀ encCut decCut : Cut bufferSize, encCut.total = decCut.total →
      ((∀ plain cipher : List Piece,
        pieceSizes plain = encCut.sizes → pieceSizes cipher = decCut.sizes →
        filtered abi name "-e" input output plain = some (joined cipher) →
          filtered abi second "-d" secondInput secondOutput cipher = some (joined plain)) ↔
        encCut.sizes = decCut.sizes) := by
  refine ⟨fun plain cipher => filtered_restores_iff abi name input output plain cipher second
    secondInput secondOutput, ?_⟩
  intro encCut decCut sameTotal
  rw [← restores_all_iff schedule encCut decCut sameTotal first_position_separated]
  constructor
  · intro restores stream covers
    obtain ⟨plain, plainJoined, plainSizes⟩ := exists_pieces encCut stream covers
    have encLength : (encodeStream schedule encCut.sizes stream).length = decCut.total := by
      rw [encodeStream_length schedule _ _ covers.symm, covers, sameTotal]
    obtain ⟨cipher, cipherJoined, cipherSizes⟩ := exists_pieces decCut _ encLength
    have delivered : filtered abi name "-e" input output plain = some (joined cipher) := by
      rw [filtered_encrypt, plainSizes, plainJoined, cipherJoined]
    have restored := restores plain cipher plainSizes cipherSizes delivered
    rw [filtered_decrypt, cipherSizes, cipherJoined, plainJoined] at restored
    exact Option.some.inj restored
  · intro restores plain cipher plainSizes cipherSizes delivered
    have covers : (joined plain).length = encCut.total := by
      rw [← pieceSizes_sum, plainSizes, Cut.total]
    rw [filtered_encrypt, Option.some.injEq, plainSizes] at delivered
    rw [filtered_decrypt, cipherSizes, ← delivered, restores _ covers]

/-- Two zero bytes enciphered by one read and deciphered one byte at a time come
out as another text. -/
theorem split_read_not_restored :
    ∃ (buffer : Buffer) (plain cipher : List Piece),
      joined plain = [0, 0] ∧ pieceSizes plain = [2] ∧ pieceSizes cipher = [1, 1] ∧
        filtered ⟨true, 32, le_rfl⟩ "safe" "-e" buffer buffer plain = some (joined cipher) ∧
        filtered ⟨true, 32, le_rfl⟩ "safe" "-d" buffer buffer cipher = some [0, 183] ∧
        filtered ⟨true, 32, le_rfl⟩ "safe" "-d" buffer buffer cipher ≠ some (joined plain) := by
  refine ⟨⟨List.replicate 1000 0, List.length_replicate⟩, [⟨[0, 0], by decide, by decide⟩],
    [⟨[168], by decide, by decide⟩, ⟨[210], by decide, by decide⟩], ?_⟩
  decide +kernel

end Schnitzeljagd.Bullencode
