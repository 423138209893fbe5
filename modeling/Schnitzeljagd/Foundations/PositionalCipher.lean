import Mathlib.Data.List.SplitLengths
import Mathlib.Data.List.GetD
import Mathlib.Logic.Equiv.Basic
import Mathlib.Algebra.Order.Group.Nat
import Mathlib.Algebra.Ring.Nat

/-!
# Ciphers that substitute position by position

A schedule gives one permutation of the alphabet for every position of a block,
and a block is enciphered by substituting each symbol with the permutation of
its position. A stream is enciphered block by block, each block starting again
at position zero, so the cut of the stream into blocks enters the result. The
last section says exactly when a second cut of the enciphered stream restores
the first.

The alphabet is arbitrary. How a schedule is computed is left to its user; a
cascade of keyed rounds is one way, and its inverse is the inverse rounds in
reverse order.
-/

namespace Foundations.PositionalCipher

universe u
variable {α : Type u}

/-- One permutation of the alphabet for each position. There is no limit to the positions. -/
abbrev Schedule (α : Type u) := Nat → Equiv.Perm α

/-- The schedule that undoes another at every position. -/
def inverse (schedule : Schedule α) : Schedule α := fun position => (schedule position).symm

/-- Substitute every symbol of a block by the permutation of its position. -/
def encode (schedule : Schedule α) (block : List α) : List α :=
  block.mapIdx fun position symbol => schedule position symbol

/-- A block keeps its length, so that positions mean the same before and after. -/
@[simp] theorem encode_length (schedule : Schedule α) (block : List α) :
    (encode schedule block).length = block.length := by
  simp [encode]

/-- What is at a position depends on the symbol there and on nothing else. -/
theorem encode_getElem? (schedule : Schedule α) (block : List α) (position : Nat) :
    (encode schedule block)[position]? = block[position]?.map (schedule position) := by
  simp [encode]

/-- One symbol more is enciphered at the next position, and those before it stay as they are. -/
theorem encode_concat (schedule : Schedule α) (block : List α) (symbol : α) :
    encode schedule (block ++ [symbol]) =
      encode schedule block ++ [schedule block.length symbol] := by
  simp [encode]

/-- Undoing is undone by the schedule itself, so that what is shown of one direction holds of the
other. -/
@[simp] theorem inverse_inverse (schedule : Schedule α) :
    inverse (inverse schedule) = schedule := rfl

/-- The inverse schedule undoes a block. With `inverse_inverse` this also gives
the converse direction. -/
theorem decode_encode (schedule : Schedule α) (block : List α) :
    encode (inverse schedule) (encode schedule block) = block := by
  apply List.ext_getElem?
  intro position
  rw [encode_getElem?, encode_getElem?]
  cases block[position]? <;> simp [inverse]

/-- Two blocks agree at a position after enciphering exactly if they did before. -/
theorem encode_getElem?_eq_iff (schedule : Schedule α) (first second : List α) (position : Nat) :
    (encode schedule first)[position]? = (encode schedule second)[position]? ↔
      first[position]? = second[position]? := by
  rw [encode_getElem?, encode_getElem?]
  exact (Option.map_injective (schedule position).injective).eq_iff

/-- The beginning of a block enciphers to the beginning of the enciphered block. -/
theorem encode_take (schedule : Schedule α) (block : List α) (count : Nat) :
    encode schedule (block.take count) = (encode schedule block).take count := by
  apply List.ext_getElem?
  intro position
  simp only [encode_getElem?, List.getElem?_take]
  split
  · rfl
  · rfl

/-- Another symbol at a position changes that position and no other. This is the weakness of every
cipher of the kind. -/
theorem encode_set (schedule : Schedule α) (block : List α) (position : Nat) (symbol : α) :
    encode schedule (block.set position symbol) =
      (encode schedule block).set position (schedule position symbol) := by
  simp [encode]

/-- Rounds applied one after the other to one symbol, which is again a permutation. -/
def cascade : List (Equiv.Perm α) → Equiv.Perm α
  | [] => Equiv.refl α
  | round :: rest => round.trans (cascade rest)

/-- A loop that applies the rounds in order computes the cascade, as the enciphering loop does. -/
theorem cascade_apply (rounds : List (Equiv.Perm α)) (symbol : α) :
    cascade rounds symbol = rounds.foldl (fun current round => round current) symbol := by
  induction rounds generalizing symbol with
  | nil => rfl
  | cons round rest inductionHypothesis => exact inductionHypothesis (round symbol)

/-- A loop that applies the inverse rounds from the last to the first undoes the
cascade. -/
theorem cascade_symm_apply (rounds : List (Equiv.Perm α)) (symbol : α) :
    (cascade rounds).symm symbol =
      rounds.reverse.foldl (fun current round => round.symm current) symbol := by
  induction rounds generalizing symbol with
  | nil => rfl
  | cons round rest inductionHypothesis =>
    rw [List.reverse_cons, List.foldl_append, ← inductionHypothesis]
    rfl

/-- Exclusive or with a key word, a permutation that is its own inverse. -/
def xorPerm {width : Nat} (key : BitVec width) : Equiv.Perm (BitVec width) :=
  Function.Involutive.toPerm (fun word => word ^^^ key) fun word => by
    simp only [BitVec.xor_assoc, BitVec.xor_self, BitVec.xor_zero]

/-- The permutation of a key, evaluated at a word. -/
@[simp] theorem xorPerm_apply {width : Nat} (key word : BitVec width) :
    xorPerm key word = word ^^^ key := rfl

/-! ## Streams cut into blocks -/

/-- A cut of a stream into nonempty blocks no longer than `limit`, by block sizes. -/
structure Cut (limit : Nat) where
  sizes : List Nat
  positive : ∀ size ∈ sizes, 0 < size
  bounded : ∀ size ∈ sizes, size ≤ limit

/-- The number of symbols that a cut covers, which is the length of the streams it can be used on.
-/
def Cut.total {limit : Nat} (cut : Cut limit) : Nat := cut.sizes.sum

/-- The position within its block of every symbol of the stream. -/
def offsets (sizes : List Nat) : List Nat := sizes.flatMap List.range

/-- Encipher a stream block by block, each block from position zero. What a reader gets depends on
where the blocks end. -/
def encodeStream (schedule : Schedule α) (sizes : List Nat) (stream : List α) : List α :=
  ((sizes.splitLengths stream).map (encode schedule)).flatten

/-- Without blocks there are no positions in them. -/
@[simp] theorem offsets_nil : offsets [] = [] := rfl

/-- The positions of a block begin at zero again. -/
@[simp] theorem offsets_cons (size : Nat) (sizes : List Nat) :
    offsets (size :: sizes) = List.range size ++ offsets sizes := rfl

/-- Every symbol has a position in its block. -/
@[simp] theorem offsets_length (sizes : List Nat) : (offsets sizes).length = sizes.sum := by
  induction sizes with
  | nil => rfl
  | cons size sizes inductionHypothesis => simp [inductionHypothesis]

/-- A block is enciphered symbol by symbol along its positions. -/
theorem encode_eq_zipWith (schedule : Schedule α) (block : List α) :
    encode schedule block =
      List.zipWith (fun position symbol => schedule position symbol)
        (List.range block.length) block := by
  apply List.ext_getElem?
  intro position
  rw [encode_getElem?, List.getElem?_zipWith]
  by_cases inside : position < block.length
  · simp [inside]
  · simp [Nat.le_of_not_lt inside]

/-- Enciphering a stream substitutes each symbol by the permutation of its offset, so the blocks
matter only for the offsets. -/
theorem encodeStream_eq_zipWith (schedule : Schedule α) (sizes : List Nat) (stream : List α)
    (covers : sizes.sum = stream.length) :
    encodeStream schedule sizes stream =
      List.zipWith (fun position symbol => schedule position symbol) (offsets sizes) stream := by
  induction sizes generalizing stream with
  | nil => simp [encodeStream]
  | cons size sizes inductionHypothesis =>
    rw [List.sum_cons] at covers
    have headLength : (stream.take size).length = size := by
      rw [List.length_take]
      omega
    have tailCovers : sizes.sum = (stream.drop size).length := by
      rw [List.length_drop]
      omega
    have rest := inductionHypothesis (stream.drop size) tailCovers
    unfold encodeStream at rest ⊢
    rw [List.splitLengths_cons, List.map_cons, List.flatten_cons, rest, encode_eq_zipWith,
      headLength, offsets_cons]
    conv => rhs; rw [← List.take_append_drop size stream]
    rw [List.zipWith_append (by simp [headLength])]

/-- A stream keeps its length, whatever its blocks. -/
@[simp] theorem encodeStream_length (schedule : Schedule α) (sizes : List Nat) (stream : List α)
    (covers : sizes.sum = stream.length) :
    (encodeStream schedule sizes stream).length = stream.length := by
  rw [encodeStream_eq_zipWith schedule sizes stream covers]
  simp [covers]

/-- Two cuts agree on a stream when, symbol by symbol, the permutations of the
two offsets have the same value there. -/
def Agree (schedule : Schedule α) (first second : List Nat) (stream : List α) : Prop :=
  ∀ (index : Nat) (symbol : α) (left right : Nat), stream[index]? = some symbol →
    (offsets first)[index]? = some left → (offsets second)[index]? = some right →
      schedule left symbol = schedule right symbol

/-- Deciphering along a second cut restores the stream exactly when the cuts agree on it, since a
permutation has only one inverse. -/
theorem restores_iff (schedule : Schedule α) (first second : List Nat) (stream : List α)
    (firstCovers : first.sum = stream.length) (secondCovers : second.sum = stream.length) :
    encodeStream (inverse schedule) second (encodeStream schedule first stream) = stream ↔
      Agree schedule first second stream := by
  have enciphered : second.sum = (encodeStream schedule first stream).length := by
    rw [encodeStream_length schedule first stream firstCovers, secondCovers]
  rw [encodeStream_eq_zipWith _ _ _ enciphered, encodeStream_eq_zipWith _ _ _ firstCovers]
  constructor
  · intro restored index symbol left right atStream atFirst atSecond
    have same := congrArg (fun result => result[index]?) restored
    simp only [List.getElem?_zipWith, atStream, atFirst, atSecond, Option.some.injEq,
      inverse] at same
    exact (Equiv.symm_apply_eq _).mp same
  · intro agree
    apply List.ext_getElem?
    intro index
    by_cases inside : index < stream.length
    · have firstInside : index < (offsets first).length := by simpa [firstCovers] using inside
      have secondInside : index < (offsets second).length := by simpa [secondCovers] using inside
      have same := agree index _ _ _ (List.getElem?_eq_getElem inside)
        (List.getElem?_eq_getElem firstInside) (List.getElem?_eq_getElem secondInside)
      simp only [List.getElem?_zipWith, List.getElem?_eq_getElem inside,
        List.getElem?_eq_getElem firstInside, List.getElem?_eq_getElem secondInside, inverse,
        Option.some.injEq]
      exact (Equiv.symm_apply_eq _).mpr same
    · have outside := Nat.le_of_not_lt inside
      simp [List.getElem?_zipWith, List.getElem?_eq_none outside]

/-- Where a shorter first block ends, another one begins, and a longer first block goes on. -/
theorem offsets_shorter (short long : Nat) (rest others : List Nat) (less : short < long)
    (restPositive : ∀ size ∈ rest, 0 < size)
    (totals : (short :: rest).sum = (long :: others).sum) :
    (offsets (short :: rest))[short]? = some 0 ∧
      (offsets (long :: others))[short]? = some short := by
  constructor
  · cases rest with
    | nil =>
      simp only [List.sum_cons, List.sum_nil] at totals
      omega
    | cons next rest =>
      have nextPositive : 0 < next := restPositive next (by simp)
      rw [offsets_cons, List.getElem?_append_right (by simp), List.length_range, Nat.sub_self,
        offsets_cons, List.getElem?_append_left (by simpa using nextPositive)]
      simp [nextPositive]
  · rw [offsets_cons, List.getElem?_append_left (by simpa using less)]
    simp [less]

/-- Where two cuts of the same total first differ, one of them starts a block and
the other is inside one.

Induction strips equal first blocks. If the first blocks differ, the end of the
shorter one is such an index: the longer block still covers it, and the totals
leave the other cut a further block. -/
theorem exists_offset_zero (first second : List Nat)
    (firstPositive : ∀ size ∈ first, 0 < size) (secondPositive : ∀ size ∈ second, 0 < size)
    (sameTotal : first.sum = second.sum) (different : first ≠ second) :
    ∃ index left right : Nat, (offsets first)[index]? = some left ∧
      (offsets second)[index]? = some right ∧ (left = 0 ∧ 0 < right ∨ 0 < left ∧ right = 0) := by
  induction first generalizing second with
  | nil =>
    cases second with
    | nil => exact absurd rfl different
    | cons size second =>
      have positive : 0 < size := secondPositive size (by simp)
      simp only [List.sum_nil, List.sum_cons] at sameTotal
      omega
  | cons size first inductionHypothesis =>
    cases second with
    | nil =>
      have positive : 0 < size := firstPositive size (by simp)
      simp only [List.sum_nil, List.sum_cons] at sameTotal
      omega
    | cons other second =>
      have firstRest : ∀ size ∈ first, 0 < size := fun size member =>
        firstPositive size (List.mem_cons_of_mem _ member)
      have secondRest : ∀ size ∈ second, 0 < size := fun size member =>
        secondPositive size (List.mem_cons_of_mem _ member)
      have sizePositive : 0 < size := firstPositive size (by simp)
      have otherPositive : 0 < other := secondPositive other (by simp)
      obtain less | rfl | greater := Nat.lt_trichotomy size other
      · obtain ⟨left, right⟩ := offsets_shorter size other first second less firstRest sameTotal
        exact ⟨size, 0, size, left, right, Or.inl ⟨rfl, sizePositive⟩⟩
      · have restTotal : first.sum = second.sum := by
          simpa only [List.sum_cons, Nat.add_left_cancel_iff] using sameTotal
        have restDifferent : first ≠ second := fun same => different (by rw [same])
        obtain ⟨index, left, right, atLeft, atRight, boundary⟩ :=
          inductionHypothesis second firstRest secondRest restTotal restDifferent
        refine ⟨size + index, left, right, ?_, ?_, boundary⟩
        · rw [offsets_cons, List.getElem?_append_right (by simp)]
          simpa using atLeft
        · rw [offsets_cons, List.getElem?_append_right (by simp)]
          simpa using atRight
      · obtain ⟨right, left⟩ :=
          offsets_shorter other size second first greater secondRest sameTotal.symm
        exact ⟨other, other, 0, left, right, Or.inr ⟨otherPositive, rfl⟩⟩

/-- Offsets stay below the block size limit, so that only so many permutations are ever used. -/
theorem offset_lt {limit : Nat} (cut : Cut limit) (index offset : Nat)
    (at_index : (offsets cut.sizes)[index]? = some offset) : offset < limit := by
  have member := List.mem_of_getElem? at_index
  simp only [offsets, List.mem_flatMap, List.mem_range] at member
  obtain ⟨size, inSizes, below⟩ := member
  exact lt_of_lt_of_le below (cut.bounded size inSizes)

/-- When no other permutation below the limit equals the first one of a block,
two cuts restore every stream exactly when they are the same cut.

One symbol on which the two permutations differ, repeated over the whole
length, is a stream that different cuts do not restore. -/
theorem restores_all_iff {limit : Nat} (schedule : Schedule α) (first second : Cut limit)
    (sameTotal : first.total = second.total)
    (separated : ∀ position, 0 < position → position < limit →
      ∃ symbol, schedule position symbol ≠ schedule 0 symbol) :
    (∀ stream : List α, stream.length = first.total →
      encodeStream (inverse schedule) second.sizes (encodeStream schedule first.sizes stream) =
        stream) ↔ first.sizes = second.sizes := by
  constructor
  · intro restores
    by_contra different
    obtain ⟨index, left, right, atLeft, atRight, boundary⟩ :=
      exists_offset_zero first.sizes second.sizes first.positive second.positive sameTotal different
    have leftBound : left < limit := offset_lt first index left atLeft
    have rightBound : right < limit := offset_lt second index right atRight
    obtain ⟨symbol, differs⟩ : ∃ symbol, schedule left symbol ≠ schedule right symbol := by
      rcases boundary with ⟨rfl, positive⟩ | ⟨positive, rfl⟩
      · obtain ⟨symbol, differs⟩ := separated right positive rightBound
        exact ⟨symbol, Ne.symm differs⟩
      · exact separated left positive leftBound
    have inside : index < first.total := by
      have bound := (List.getElem?_eq_some_iff.mp atLeft).1
      rwa [offsets_length] at bound
    have agree := (restores_iff schedule first.sizes second.sizes
      (List.replicate first.total symbol) (by simp [Cut.total])
      (by rw [List.length_replicate, sameTotal, Cut.total])).mp (restores _ (by simp))
    exact differs (agree index symbol left right (by simp [inside]) atLeft atRight)
  · intro same stream length
    refine (restores_iff schedule first.sizes second.sizes stream length.symm ?_).mpr ?_
    · rw [← same, length, Cut.total]
    · intro index symbol left right _ atLeft atRight
      rw [same] at atLeft
      have equal : left = right := Option.some.inj (atLeft.symm.trans atRight)
      rw [equal]

end Foundations.PositionalCipher
