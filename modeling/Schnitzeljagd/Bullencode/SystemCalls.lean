import Schnitzeljagd.Bullencode.Filter

/-!
# The filter and its system calls

The loop of `main` goes on as long as `read` does not return zero, and it does not look
at what `write` returns. So an error of `read`, which is -1, is taken for a chunk: the
length -1 is handed to `encrypt` or `decrypt`, which does nothing with it, and to `write`,
which takes it for the largest `size_t`. And what a short `write` leaves over is lost.

The loop does what it should exactly when neither happens before the end of the input.
-/

namespace Schnitzeljagd.Bullencode

open Foundations.CArithmetic Foundations.PositionalCipher

/-- The chunks that are read before the first result of `read` that is 0 or -1. -/
def delivered : List (ReadResult × WriteResult) → List Piece
  | (.bytes piece, _) :: turns => piece :: delivered turns
  | _ => []

/-- What has reached standard output. -/
def Exit.stdout : Exit → List Byte
  | usage => []
  | filtered state => state.stdout
  | waiting state => state.stdout

/-- The lengths that have been handed on. -/
def Exit.lengths : Exit → List Int
  | usage => []
  | filtered state => state.lengths
  | waiting state => state.lengths

/-- What `encrypt` or `decrypt` makes of a chunk. -/
def transformed (transform : List Byte → List Byte → Int → Option (List Byte))
    (data : List Byte) : List Byte :=
  (transform data data data.length).getD []

/-- The function that `main` applies to every chunk. -/
def transformOf (abi : Abi) (flag : String) : List Byte → List Byte → Int → Option (List Byte) :=
  if flag = "-e" then encrypt abi else decrypt abi

/-- The loop ends at the first result of `read` that is 0 or -1, hands on the lengths of the
chunks before it and no negative one, and standard output takes the transformed chunks. -/
def HandlesAll (abi : Abi) (name flag : String) (input output : Buffer)
    (turns : List (ReadResult × WriteResult)) : Prop :=
  ∃ state, main abi [name, flag] input output turns =
      some (if turns.any fun turn => turn.1.len ≤ 0 then .filtered state else .waiting state) ∧
    state.lengths = (delivered turns).map (fun piece => (piece.data.length : Int)) ∧
    (∀ len ∈ state.lengths, 0 ≤ len) ∧
    state.stdout =
      ((delivered turns).map fun piece => transformed (transformOf abi flag) piece.data).flatten

/-- Before the end of the input, every `read` delivers bytes and every `write` takes all
it is offered. -/
def AllTaken (turns : List (ReadResult × WriteResult)) : Prop :=
  ∀ turn ∈ turns.takeWhile (fun turn => turn.1.len ≠ 0),
    ∃ piece count, turn = (.bytes piece, .accepted count) ∧ piece.data.length ≤ count

section Loop

variable {abi : Abi} {transform : List Byte → List Byte → Int → Option (List Byte)}
variable {turns : List (ReadResult × WriteResult)} {state next final : FilterState} {ended : Bool}
variable {got : ReadResult} {put : WriteResult}

/-- The loop takes a turn for every result but 0. -/
theorem filterLoop_cons (running : got.len ≠ 0) :
    filterLoop abi transform ((got, put) :: turns) state = some (final, ended) ↔
      ∃ next, filterTurn abi transform state got put = some next ∧
        filterLoop abi transform turns next = some (final, ended) := by
  rw [filterLoop, if_neg running, Option.bind_eq_bind, Option.bind_eq_some_iff]

/-- What a turn adds to the output and to the lengths. -/
theorem filterTurn_some (turned : filterTurn abi transform state got put = some next) :
    ∃ output taken, write abi output got.len put = some taken ∧
      next.stdout = state.stdout ++ taken ∧ next.lengths = state.lengths ++ [got.len] := by
  simp only [filterTurn, Option.bind_eq_bind, Option.bind_eq_some_iff, Option.pure_def,
    Option.some.injEq] at turned
  obtain ⟨output, _, taken, written, rfl⟩ := turned
  exact ⟨output, taken, written, rfl, rfl⟩

/-- `write` takes a chunk whole or fewer bytes of it. -/
theorem write_piece (piece : Piece) (output taken : List Byte)
    (written : write abi output piece.data.length put = some taken) :
    taken.length ≤ piece.data.length ∧
      (piece.data.length ≤ taken.length →
        ∃ count, put = .accepted count ∧ piece.data.length ≤ count) := by
  have nonempty := piece.nonempty
  cases put with
  | error =>
    obtain rfl := Option.some.inj written
    constructor
    · exact Nat.zero_le _
    · intro whole
      simp only [List.length_nil] at whole
      omega
  | accepted count =>
    simp only [write, toSize_piece] at written
    split at written
    · obtain rfl := Option.some.inj written
      rw [List.length_take]
      constructor
      · omega
      · intro whole
        exact ⟨count, rfl, by omega⟩
    · simp at written

/-- More than it is offered `write` does not take. -/
theorem write_enough (piece : Piece) (output : List Byte) (count : Nat)
    (enough : piece.data.length ≤ count) :
    write abi output piece.data.length (.accepted count) =
      write abi output piece.data.length (.accepted piece.data.length) := by
  rw [write, write, toSize_piece, Nat.min_self, Nat.min_eq_right enough]

/-- The loop only adds to the lengths it has handed on. -/
theorem filterLoop_lengths (looped : filterLoop abi transform turns state = some (final, ended)) :
    state.lengths <+: final.lengths := by
  induction turns generalizing state with
  | nil =>
    obtain rfl := (Prod.mk.inj (Option.some.inj looped)).1
    exact List.prefix_rfl
  | cons turn turns inductionHypothesis =>
    obtain ⟨got, put⟩ := turn
    by_cases running : got.len = 0
    · rw [filterLoop, if_pos running] at looped
      obtain rfl := (Prod.mk.inj (Option.some.inj looped)).1
      exact List.prefix_rfl
    · obtain ⟨next, turned, rest⟩ := (filterLoop_cons running).mp looped
      obtain ⟨_, _, _, _, lengths⟩ := filterTurn_some turned
      have later := inductionHypothesis rest
      rw [lengths] at later
      exact (List.prefix_append _ _).trans later

/-- If no negative length is handed on, no more bytes reach standard output than have been read,
and that many only if every `write` takes all.

By induction on the turns. A chunk contributes at most its own length, and exactly that only if
its `write` has taken it whole. An error has handed on -1 and is excluded. -/
theorem filterLoop_stdout (looped : filterLoop abi transform turns state = some (final, ended))
    (sound : ∀ len ∈ final.lengths, 0 ≤ len) :
    final.stdout.length ≤ state.stdout.length + (pieceSizes (delivered turns)).sum ∧
      (state.stdout.length + (pieceSizes (delivered turns)).sum ≤ final.stdout.length →
        AllTaken turns) := by
  induction turns generalizing state with
  | nil =>
    obtain rfl := (Prod.mk.inj (Option.some.inj looped)).1
    constructor
    · exact Nat.le_add_right _ _
    · intro _ turn member
      exact absurd member List.not_mem_nil
  | cons turn turns inductionHypothesis =>
    obtain ⟨got, put⟩ := turn
    cases got with
    | eof =>
      have stop : ReadResult.eof.len = 0 := rfl
      rw [filterLoop, if_pos stop] at looped
      obtain rfl := (Prod.mk.inj (Option.some.inj looped)).1
      constructor
      · exact Nat.le_add_right _ _
      · intro _ turn member
        rw [List.takeWhile_cons_of_neg (by simp [ReadResult.len])] at member
        exact absurd member List.not_mem_nil
    -- The length -1 has been handed on.
    | error =>
      obtain ⟨next, turned, rest⟩ := (filterLoop_cons (by simp [ReadResult.len])).mp looped
      obtain ⟨_, _, _, _, lengths⟩ := filterTurn_some turned
      have handed : (-1 : Int) ∈ next.lengths := by
        rw [lengths]
        simp [ReadResult.len]
      have negative := sound (-1) ((filterLoop_lengths rest).subset handed)
      omega
    | bytes piece =>
      obtain ⟨next, turned, rest⟩ := (filterLoop_cons (len_piece_ne_zero piece)).mp looped
      obtain ⟨output, taken, written, stdout, _⟩ := filterTurn_some turned
      obtain ⟨most, whole⟩ := write_piece piece output taken written
      obtain ⟨restMost, restWhole⟩ := inductionHypothesis rest
      have sizes : (pieceSizes (delivered ((.bytes piece, put) :: turns))).sum =
          piece.data.length + (pieceSizes (delivered turns)).sum := by
        simp [pieceSizes, delivered]
      rw [stdout, List.length_append] at restMost restWhole
      rw [sizes]
      constructor
      · omega
      · intro complete
        obtain ⟨count, accepted, enough⟩ := whole (by omega)
        have later := restWhole (by omega)
        intro turn member
        rw [List.takeWhile_cons_of_pos (by simpa using len_piece_ne_zero piece)] at member
        obtain rfl | member := List.mem_cons.mp member
        · exact ⟨piece, count, by rw [accepted], enough⟩
        · exact later turn member

/-- When every `write` takes all, the loop handles the chunks one by one and stops where it
should.

By induction on the turns, for any contents of the two buffers, since every turn
leaves other contents in them. -/
theorem filterLoop_allTaken (positions : Schedule Byte) (enciphers : Enciphers transform positions)
    (state : FilterState) (inputFull : state.input.length = bufferSize)
    (outputFull : state.output.length = bufferSize)
    (all : AllTaken turns) :
    ∃ final, filterLoop abi transform turns state =
        some (final, turns.any fun turn => turn.1.len ≤ 0) ∧
      final.lengths =
        state.lengths ++ (delivered turns).map (fun piece => (piece.data.length : Int)) ∧
      final.stdout =
        state.stdout ++
          ((delivered turns).map fun piece => encode positions piece.data).flatten := by
  induction turns generalizing state with
  | nil => exact ⟨state, rfl, by simp [delivered], by simp [delivered]⟩
  | cons turn turns inductionHypothesis =>
    obtain ⟨got, put⟩ := turn
    by_cases running : got.len = 0
    · cases got with
      | bytes piece => exact absurd running (len_piece_ne_zero piece)
      | eof =>
        refine ⟨state, ?_, by simp [delivered], by simp [delivered]⟩
        rw [filterLoop, if_pos running]
        simp [ReadResult.len]
      | error => simp [ReadResult.len] at running
    · have first := all (got, put) (by simp [running])
      obtain ⟨piece, count, same, enough⟩ := first
      obtain ⟨rfl, rfl⟩ := Prod.mk.inj same
      have rest : AllTaken turns := by
        intro turn member
        apply all turn
        rw [List.takeWhile_cons_of_pos (by simpa using running)]
        exact List.mem_cons_of_mem _ member
      obtain ⟨next, turned, nextInput, nextOutput, nextStdout⟩ :=
        filterTurn_piece abi transform positions enciphers state piece inputFull outputFull
      have enoughTurned : filterTurn abi transform state (.bytes piece) (.accepted count) =
          some next := by
        rw [← turned]
        simp only [filterTurn, ReadResult.len, write_enough piece _ count enough]
      obtain ⟨_, _, _, _, nextLengths⟩ := filterTurn_some turned
      obtain ⟨final, looped, lengths, stdout⟩ := inductionHypothesis next nextInput nextOutput rest
      refine ⟨final, ?_, ?_, ?_⟩
      · rw [filterLoop_cons running]
        refine ⟨next, enoughTurned, ?_⟩
        have positive : ¬(ReadResult.bytes piece).len ≤ 0 := (len_piece_pos piece).not_ge
        rw [looped, List.any_cons, decide_eq_false positive, Bool.false_or]
      · rw [lengths, nextLengths]
        simp [delivered, ReadResult.len]
      · rw [stdout, nextStdout]
        simp [delivered]

end Loop

/-- What the function of `main` makes of a chunk is the chunk enciphered. -/
theorem transformed_encode (transform : List Byte → List Byte → Int → Option (List Byte))
    (positions : Schedule Byte) (enciphers : Enciphers transform positions) (piece : Piece) :
    transformed transform piece.data = encode positions piece.data := by
  have whole := enciphers piece.data piece.data piece.data.length piece.fits le_rfl le_rfl
  rw [transformed, whole]
  simp

/-- Whether the loop has stopped or goes on, the state at its exit can be read off. -/
theorem exit_state_injective {ended stops : Bool} {final state : FilterState}
    (same : (if ended then Exit.filtered final else .waiting final) =
      if stops then .filtered state else .waiting state) : final = state := by
  cases ended with
  | true =>
    cases stops with
    | true => exact Exit.filtered.inj same
    | false => cases same
  | false =>
    cases stops with
    | true => cases same
    | false => exact Exit.waiting.inj same

/-- The loop handles all results of its system calls exactly when none of them is out of the
ordinary.

If all has been handled, standard output is as long as what has been read, and `filterLoop_stdout`
leaves no other way to get there. The converse is `filterLoop_allTaken`. -/
theorem handlesAll_iff (abi : Abi) (name flag : String) (mode : flag = "-e" ∨ flag = "-d")
    (positions : Schedule Byte) (enciphers : Enciphers (transformOf abi flag) positions)
    (input output : Buffer) (turns : List (ReadResult × WriteResult)) :
    HandlesAll abi name flag input output turns ↔ AllTaken turns := by
  let start : FilterState := ⟨input.bytes, output.bytes, [], []⟩
  have ran : main abi [name, flag] input output turns =
      (filterLoop abi (transformOf abi flag) turns start).map
        fun looped => if looped.2 then .filtered looped.1 else .waiting looped.1 := by
    obtain rfl | rfl := mode
    · rfl
    · rfl
  have chunks : ((delivered turns).map fun piece =>
      transformed (transformOf abi flag) piece.data) =
        (delivered turns).map fun piece => encode positions piece.data := by
    apply List.map_congr_left
    intro piece _
    exact transformed_encode _ positions enciphers piece
  rw [HandlesAll, ran, chunks]
  constructor
  · rintro ⟨state, ended, _, sound, stdout⟩
    obtain ⟨⟨final, flagged⟩, looped, exits⟩ := Option.map_eq_some_iff.mp ended
    have same : final = state := exit_state_injective exits
    subst same
    apply (filterLoop_stdout looped sound).2
    rw [stdout]
    simp [pieceSizes, List.length_flatten, Function.comp_def, start]
  · intro all
    obtain ⟨final, looped, lengths, stdout⟩ :=
      filterLoop_allTaken positions enciphers start input.full output.full all
    refine ⟨final, ?_, ?_, ?_, ?_⟩
    · rw [looped]
      rfl
    · simpa [start] using lengths
    · intro len member
      rw [lengths] at member
      simp only [start, List.nil_append, List.mem_map] at member
      obtain ⟨piece, _, rfl⟩ := member
      exact Int.natCast_nonneg _
    · simpa [start] using stdout

/-- In both directions the loop stops where it should, hands on no negative length and writes all
it has read exactly when, before the end of the input, no `read` fails and every `write` takes all
it is offered.

The loop treats its transformation as a black box, so that one lemma says this of any function
that enciphers by position. It is used here with the schedule for `-e` and with its inverse for
`-d`. -/
theorem filter_handles_iff (abi : Abi) (name : String) (input output : Buffer)
    (turns : List (ReadResult × WriteResult)) :
    (HandlesAll abi name "-e" input output turns ↔ AllTaken turns) ∧
      (HandlesAll abi name "-d" input output turns ↔ AllTaken turns) := by
  constructor
  · exact handlesAll_iff abi name "-e" (Or.inl rfl) schedule (encrypt_enciphers abi) input
      output turns
  · exact handlesAll_iff abi name "-d" (Or.inr rfl) (inverse schedule) (decrypt_enciphers abi) input
      output turns

/-- An error of `read` is handed on as a length and the loop goes on; and of a chunk of two
bytes of which `write` takes one the other is lost. -/
theorem read_error_handed_on :
    ∃ buffer : Buffer,
      (main ⟨true, 32, le_rfl⟩ ["safe", "-e"] buffer buffer [(.error, .error)]).map Exit.lengths =
          some [-1] ∧
        ¬HandlesAll ⟨true, 32, le_rfl⟩ "safe" "-e" buffer buffer [(.error, .error)] ∧
      (main ⟨true, 32, le_rfl⟩ ["safe", "-e"] buffer buffer
          [(.bytes ⟨[0, 0], by decide, by decide⟩, .accepted 1), (.eof, .accepted 0)]).map
        Exit.stdout = some [168] ∧
      transformed (encrypt ⟨true, 32, le_rfl⟩) [0, 0] = [168, 210] := by
  refine ⟨⟨List.replicate 1000 0, List.length_replicate⟩, by decide +kernel, ?_, by decide +kernel,
    by decide +kernel⟩
  rintro ⟨state, exits, _⟩
  cases exits

end Schnitzeljagd.Bullencode
