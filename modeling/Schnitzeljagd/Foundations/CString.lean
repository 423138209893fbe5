import Schnitzeljagd.Foundations.CArithmetic
import Mathlib.Data.List.TakeWhile

/-!
# C strings in one flat buffer

A buffer is a byte list and a pointer into it an offset. `strlen` and `strtok`
have a result only while they stay inside the buffer. `strtok` works in place:
it ends the token it returns with a NUL and reports where the next call, made
with a null pointer, goes on.

A buffer that has been cut into tokens is a row of cells, each a gap followed by
a text and its NUL, and whatever lies behind them. Working on the text of one
cell then visibly leaves the gaps, the terminators, the other cells and the
bytes behind them alone.
-/

namespace Foundations.CString

open Foundations.CArithmetic

/-- The number of bytes before the first one that is not kept. There is none if the memory ends
first: then the library function would read behind it. -/
def scan (keep : Byte → Bool) : List Byte → Option Nat
  | [] => none
  | byte :: rest => if keep byte then (scan keep rest).map (· + 1) else some 0

/-- `strlen` of the string at an offset, if a NUL ends it inside the memory. -/
def strlen (memory : List Byte) (pointer : Nat) : Option Nat :=
  scan (fun byte => byte ≠ 0) (memory.drop pointer)

/-- What a call of `strtok` leaves: the buffer, the place where the next call goes on, and the
token found, if any. A token is the offset of its first byte. -/
structure Token where
  memory : List Byte
  saved : Nat
  found : Option Nat

/-- `strtok` with a single delimiter, from the place where the last call stopped or from the
beginning of the buffer. It skips delimiters, ends the token with a NUL and goes on behind it next
time. -/
def strtok (delimiter : Byte) (memory : List Byte) (pointer : Nat) : Option Token := do
  let skipped ← scan (fun byte => byte = delimiter) (memory.drop pointer)
  let start := pointer + skipped
  let first ← load memory start
  if first = 0 then
    pure ⟨memory, start, none⟩
  else
    let length ← scan (fun byte => byte ≠ delimiter ∧ byte ≠ 0) (memory.drop start)
    let stop := start + length
    let last ← load memory stop
    if last = 0 then
      pure ⟨memory, stop, some start⟩
    else
      let memory ← store memory stop 0
      pure ⟨memory, stop + 1, some start⟩

/-- The scan stops at the first byte that is not kept. -/
theorem scan_stop (keep : Byte → Bool) (kept after : List Byte) (stop : Byte)
    (all : ∀ byte ∈ kept, keep byte = true) (stops : keep stop = false) :
    scan keep (kept ++ stop :: after) = some kept.length := by
  induction kept with
  | nil => simp [scan, stops]
  | cons byte kept inductionHypothesis =>
    have rest := inductionHypothesis fun other member =>
      all other (List.mem_cons_of_mem byte member)
    rw [List.cons_append, scan, if_pos (all byte (by simp)), rest]
    rfl

/-- All bytes before that are kept, so that the scan has passed over nothing else. -/
theorem scan_kept {keep : Byte → Bool} {bytes : List Byte} {length : Nat}
    (scanned : scan keep bytes = some length) : ∀ byte ∈ bytes.take length, keep byte = true := by
  induction bytes generalizing length with
  | nil => contradiction
  | cons byte bytes inductionHypothesis =>
    rw [scan] at scanned
    split at scanned
    · next kept =>
      obtain ⟨count, counted, rfl⟩ := Option.map_eq_some_iff.mp scanned
      rw [List.take_succ_cons]
      exact List.forall_mem_cons.mpr ⟨kept, inductionHypothesis counted⟩
    · obtain rfl := Option.some.inj scanned
      simp

/-- The length of a text without NUL that a NUL ends. -/
theorem strlen_text (memory text rest : List Byte) (pointer : Nat)
    (found : memory.drop pointer = text ++ 0 :: rest) (noNul : ∀ byte ∈ text, byte ≠ 0) :
    strlen memory pointer = some text.length := by
  rw [strlen, found]
  exact scan_stop _ text rest 0 (fun byte member => by simpa using noNul byte member) (by simp)

/-- The same for a text that stands in the middle of the memory. -/
theorem strlen_append (before text after : List Byte) (noNul : ∀ byte ∈ text, byte ≠ 0) :
    strlen (before ++ (text ++ 0 :: after)) before.length = some text.length :=
  strlen_text _ text after _ List.drop_left noNul

/-- The byte behind a piece of memory is at the length of the piece, whatever follows it. -/
theorem load_append (before after : List Byte) (byte : Byte) (pointer : Nat)
    (behind : pointer = before.length) : load (before ++ byte :: after) pointer = some byte := by
  rw [load_natCast, behind, List.getElem?_append_right le_rfl, Nat.sub_self,
    List.getElem?_cons_zero]

/-- Storing there replaces that byte, and nothing around it. -/
theorem store_append (before after : List Byte) (old new : Byte) (pointer : Nat)
    (behind : pointer = before.length) :
    store (before ++ old :: after) pointer new = some (before ++ new :: after) := by
  rw [store_natCast _ _ _ (by simp [behind]), behind, List.set_append_right _ _ le_rfl,
    Nat.sub_self, List.set_cons_zero]

/-- Storing never changes the size of an array, wherever it stores. -/
theorem store_length {array stored : List Byte} {index : Int} {byte : Byte}
    (written : store array index byte = some stored) : stored.length = array.length := by
  rw [store] at written
  split at written
  · obtain rfl := Option.some.inj written
    exact List.length_set
  · simp at written

/-! ## The outcomes of strtok -/

variable (delimiter : Byte) (before skipped token after : List Byte)

/-- Only delimiters remain before the NUL: no token, and nothing changes. -/
theorem strtok_none (real : delimiter ≠ 0) (gap : ∀ byte ∈ skipped, byte = delimiter) :
    strtok delimiter (before ++ (skipped ++ 0 :: after)) before.length =
      some ⟨before ++ (skipped ++ 0 :: after), before.length + skipped.length, none⟩ := by
  have skips : scan (fun byte => byte = delimiter) (skipped ++ 0 :: after) =
      some skipped.length :=
    scan_stop _ skipped after 0 (fun byte member => by simpa using gap byte member)
      (by simpa using real.symm)
  have nul := load_append (before ++ skipped) after 0 (before.length + skipped.length)
    List.length_append.symm
  rw [List.append_assoc] at nul
  simp only [strtok, List.drop_left, skips, Option.bind_eq_bind, Option.bind_some]
  rw [nul]
  rfl

/-- After the gap a token begins. The delimiter that ends it is overwritten; a NUL
stays, and the next call starts there. -/
theorem strtok_token (gap : ∀ byte ∈ skipped, byte = delimiter) (nonempty : token ≠ [])
    (text : ∀ byte ∈ token, byte ≠ delimiter ∧ byte ≠ 0) (stop : Byte)
    (stops : stop = delimiter ∨ stop = 0) :
    strtok delimiter (before ++ (skipped ++ (token ++ stop :: after))) before.length =
      some ⟨before ++ (skipped ++ (token ++ 0 :: after)),
        before.length + skipped.length + token.length + if stop = 0 then 0 else 1,
        some (before.length + skipped.length)⟩ := by
  obtain ⟨first, others, rfl⟩ := List.exists_cons_of_ne_nil nonempty
  have firstText := text first (by simp)
  have skips : scan (fun byte => byte = delimiter)
      (skipped ++ (first :: others ++ stop :: after)) = some skipped.length :=
    scan_stop _ skipped (others ++ stop :: after) first
      (fun byte member => by simpa using gap byte member) (by simpa using firstText.1)
  have measures : scan (fun byte => byte ≠ delimiter ∧ byte ≠ 0)
      (first :: others ++ stop :: after) = some (first :: others).length :=
    scan_stop _ (first :: others) after stop (fun byte member => by simpa using text byte member)
      (by rcases stops with rfl | rfl <;> simp)
  have startsAt := load_append (before ++ skipped) (others ++ stop :: after) first
    (before.length + skipped.length) List.length_append.symm
  have ended : before.length + skipped.length + (first :: others).length =
      (before ++ skipped ++ (first :: others)).length := by
    rw [List.length_append, List.length_append]
  have stopsAt := load_append (before ++ skipped ++ (first :: others)) after stop _ ended
  have written := store_append (before ++ skipped ++ (first :: others)) after stop 0 _ ended
  have dropped : (before ++ (skipped ++ (first :: others ++ stop :: after))).drop
      (before.length + skipped.length) = first :: others ++ stop :: after := by
    rw [← List.append_assoc, ← List.length_append, List.drop_left]
  rw [List.append_assoc] at startsAt
  rw [List.append_assoc, List.append_assoc] at stopsAt written
  simp only [strtok, List.drop_left, skips, Option.bind_eq_bind, Option.bind_some]
  rw [dropped, measures, show load (before ++ (skipped ++ (first :: others ++ stop :: after)))
    (before.length + skipped.length : Nat) = some first from startsAt]
  simp only [Option.bind_some, if_neg firstText.2]
  rw [stopsAt, written]
  by_cases nul : stop = 0
  · subst nul
    rfl
  · rw [Option.bind_some, if_neg nul, if_neg nul]
    simp

/-! ## Cells -/

/-- A text with the gap before it; its terminating NUL is implied. A buffer that `strtok` has been
through is a row of these. -/
structure Cell where
  gap : List Byte
  text : List Byte

/-- The buffer that holds a row of cells and then `tail`. -/
def layout (cells : List Cell) (tail : List Byte) : List Byte :=
  match cells with
  | [] => tail
  | cell :: cells => cell.gap ++ (cell.text ++ 0 :: layout cells tail)

/-- The offsets of the texts, for a row of cells that begins at `base`. -/
def starts (base : Nat) : List Cell → List Nat
  | [] => []
  | cell :: cells =>
    (base + cell.gap.length) ::
      starts (base + cell.gap.length + cell.text.length + 1) cells

/-- Every text has an offset, and there are no others. -/
@[simp] theorem starts_length (base : Nat) (cells : List Cell) :
    (starts base cells).length = cells.length := by
  induction cells generalizing base with
  | nil => rfl
  | cons cell cells inductionHypothesis => simp [starts, inductionHypothesis]

/-- At the start of a cell lies its text and then a NUL. So the pointer that a caller has kept is
a string. -/
theorem drop_start (before : List Byte) (cells : List Cell) (tail : List Byte) (index : Nat)
    (cell : Cell) (start : Nat) (chosen : cells[index]? = some cell)
    (at_index : (starts before.length cells)[index]? = some start) :
    ∃ rest, (before ++ layout cells tail).drop start = cell.text ++ 0 :: rest := by
  induction cells generalizing before index with
  | nil => simp at chosen
  | cons head cells inductionHypothesis =>
    cases index with
    | zero =>
      simp only [List.getElem?_cons_zero, Option.some.injEq, starts] at chosen at_index
      subst chosen at_index
      refine ⟨layout cells tail, ?_⟩
      rw [layout, ← List.append_assoc, ← List.length_append, List.drop_left]
    | succ index =>
      simp only [List.getElem?_cons_succ, starts] at chosen at_index
      have shifted : before.length + head.gap.length + head.text.length + 1 =
          (before ++ (head.gap ++ (head.text ++ [0]))).length := by
        simp only [List.length_append, List.length_singleton]
        omega
      rw [shifted] at at_index
      obtain ⟨rest, found⟩ := inductionHypothesis _ index chosen at_index
      refine ⟨rest, ?_⟩
      simpa [layout] using found

/-- Splitting does not change the size of the buffer, since delimiters are only overwritten. -/
theorem strtok_length (delimiter : Byte) (memory : List Byte) (pointer : Nat) (token : Token)
    (called : strtok delimiter memory pointer = some token) :
    token.memory.length = memory.length := by
  simp only [strtok, Option.bind_eq_bind, Option.bind_eq_some_iff] at called
  obtain ⟨skipped, _, first, _, rest⟩ := called
  split at rest
  · obtain rfl := Option.some.inj rest
    rfl
  · obtain ⟨length, _, rest⟩ := Option.bind_eq_some_iff.mp rest
    obtain ⟨last, _, rest⟩ := Option.bind_eq_some_iff.mp rest
    split at rest
    · obtain rfl := Option.some.inj rest
      rfl
    · obtain ⟨stored, written, rest⟩ := Option.bind_eq_some_iff.mp rest
      obtain rfl := Option.some.inj rest
      exact store_length written

/-- The string at an offset: the bytes up to the first NUL, which must be there. -/
def stringAt (memory : List Byte) (pointer : Nat) : Option (List Byte) :=
  (strlen memory pointer).map fun length => (memory.drop pointer).take length

/-- A text that a NUL ends is the string at its offset. -/
theorem stringAt_text (memory text rest : List Byte) (pointer : Nat)
    (found : memory.drop pointer = text ++ 0 :: rest) (noNul : ∀ byte ∈ text, byte ≠ 0) :
    stringAt memory pointer = some text := by
  rw [stringAt, strlen_text memory text rest pointer found noNul, Option.map_some, found,
    List.take_left]

/-- A string has no NUL in it, since it ends before the first one. -/
theorem stringAt_clean {memory text : List Byte} {pointer : Nat}
    (read : stringAt memory pointer = some text) : ∀ byte ∈ text, byte ≠ 0 := by
  obtain ⟨length, measured, rfl⟩ := Option.map_eq_some_iff.mp read
  intro byte member
  simpa using scan_kept measured byte member

/-- What of some bytes is before the first NUL, which is all that a function on strings sees of
them. -/
def untilNul (bytes : List Byte) : List Byte := bytes.takeWhile fun byte => byte ≠ 0

/-- There is no NUL left in front of the first one. -/
theorem untilNul_clean (bytes : List Byte) : ∀ byte ∈ untilNul bytes, byte ≠ 0 := by
  intro byte member
  simpa using List.mem_takeWhile_imp member

/-- Nothing is added, so that the string is no longer than the bytes it was cut from. -/
theorem untilNul_length (bytes : List Byte) : (untilNul bytes).length ≤ bytes.length :=
  (List.takeWhile_prefix _).length_le

/-- Cutting at the NUL a second time changes nothing. -/
theorem untilNul_untilNul (bytes : List Byte) : untilNul (untilNul bytes) = untilNul bytes := by
  apply List.takeWhile_eq_self_iff.mpr
  intro byte member
  simpa using untilNul_clean bytes byte member

/-- A text and its terminator hold a string that ends at the first NUL of the text,
or else at the terminator. -/
theorem string_prefix (text after : List Byte) :
    ∃ more, text ++ 0 :: after = text.takeWhile (fun byte => byte ≠ 0) ++ 0 :: more := by
  induction text with
  | nil => exact ⟨after, rfl⟩
  | cons byte text inductionHypothesis =>
    by_cases nul : byte = 0
    · exact ⟨text ++ 0 :: after, by simp [nul]⟩
    · obtain ⟨more, same⟩ := inductionHypothesis
      refine ⟨more, ?_⟩
      rw [List.takeWhile_cons, if_pos (by simpa using nul), List.cons_append, List.cons_append,
          same]

/-- Bytes and a terminator behind them are a string, whatever lies behind the terminator. Its end
is the first NUL of them all. -/
theorem stringAt_terminated (bytes rest : List Byte) :
    stringAt (bytes ++ 0 :: rest) 0 = some (untilNul bytes) := by
  obtain ⟨more, same⟩ := string_prefix bytes rest
  exact stringAt_text _ _ more 0 same (untilNul_clean bytes)

/-! ## Comparing strings -/

/-- `tolower`, in the locale `C`, where the letters are those of ASCII. -/
def tolower (byte : Byte) : Byte :=
  if 0x41 ≤ byte.toNat ∧ byte.toNat ≤ 0x5a then byte + 0x20 else byte

/-- `strncasecmp`: the difference of the first bytes that differ, or zero. There is none if it
reads behind the end of one side. -/
def strncasecmp : List Byte → List Byte → Nat → Option Int
  | _, _, 0 => some 0
  | byte :: left, other :: right, count + 1 =>
    if tolower byte ≠ tolower other then some ((tolower byte).toNat - (tolower other).toNat)
    else if byte = 0 then some 0
    else strncasecmp left right count
  | _, _, _ + 1 => none

/-- Bytes begin with a word, whatever the case of its letters or of theirs. -/
def beginsWith (word bytes : List Byte) : Bool :=
  (bytes.take word.length).map tolower = word.map tolower

/-- Both sides are compared letter by letter. -/
theorem beginsWith_cons (word bytes : List Byte) (letter byte : Byte) :
    beginsWith (letter :: word) (byte :: bytes) =
      (tolower byte = tolower letter && beginsWith word bytes) := by
  simp [beginsWith]

/-- Only NUL has the lower case NUL, so that strings end at the same place in any case. -/
theorem tolower_zero {byte : Byte} (zero : tolower byte = 0) : byte = 0 := by
  rw [tolower] at zero
  split at zero
  · next upper =>
    have value := congrArg BitVec.toNat zero
    rw [BitVec.toNat_add] at value
    simp at value
    omega
  · exact zero

/-- Comparing with all of a word finds out whether an array begins with it. The array need not end
with a NUL, as long as it is as long as the word. -/
theorem strncasecmp_word (array word rest : List Byte) (room : word.length ≤ array.length)
    (noNul : ∀ byte ∈ word, byte ≠ 0) :
    ∃ difference, strncasecmp array (word ++ rest) word.length = some difference ∧
      (difference = 0 ↔ beginsWith word array = true) := by
  induction word generalizing array with
  | nil => exact ⟨0, by rw [List.length_nil, strncasecmp], by simp [beginsWith]⟩
  | cons letter word inductionHypothesis =>
    cases array with
    | nil => simp at room
    | cons byte array =>
      rw [List.cons_append, List.length_cons, strncasecmp]
      by_cases same : tolower byte = tolower letter
      · have real : byte ≠ 0 := by
          rintro rfl
          exact noNul letter List.mem_cons_self (tolower_zero same.symm)
        rw [if_neg (not_not_intro same), if_neg real]
        obtain ⟨difference, compared, zero⟩ := inductionHypothesis array
          (Nat.le_of_succ_le_succ room) fun other member =>
            noNul other (List.mem_cons_of_mem _ member)
        refine ⟨difference, compared, zero.trans ?_⟩
        rw [beginsWith_cons, decide_eq_true same, Bool.true_and]
      · rw [if_pos same]
        refine ⟨_, rfl, ?_⟩
        have apart : (tolower byte).toNat ≠ (tolower letter).toNat :=
          fun equal => same (BitVec.eq_of_toNat_eq equal)
        rw [beginsWith_cons, decide_eq_false same, Bool.false_and]
        simp only [Bool.false_eq_true, iff_false]
        omega

/-- Behind a terminator there is nothing that a word could go on with. -/
theorem beginsWith_terminated (word bytes rest : List Byte) (noNul : ∀ byte ∈ word, byte ≠ 0) :
    beginsWith word (bytes ++ 0 :: rest) = beginsWith word bytes := by
  induction word generalizing bytes with
  | nil => simp [beginsWith]
  | cons letter word inductionHypothesis =>
    cases bytes with
    | nil =>
      have apart : tolower 0 ≠ tolower letter :=
        fun same => noNul letter List.mem_cons_self (tolower_zero same.symm)
      rw [List.nil_append, beginsWith_cons, decide_eq_false apart, Bool.false_and]
      simp [beginsWith]
    | cons byte bytes =>
      have later := inductionHypothesis bytes fun other member =>
        noNul other (List.mem_cons_of_mem _ member)
      rw [List.cons_append, beginsWith_cons, beginsWith_cons, later]

/-! ## Places of cells -/

section Places

variable (cells : List Cell) (base : Nat)

/-- What lies behind the cells does not matter for them, and they do not matter for it. -/
theorem layout_append (tail : List Byte) : layout cells tail = layout cells [] ++ tail := by
  induction cells with
  | nil => rfl
  | cons cell cells inductionHypothesis =>
    rw [layout, layout, inductionHypothesis]
    simp

/-- The cells can be divided anywhere, and the buffer with them. -/
theorem layout_split (count : Nat) (tail : List Byte) :
    layout cells tail = layout (cells.take count) (layout (cells.drop count) tail) := by
  induction cells generalizing count with
  | nil => simp [layout]
  | cons cell cells inductionHypothesis =>
    cases count with
    | zero => rfl
    | succ count =>
      rw [List.take_succ_cons, List.drop_succ_cons, layout, layout, ← inductionHypothesis]

/-- The first offsets are those of the first cells, since an offset depends on the cells before it
only. -/
theorem starts_take (count : Nat) :
    (starts base cells).take count = starts base (cells.take count) := by
  induction cells generalizing base count with
  | nil => simp [starts]
  | cons cell cells inductionHypothesis =>
    cases count with
    | zero => rfl
    | succ count => simp [starts, inductionHypothesis]

variable {cells}

/-- Where a cell begins: behind all cells before it and its own gap. -/
theorem starts_getElem? {index : Nat} {cell : Cell} (chosen : cells[index]? = some cell) :
    (starts base cells)[index]? =
      some (base + (layout (cells.take index) []).length + cell.gap.length) := by
  induction cells generalizing base index with
  | nil => simp at chosen
  | cons head cells inductionHypothesis =>
    cases index with
    | zero =>
      obtain rfl := Option.some.inj chosen
      simp [starts, layout]
    | succ index =>
      rw [starts, List.getElem?_cons_succ, inductionHypothesis _ chosen, List.take_succ_cons,
        layout]
      simp only [List.length_append, List.length_cons]
      congr 1
      omega

/-- Up to a cell and including it, the buffer goes on by its gap, its text and a NUL. -/
theorem layout_take_succ {index : Nat} {cell : Cell} (chosen : cells[index]? = some cell) :
    layout (cells.take (index + 1)) [] =
      layout (cells.take index) [] ++ (cell.gap ++ (cell.text ++ [0])) := by
  induction cells generalizing index with
  | nil => simp at chosen
  | cons head cells inductionHypothesis =>
    cases index with
    | zero =>
      obtain rfl := Option.some.inj chosen
      simp [layout]
    | succ index =>
      rw [List.take_succ_cons, layout, inductionHypothesis chosen, List.take_succ_cons, layout]
      simp

/-- More cells take at least as much room, which is what keeps their offsets in order. -/
theorem layout_take_le (cells : List Cell) (first second : Nat) (before : first ≤ second) :
    (layout (cells.take first) []).length ≤ (layout (cells.take second) []).length := by
  have split := layout_split (cells.take second) first []
  rw [List.take_take, Nat.min_eq_left before] at split
  have behind := layout_append (cells.take first) (layout ((cells.take second).drop first) [])
  rw [split, behind, List.length_append]
  exact Nat.le_add_right _ _

/-- A text and its terminator end before the next text begins, so writing into one does not touch
the other. -/
theorem starts_apart {first second start start' : Nat} {cell cell' : Cell} (before : first < second)
    (chosen : cells[first]? = some cell) (chosen' : cells[second]? = some cell')
    (starting : (starts base cells)[first]? = some start)
    (starting' : (starts base cells)[second]? = some start') :
    start + cell.text.length < start' := by
  rw [starts_getElem? base chosen] at starting
  rw [starts_getElem? base chosen'] at starting'
  obtain rfl := Option.some.inj starting
  obtain rfl := Option.some.inj starting'
  have between := layout_take_le cells (first + 1) second before
  rw [layout_take_succ chosen] at between
  simp only [List.length_append, List.length_singleton] at between
  omega

end Places

end Foundations.CString
