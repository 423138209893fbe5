import Schnitzeljagd.Prison.Messages

/-!
# Messages in one buffer

All messages lie in the buffer that the file was read into. Splitting it leaves every line
in a place of its own, with its terminator, and encoding a message changes bytes in the
place of its line only.

Whether there is a message at all is decided by the file. Without one the send loop
divides by zero.
-/

namespace Schnitzeljagd.Prison

open Foundations.CArithmetic Foundations.CString

/-! ## Places of messages -/

/-- Replacing a text by one of its length leaves the bytes around it. -/
theorem splice_frame (before old new after : List Byte) (same : new.length = old.length) (pos : Nat)
    (outside : ¬(before.length ≤ pos ∧ pos < before.length + old.length)) :
    (before ++ (new ++ after))[pos]? = (before ++ (old ++ after))[pos]? := by
  by_cases front : pos < before.length
  · rw [List.getElem?_append_left front, List.getElem?_append_left front]
  · have behind : before.length + old.length ≤ pos := by omega
    rw [List.getElem?_append_right (by omega), List.getElem?_append_right (by omega),
      List.getElem?_append_right (by omega), List.getElem?_append_right (by omega), same]

section Cells

variable {cells : List Cell} {tail : List Byte}

/-- The buffer when the first messages have been encoded. The cells before a point are encoded and
those behind it are as the splitting has left them. -/
theorem encode_first (clean : ∀ cell ∈ cells, ∀ byte ∈ cell.text, byte ≠ 0) (count : Nat) :
    encodeMessages ((starts 0 cells).take count) (layout cells tail) =
      some (layout ((cells.take count).map encodeCell) (layout (cells.drop count) tail)) := by
  have cleanFirst : ∀ cell ∈ cells.take count, ∀ byte ∈ cell.text, byte ≠ 0 :=
    fun cell member => clean cell (List.mem_of_mem_take member)
  rw [layout_split cells count tail, starts_take]
  exact encode_layout (cells.take count) [] _ cleanFirst

/-- Encoding keeps the length of the buffer, because a text is replaced by one of its length. -/
theorem layout_encoded_length (cells : List Cell) (tail : List Byte) :
    (layout (cells.map encodeCell) tail).length = (layout cells tail).length := by
  induction cells with
  | nil => rfl
  | cons cell cells inductionHypothesis =>
    simp [layout, inductionHypothesis, encodeCell]

/-- Encoding a message, when those before it have been encoded, changes bytes of its text
only. -/
theorem encode_frame (clean : ∀ cell ∈ cells, ∀ byte ∈ cell.text, byte ≠ 0) {index start : Nat}
    {cell : Cell} (chosen : cells[index]? = some cell)
    (starting : (starts 0 cells)[index]? = some start) {before after : List Byte}
    (earlier : encodeMessages ((starts 0 cells).take index) (layout cells tail) = some before)
    (step : encodeMessage start (before.length + 1) before 0 = some after) (pos : Nat)
    (outside : ¬(start ≤ pos ∧ pos < start + cell.text.length)) : after[pos]? = before[pos]? := by
  rw [encode_first clean index] at earlier
  obtain rfl := Option.some.inj earlier
  let front := layout ((cells.take index).map encodeCell) [] ++ cell.gap
  have place : start = front.length := by
    rw [starts_getElem? 0 chosen] at starting
    obtain rfl := Option.some.inj starting
    rw [List.length_append, layout_encoded_length, Nat.zero_add]
  have shape : layout ((cells.take index).map encodeCell) (layout (cells.drop index) tail) =
      front ++ (cell.text ++ 0 :: layout (cells.drop (index + 1)) tail) := by
    have inside := (List.getElem?_eq_some_iff.mp chosen).1
    have dropped : cells.drop index = cell :: cells.drop (index + 1) := by
      rw [List.drop_eq_getElem_cons inside, (List.getElem?_eq_some_iff.mp chosen).2]
    rw [layout_append, dropped, layout, List.append_assoc]
  have own := encodeMessage_text front [] cell.text (layout (cells.drop (index + 1)) tail)
    (front ++ (cell.text ++ 0 :: layout (cells.drop (index + 1)) tail)).length.succ (by simp)
    (clean cell (List.mem_of_getElem? chosen)) (by simp only [List.length_append]; omega)
  simp only [List.nil_append, List.length_nil] at own
  rw [shape, place] at step
  rw [own] at step
  obtain rfl := Option.some.inj step
  rw [shape]
  exact splice_frame front cell.text _ _ (encoded_length 0 cell.text) pos (place ▸ outside)

end Cells

/-! ## The buffer keeps its size -/

/-- The buffer has its size after the file has been read into it. -/
theorem readMessages_length (buf : Buf) (file memory : List Byte)
    (reading : readMessages buf file = some memory) : memory.length = bufSize := by
  have short : (file.take (bufSize - 1)).length ≤ bufSize - 1 := List.length_take_le _ _
  have full := buf.full
  rw [readMessages] at reading
  rw [store_length reading, List.length_append, List.length_drop]
  omega

/-- Putting a NUL behind a piece changes no length, and so does doing it for all of them. -/
theorem collect_length (room : Nat) (token : Token) (messages messages' : List Nat)
    (memory : List Byte) (collected : collect room token messages = some (memory, messages')) :
    memory.length = token.memory.length := by
  induction room generalizing token messages with
  | zero =>
    obtain rfl := (Prod.mk.inj (Option.some.inj collected)).1
    rfl
  | succ room inductionHypothesis =>
    rw [collect] at collected
    split at collected
    · obtain rfl := (Prod.mk.inj (Option.some.inj collected)).1
      rfl
    · obtain ⟨next, called, rest⟩ := Option.bind_eq_some_iff.mp collected
      rw [inductionHypothesis next _ rest, strtok_length _ _ _ _ called]

/-- So the buffer has its size after splitting. -/
theorem split_length (buf : Buf) (file memory : List Byte) (messages : List Nat)
    (splitted : split buf file = some (memory, messages)) : memory.length = bufSize := by
  simp only [split, Option.bind_eq_bind, Option.bind_eq_some_iff] at splitted
  obtain ⟨read, reading, token, called, collected⟩ := splitted
  rw [collect_length _ _ _ _ _ collected, strtok_length _ _ _ _ called,
    readMessages_length buf file read reading]

/-! ## All messages -/

/-- The messages before and after the encoding loop, each in its own part of the buffer. -/
structure Apart (file memory final : List Byte) (messages : List Nat) : Prop where
  /-- The buffer has its size throughout. -/
  sizes : memory.length = bufSize ∧ final.length = bufSize
  /-- There is a message for each line. -/
  count : messages.length = (lines file).length
  /-- The strings of the messages are the lines, and then what the password makes of them. -/
  strings : ∀ (index start : Nat) (line : List Byte), messages[index]? = some start →
    (lines file)[index]? = some line →
    stringAt memory start = some line ∧ stringAt final start = some (sent line)
  /-- A line and its terminator lie inside the buffer and before the next line. -/
  inside : ∀ (index start : Nat) (line : List Byte), messages[index]? = some start →
    (lines file)[index]? = some line →
    start + line.length < bufSize
  disjoint : ∀ (index index' start start' : Nat) (line : List Byte), index < index' →
    messages[index]? = some start → messages[index']? = some start' →
    (lines file)[index]? = some line →
      start + line.length < start'
  /-- Encoding a message changes no byte outside its line. -/
  frame : ∀ (index start : Nat) (line before after : List Byte), messages[index]? = some start →
    (lines file)[index]? = some line →
    encodeMessages (messages.take index) memory = some before →
    encodeMessage start (before.length + 1) before 0 = some after →
      ∀ pos : Nat, ¬(start ≤ pos ∧ pos < start + line.length) → after[pos]? = before[pos]?

/-- A row of cells keeps its messages apart: their strings are the texts of the cells, and no cell
reaches into another.

A message is the offset of a cell, before and after the encoding, since encoding keeps the
lengths. The string there is the text of the cell before, and after it what the password makes of
that text, up to its first NUL. -/
theorem cells_apart (file : List Byte) (cells : List Cell) (tail : List Byte)
    (texts : cells.map Cell.text = lines file)
    (clean : ∀ cell ∈ cells, ∀ byte ∈ cell.text, byte ≠ 0)
    (size : (layout cells tail).length = bufSize) :
    Apart file (layout cells tail) (layout (cells.map encodeCell) tail) (starts 0 cells) := by
  have cellOf : ∀ {index : Nat} {line : List Byte}, (lines file)[index]? = some line →
      ∃ cell, cells[index]? = some cell ∧ cell.text = line := by
    intro index line isLine
    rw [← texts, List.getElem?_map, Option.map_eq_some_iff] at isLine
    exact isLine
  constructor
  · exact ⟨size, by rw [layout_encoded_length, size]⟩
  · rw [starts_length, ← texts, List.length_map]
  · intro index start line starting isLine
    obtain ⟨cell, chosen, rfl⟩ := cellOf isLine
    have encodedCell : (cells.map encodeCell)[index]? = some (encodeCell cell) := by
      rw [List.getElem?_map, chosen]
      rfl
    obtain ⟨rest, found⟩ := drop_start [] cells tail index cell start chosen starting
    obtain ⟨rest', found'⟩ := drop_start [] (cells.map encodeCell) tail index (encodeCell cell)
      start encodedCell (by rw [starts_encoded]; exact starting)
    obtain ⟨more, shape⟩ := string_encoded cell.text rest'
    constructor
    · exact stringAt_text _ _ rest start found (clean cell (List.mem_of_getElem? chosen))
    · exact stringAt_text _ _ more start (found'.trans shape) (sent_clean cell.text)
  · intro index start line starting isLine
    obtain ⟨cell, chosen, rfl⟩ := cellOf isLine
    obtain ⟨rest, found⟩ := drop_start [] cells tail index cell start chosen starting
    have left := congrArg List.length found
    simp only [List.nil_append, List.length_drop, List.length_append, List.length_cons,
      size] at left
    omega
  · intro index index' start start' line before starting starting' isLine
    obtain ⟨cell, chosen, rfl⟩ := cellOf isLine
    have inside' : index' < cells.length := by
      have inside := (List.getElem?_eq_some_iff.mp starting').1
      rwa [starts_length] at inside
    exact starts_apart 0 before chosen (List.getElem?_eq_getElem inside') starting starting'
  · intro index start line before after starting isLine earlier step
    obtain ⟨cell, chosen, rfl⟩ := cellOf isLine
    exact encode_frame clean chosen starting earlier step

/-- Splitting any file gives a layout of cells, and encoding it in place keeps them apart. -/
theorem prepare_apart (buf : Buf) (file : List Byte) :
    ∃ memory messages final, split buf file = some (memory, messages) ∧
      encodeMessages messages memory = some final ∧
      prepare buf file = some ⟨final, messages⟩ ∧ Apart file memory final messages := by
  obtain ⟨cells, tail, splitted, texts, clean⟩ := split_cells buf file
  have encoded := encode_layout cells [] tail clean
  exact ⟨_, _, _, splitted, encoded, prepare_split buf file _ _ _ splitted encoded,
    cells_apart file cells tail texts clean (split_length buf file _ _ splitted)⟩

/-- Splitting and encoding always succeed and keep the messages apart.

After splitting, the buffer is a row of cells, each a message with its NUL. Encoding a message
changes the bytes in front of its first NUL and no others, so that it stays in its cell, and the
next message is encoded from where it was found. -/
theorem messages_apart (buf : Buf) (file : List Byte) :
    ∃ memory messages final, split buf file = some (memory, messages) ∧
      encodeMessages messages memory = some final ∧
      prepare buf file = some ⟨final, messages⟩ ∧ Apart file memory final messages :=
  prepare_apart buf file

/-! ## Whether there is a message -/

/-- There are lines exactly if the visible part of the file is not made of newlines only. A file
without a visible byte has none. -/
theorem lines_nonempty_iff (file : List Byte) :
    lines file ≠ [] ↔ ∃ byte ∈ visible file, byte ≠ newline := by
  rw [lines]
  obtain all | ⟨skipped, token, rest, shape, gap, nonempty, whole, ends⟩ :=
    text_cases (visible file)
  · have none : pieces (visible file) = [] := by
      rw [← List.append_nil (visible file), pieces_gap _ [] all]
      rfl
    rw [none]
    constructor
    · intro present
      exact absurd rfl present
    · rintro ⟨byte, member, other⟩
      exact absurd (all byte member) other
  · obtain ⟨more, first⟩ : ∃ more, pieces (visible file) = token :: more := by
      rw [shape, pieces_gap skipped _ gap]
      obtain rfl | ⟨further, rfl⟩ := ends
      · exact ⟨[], by rw [List.append_nil, pieces_last token nonempty whole]⟩
      · exact ⟨_, pieces_token token further nonempty whole⟩
    rw [first]
    constructor
    · intro _
      obtain ⟨byte, others, rfl⟩ := List.exists_cons_of_ne_nil nonempty
      refine ⟨byte, by simp [shape], ?_⟩
      rintro rfl
      exact whole List.mem_cons_self
    · intro _
      simp [MAXMESSAGES]

/-- A turn of the send loop divides by a number other than zero and sends a message that
the splitting has filled in. -/
def SendsSafely (prepared : Prepared) (rand : Nat) : Prop :=
  prepared.messages.length ≠ 0 ∧
    (∃ message, prepared.messages[rand % prepared.messages.length]? = some message) ∧
    ∃ datagram, prepared.datagram rand = some datagram

/-- Every turn of the send loop is safe exactly if, up to its first NUL, the beginning of the file
that is read has a byte other than newline.

The number of messages is that of the lines, so that it is zero exactly if there is no such byte,
and a remainder by any other number is the index of a message. -/
theorem sends_safely_iff (buf : Buf) (file : List Byte) (rand : Nat) :
    (∃ prepared, prepare buf file = some prepared ∧ SendsSafely prepared rand) ↔
      ∃ byte ∈ visible file, byte ≠ newline := by
  rw [← lines_nonempty_iff]
  obtain ⟨memory, messages, final, _, _, prepared, apart⟩ := prepare_apart buf file
  constructor
  · rintro ⟨other, preparedToo, divisor, _⟩ none
    obtain rfl := Option.some.inj (prepared.symm.trans preparedToo)
    exact divisor (apart.count.trans (by rw [none]; rfl))
  · intro present
    have divisor : messages.length ≠ 0 := by
      rw [apart.count]
      exact fun none => present (List.length_eq_zero_iff.mp none)
    have inside : rand % messages.length < messages.length :=
      Nat.mod_lt _ (Nat.pos_of_ne_zero divisor)
    have isLine : rand % (lines file).length < (lines file).length := by
      rwa [← apart.count]
    have sends := broadcast_sends buf file _ rand (List.getElem?_eq_getElem isLine)
    rw [broadcast, prepared] at sends
    exact ⟨⟨final, messages⟩, prepared, divisor, ⟨_, List.getElem?_eq_getElem inside⟩, _, sends⟩

/-- With an empty file there is no message, and the first turn divides by zero, whatever the
buffer held before. -/
theorem empty_file_divides_by_zero :
    ∃ prepared, prepare ⟨List.replicate 10000 0, List.length_replicate⟩ [] = some prepared ∧
      prepared.messages = [] ∧ ∀ rand, prepared.datagram rand = none := by
  obtain ⟨cells, tail, prepared, texts⟩ :=
    prepare_spec ⟨List.replicate 10000 0, List.length_replicate⟩ []
  have none : cells = [] := List.map_eq_nil_iff.mp texts
  subst none
  exact ⟨_, prepared, rfl, fun _ => rfl⟩

end Schnitzeljagd.Prison
