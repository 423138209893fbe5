import Schnitzeljagd.Foundations.CString
import Schnitzeljagd.Foundations.LineFile

/-!
# Texts between news server and client

`protocol.c` sends a text line by line, puts a dot in front of a line that begins with one,
and ends the text with a line that is only a dot. It reads with a buffer of `MAXCHAR` bytes.
A stream is the list of bytes that are still to be read; writing succeeds, and the alarm
does not go off.
-/

namespace Schnitzeljagd.News

open Foundations.CArithmetic Foundations.CString Foundations.LineFile Foundations.PerlText

/-- `MAXCHAR`, the size of a line in memory with the NUL at its end. -/
def maxChar : Nat := 2048

/-- The character that ends a text when it stands alone on a line. -/
def dot : Byte := 0x2e

/-- The first of the two characters that end a line on the wire. -/
def carriageReturn : Byte := 0x0d

/-! ## Reading -/

/-- At most so many bytes, up to a newline. -/
def takeLine : Nat → List Byte → List Byte × List Byte
  | 0, stream => ([], stream)
  | _ + 1, [] => ([], [])
  | count + 1, byte :: stream =>
    if byte = newline then ([byte], stream)
    else (byte :: (takeLine count stream).1, (takeLine count stream).2)

/-- `fgets` with a buffer of this size: no result at the end of the stream, otherwise at least one
byte. -/
def fgets (size : Nat) (stream : List Byte) : Option (List Byte × List Byte) :=
  if stream = [] then none else some (takeLine (size - 1) stream)

/-- The newline at the end, and the carriage return in front of it, are taken off. A piece without
a newline keeps its carriage return. -/
def stripEnd (line : List Byte) : List Byte :=
  if line.getLast? = some newline then
    if line.dropLast.getLast? = some carriageReturn then line.dropLast.dropLast else line.dropLast
  else line

/-- `Prt_getLn`, and what is left of the stream -/
def getLn (stream : List Byte) : Option (Text × List Byte) := do
  let (buffer, stream) ← fgets maxChar stream
  some (stripEnd (untilNul buffer), stream)

/-- `Prt_getTxtLn`: no line is the end of the text, no result the end of the stream. -/
def getTxtLn (stream : List Byte) : Option (Option Text × List Byte) := do
  let (buffer, stream) ← getLn stream
  if buffer.head? = some dot then
    if buffer.tail = [] then some (none, stream)
    else some (some buffer.tail, stream)
  else some (some buffer, stream)

/-- Bytes are taken from the stream and not lost. -/
theorem takeLine_length (count : Nat) (stream : List Byte) :
    (takeLine count stream).1.length + (takeLine count stream).2.length = stream.length := by
  induction count generalizing stream with
  | zero => simp [takeLine]
  | succ count inductionHypothesis =>
    cases stream with
    | nil => simp [takeLine]
    | cons byte stream =>
      rw [takeLine]
      split
      · simp [Nat.add_comm]
      · simp only [List.length_cons, ← inductionHypothesis stream]
        omega

/-- Something is read as long as there is something to read, so the reader gets on. -/
theorem takeLine_nonempty (count : Nat) (positive : 0 < count) (stream : List Byte)
    (some : stream ≠ []) : 0 < (takeLine count stream).1.length := by
  obtain ⟨count, rfl⟩ : ∃ before, count = before + 1 := ⟨count - 1, by omega⟩
  obtain ⟨byte, stream, rfl⟩ := List.exists_cons_of_ne_nil some
  rw [takeLine]
  split <;> simp

/-- Every line that is read makes the stream shorter, which lets the loop over a text end. -/
theorem getTxtLn_shorter {stream rest : List Byte} {line : Option Text}
    (read : getTxtLn stream = some (line, rest)) : rest.length < stream.length := by
  simp only [getTxtLn, getLn, fgets, Option.bind_eq_bind] at read
  by_cases empty : stream = []
  · simp [empty] at read
  · have whole := takeLine_length (maxChar - 1) stream
    have some := takeLine_nonempty (maxChar - 1) (by decide) stream empty
    have same : rest = (takeLine (maxChar - 1) stream).2 := by
      simp only [empty, if_false, Option.bind_some] at read
      split at read
      · split at read <;> simp_all
      · simp_all
    rw [same]
    omega

/-- The lines up to the end of the text, read by `while ( Prt_getTxtLn( .. ) )`. -/
def getTxt (stream : List Byte) : Option (List Text × List Byte) :=
  match _read : getTxtLn stream with
  | none => none
  | some (none, rest) => some ([], rest)
  | some (some line, rest) => (getTxt rest).map fun later => (line :: later.1, later.2)
termination_by stream.length
decreasing_by exact getTxtLn_shorter _read

/-- `Utl_stripWhiteSpace`, which strips a line on both sides. -/
def stripWhiteSpace (line : Text) : Text := stripTrailing (line.dropWhile isSpace)

/-! ## Writing -/

/-- The line with a dot in front of it if it begins with one. The reader takes this dot off again.
-/
def stuffed (line : Text) : Text := if line.head? = some dot then dot :: line else line

/-- `Prt_putTxtLn` -/
def putTxtLn (line : Text) : List Byte := stuffed line ++ [carriageReturn, newline]

/-- `Prt_putEndOfTxt` -/
def putEndOfTxt : List Byte := [dot, carriageReturn, newline]

/-- The loop of `Prt_putTxtBuf` with the line that has been collected so far. A character that
does not fit any more first sends off what has been collected, as it is. -/
def putTxtLoop : Text → List Byte → List Byte
  | _, [] => []
  | line, byte :: buf =>
    if byte = newline then putTxtLn line ++ putTxtLoop [] buf
    else if line.length ≥ maxChar - 1 then line ++ putTxtLoop [byte] buf
    else putTxtLoop (line ++ [byte]) buf

/-- `Prt_putTxtBuf`, which sends a text from memory line by line. -/
def putTxtBuf (buf : List Byte) : List Byte := putTxtLoop [] buf

/-! ## What goes over the wire -/

/-- A line as it is sent, in pieces if it is too long for the buffer. The pieces have no end of
line and no dot in front of them, only the last one does. -/
def wireLine (line : Text) : List Byte :=
  if _long : maxChar - 1 < line.length then
    line.take (maxChar - 1) ++ wireLine (line.drop (maxChar - 1))
  else putTxtLn line
termination_by line.length
decreasing_by
  rw [List.length_drop]
  simp only [maxChar] at _long ⊢
  omega

/-- The loop sends a line as it collects it, in full pieces as long as it does not fit. -/
theorem putTxtLoop_line (line collected : Text) (more : List Byte) (oneLine : newline ∉ line)
    (room : collected.length ≤ maxChar - 1) :
    putTxtLoop collected (line ++ newline :: more) =
      wireLine (collected ++ line) ++ putTxtLoop [] more := by
  induction line generalizing collected with
  | nil =>
    rw [List.append_nil, wireLine, dif_neg (by omega), List.nil_append, putTxtLoop, if_pos rfl]
  | cons byte line inductionHypothesis =>
    obtain ⟨other, oneLine'⟩ : byte ≠ newline ∧ newline ∉ line := by
      simpa [eq_comm] using oneLine
    rw [List.cons_append, putTxtLoop, if_neg other]
    by_cases full : collected.length ≥ maxChar - 1
    · have exact : collected.length = maxChar - 1 := by omega
      rw [if_pos full, inductionHypothesis [byte] oneLine' (by simp [maxChar]),
        List.singleton_append,
        wireLine.eq_def (collected ++ byte :: line), dif_pos (by simp [exact])]
      rw [← exact, List.take_left, List.drop_left, List.append_assoc]
    · rw [if_neg full, inductionHypothesis _ oneLine' (by simp; omega), List.append_assoc,
        List.singleton_append]

/-- A text is sent line by line, each of them in its pieces. -/
theorem putTxtBuf_written (lines : List Text) (oneLine : ∀ line ∈ lines, newline ∉ line) :
    putTxtBuf (written lines) = lines.flatMap wireLine := by
  induction lines with
  | nil => rfl
  | cons line lines inductionHypothesis =>
    obtain ⟨first, others⟩ := List.forall_mem_cons.mp oneLine
    rw [putTxtBuf, written_cons, List.flatMap_cons, putTxtLoop_line line [] _ first (Nat.zero_le _),
      List.nil_append, ← inductionHypothesis others, putTxtBuf]

/-! ## What is read from it -/

/-- A text that is longer than the buffer fills it. -/
theorem takeLine_full (count : Nat) (text more : List Byte) (oneLine : newline ∉ text)
    (long : count ≤ text.length) :
    takeLine count (text ++ more) = (text.take count, text.drop count ++ more) := by
  induction count generalizing text with
  | zero => simp [takeLine]
  | succ count inductionHypothesis =>
    cases text with
    | nil => simp at long
    | cons byte text =>
      obtain ⟨other, oneLine'⟩ : byte ≠ newline ∧ newline ∉ text := by
        simpa [eq_comm] using oneLine
      rw [List.cons_append, takeLine, if_neg other,
        inductionHypothesis text oneLine' (by simpa using long)]
      rfl

/-- A line that fits is read with its newline. -/
theorem takeLine_line (count : Nat) (text more : List Byte) (oneLine : newline ∉ text)
    (short : text.length < count) :
    takeLine count (text ++ newline :: more) = (text ++ [newline], more) := by
  induction text generalizing count with
  | nil =>
    obtain ⟨count, rfl⟩ : ∃ before, count = before + 1 := ⟨count - 1, by simp at short; omega⟩
    simp [takeLine]
  | cons byte text inductionHypothesis =>
    obtain ⟨other, oneLine'⟩ : byte ≠ newline ∧ newline ∉ text := by
      simpa [eq_comm] using oneLine
    obtain ⟨count, rfl⟩ : ∃ before, count = before + 1 := ⟨count - 1, by simp at short; omega⟩
    rw [List.cons_append, takeLine, if_neg other,
      inductionHypothesis count oneLine' (by simpa using short)]
    rfl

/-- What the reader takes off a line again: one dot, whoever has put it there. -/
def unstuffed (line : Text) : Text := if line.head? = some dot then line.tail else line

/-- Putting the dot in front and taking it off cancel out. -/
theorem unstuffed_stuffed (line : Text) : unstuffed (stuffed line) = line := by
  by_cases dotted : line.head? = some dot
  · simp [stuffed, unstuffed, dotted]
  · simp [stuffed, unstuffed, dotted]

/-- As a C string a text without NUL is itself. -/
theorem untilNul_clean_text (text : List Byte) (noNul : 0 ∉ text) : untilNul text = text := by
  rw [untilNul, List.takeWhile_eq_self_iff]
  intro byte member
  simp only [decide_eq_true_eq]
  exact fun zero => noNul (zero ▸ member)

/-- What a line in the buffer means: the end of the text if it is a single dot, and otherwise the
line without the dot at its front. -/
theorem getTxtLn_buffer {stream buffer rest : List Byte}
    (read : fgets maxChar stream = some (buffer, rest)) :
    getTxtLn stream = some (if stripEnd (untilNul buffer) = [dot] then none
      else some (unstuffed (stripEnd (untilNul buffer))), rest) := by
  simp only [getTxtLn, getLn, read, Option.bind_eq_bind, Option.bind_some]
  generalize stripEnd (untilNul buffer) = line
  cases line with
  | nil => simp [unstuffed]
  | cons byte line =>
    by_cases dotted : byte = dot
    · by_cases alone : line = []
      · simp [dotted, alone]
      · simp [dotted, alone, unstuffed]
    · simp [dotted, unstuffed]

/-- A buffer full of a text is read as a line, although no end of line has come yet. -/
theorem getTxtLn_full (text more : List Byte) (oneLine : newline ∉ text) (noNul : 0 ∉ text)
    (long : maxChar - 1 ≤ text.length) :
    getTxtLn (text ++ more) =
      some (some (unstuffed (text.take (maxChar - 1))), text.drop (maxChar - 1) ++ more) := by
  have nonempty : text ++ more ≠ [] := by
    intro empty
    simp [(List.append_eq_nil_iff.mp empty).1, maxChar] at long
  have read : fgets maxChar (text ++ more) =
      some (text.take (maxChar - 1), text.drop (maxChar - 1) ++ more) := by
    rw [fgets, if_neg nonempty, takeLine_full _ text more oneLine long]
  have clean : 0 ∉ text.take (maxChar - 1) := fun zero => noNul (List.mem_of_mem_take zero)
  have unended : (text.take (maxChar - 1)).getLast? ≠ some newline := fun last =>
    oneLine (List.mem_of_mem_take (List.mem_of_getLast? last))
  have many : text.take (maxChar - 1) ≠ [dot] := by
    intro single
    have length := congrArg List.length single
    rw [List.length_take, Nat.min_eq_left long] at length
    simp [maxChar] at length
  rw [getTxtLn_buffer read, untilNul_clean_text _ clean, stripEnd, if_neg unended, if_neg many]

/-- A piece of just that length is read as a line of its own. -/
theorem getTxtLn_piece (piece more : List Byte) (oneLine : newline ∉ piece) (noNul : 0 ∉ piece)
    (exact : piece.length = maxChar - 1) :
    getTxtLn (piece ++ more) = some (some (unstuffed piece), more) := by
  rw [getTxtLn_full piece more oneLine noNul (Nat.le_of_eq exact.symm),
    List.take_of_length_le (Nat.le_of_eq exact), List.drop_eq_nil_of_le (Nat.le_of_eq exact),
    List.nil_append]

/-- A line with its end is read without it, and a single dot is the end of the text. -/
theorem getTxtLn_line (text more : List Byte) (oneLine : newline ∉ text) (noNul : 0 ∉ text)
    (short : text.length + 2 < maxChar) :
    getTxtLn (text ++ carriageReturn :: newline :: more) =
      some (if text = [dot] then none else some (unstuffed text), more) := by
  have split : text ++ carriageReturn :: newline :: more =
      (text ++ [carriageReturn]) ++ newline :: more := by simp
  have oneLine' : newline ∉ text ++ [carriageReturn] := by
    rw [List.mem_append, not_or]
    exact ⟨oneLine, by decide⟩
  have read : fgets maxChar ((text ++ [carriageReturn]) ++ newline :: more) =
      some ((text ++ [carriageReturn]) ++ [newline], more) := by
    rw [fgets, if_neg (by simp), takeLine_line _ _ more oneLine' (by simp; omega)]
  have clean : 0 ∉ (text ++ [carriageReturn]) ++ [newline] := by
    rw [List.append_assoc, List.mem_append, not_or]
    exact ⟨noNul, by decide⟩
  have ended : stripEnd ((text ++ [carriageReturn]) ++ [newline]) = text := by
    simp [stripEnd]
  rw [split, getTxtLn_buffer read, untilNul_clean_text _ clean, ended]

/-- An end of line without a carriage return is read as an empty line. -/
theorem getTxtLn_newline (more : List Byte) :
    getTxtLn (newline :: more) = some (some [], more) := by
  have read : fgets maxChar (newline :: more) = some ([newline], more) := rfl
  rw [getTxtLn_buffer read]
  rfl

/-! ## Texts as the reader gets them -/

/-- The lines that the reader makes of a line: one if it fits into the buffer with its end, and
otherwise as many as there are pieces. -/
def heard (line : Text) : List Text :=
  if _long : maxChar - 1 < line.length then
    unstuffed (line.take (maxChar - 1)) :: heard (line.drop (maxChar - 1))
  else if (stuffed line).length + 2 < maxChar then [line]
  else [unstuffed ((stuffed line ++ [carriageReturn]).take (maxChar - 1)),
    (stuffed line).drop (maxChar - 1)]
termination_by line.length
decreasing_by
  rw [List.length_drop]
  simp only [maxChar] at _long ⊢
  omega

/-- The last piece of the line fills the buffer of the writer and is a dot too long for that of
the reader, who finds another dot alone on a line. -/
def cutsShort (line : Text) : Bool :=
  if _long : maxChar - 1 < line.length then cutsShort (line.drop (maxChar - 1))
  else (stuffed line).drop (maxChar - 1) = [dot]
termination_by line.length
decreasing_by
  rw [List.length_drop]
  simp only [maxChar] at _long ⊢
  omega

/-- A line that is no end is the first of the lines. -/
theorem getTxt_line {stream rest : List Byte} {line : Text}
    (read : getTxtLn stream = some (some line, rest)) :
    getTxt stream = (getTxt rest).map fun later => (line :: later.1, later.2) := by
  rw [getTxt]
  split <;> simp_all

/-- The end of a text leaves the rest of the stream alone. -/
theorem getTxt_end {stream rest : List Byte} (read : getTxtLn stream = some (none, rest)) :
    getTxt stream = some ([], rest) := by
  rw [getTxt]
  split <;> simp_all

/-- The dot makes a line at most one byte longer. -/
theorem stuffed_length (line : Text) :
    (stuffed line).length = line.length ∨ (stuffed line).length = line.length + 1 := by
  rw [stuffed]
  split
  · exact Or.inr rfl
  · exact Or.inl rfl

/-- The dot is no newline. -/
theorem stuffed_oneLine {line : Text} (oneLine : newline ∉ line) : newline ∉ stuffed line := by
  rw [stuffed]
  split
  · exact List.not_mem_cons_of_ne_of_not_mem (by decide) oneLine
  · exact oneLine

/-- The dot is no NUL. -/
theorem stuffed_noNul {line : Text} (noNul : 0 ∉ line) : 0 ∉ stuffed line := by
  rw [stuffed]
  split
  · exact List.not_mem_cons_of_ne_of_not_mem (by decide) noNul
  · exact noNul

/-- A line that is a single dot is sent as two, so no line is taken for the end where it fits. -/
theorem stuffed_dot (line : Text) : stuffed line ≠ [dot] := by
  intro alone
  by_cases dotted : line.head? = some dot
  · rw [stuffed, if_pos dotted, List.cons.injEq] at alone
    simp [alone.2] at dotted
  · rw [stuffed, if_neg dotted] at alone
    simp [alone] at dotted

/-- The rest of a piece that the reader finds behind a full buffer. It begins in the middle of
what the writer has sent, so a dot there has not been doubled. -/
theorem getTxtLn_rest (line more : List Byte) (oneLine : newline ∉ line) (noNul : 0 ∉ line)
    (short : line.length ≤ maxChar - 1) (long : maxChar ≤ (stuffed line).length + 2) :
    getTxtLn ((stuffed line ++ [carriageReturn]).drop (maxChar - 1) ++ newline :: more) =
      some (if (stuffed line).drop (maxChar - 1) = [dot] then none
        else some ((stuffed line).drop (maxChar - 1)), more) := by
  have length := stuffed_length line
  have left : ((stuffed line).drop (maxChar - 1)).length ≤ 1 := by
    rw [List.length_drop]
    omega
  by_cases whole : (stuffed line).length + 2 = maxChar
  · have nothing : (stuffed line).drop (maxChar - 1) = [] :=
      List.drop_eq_nil_of_le (by omega)
    have nothing' : (stuffed line ++ [carriageReturn]).drop (maxChar - 1) = [] :=
      List.drop_eq_nil_of_le (by rw [List.length_append, List.length_singleton]; omega)
    rw [nothing, nothing', List.nil_append, getTxtLn_newline, if_neg (by simp)]
  · have oneLine' : newline ∉ (stuffed line).drop (maxChar - 1) := fun member =>
      stuffed_oneLine oneLine (List.mem_of_mem_drop member)
    have noNul' : 0 ∉ (stuffed line).drop (maxChar - 1) := fun member =>
      stuffed_noNul noNul (List.mem_of_mem_drop member)
    rw [List.drop_append_of_le_length (by omega), List.append_assoc, List.singleton_append,
      getTxtLn_line _ more oneLine' noNul' (by simp only [maxChar] at left ⊢; omega)]
    generalize (stuffed line).drop (maxChar - 1) = rest at left
    by_cases alone : rest = [dot]
    · rw [if_pos alone, if_pos alone]
    · have same : unstuffed rest = rest := by
        rcases rest with _ | ⟨byte, _ | ⟨_, _⟩⟩
        · rfl
        · have other : byte ≠ dot := fun dotted => alone (congrArg (fun first => [first]) dotted)
          simp [unstuffed, other]
        · simp at left
      rw [if_neg alone, if_neg alone, same]

/-- What the reader makes of a line that is sent in one piece. The interesting lengths are the two
at which the piece fills the buffer of the writer and no longer fits that of the reader. -/
theorem getTxt_putTxtLn (line more : List Byte) (oneLine : newline ∉ line) (noNul : 0 ∉ line)
    (short : line.length ≤ maxChar - 1) :
    (cutsShort line = false → getTxt (putTxtLn line ++ more) =
      (getTxt more).map fun later => (heard line ++ later.1, later.2)) ∧
    (cutsShort line = true → ∃ first, getTxt (putTxtLn line ++ more) = some ([first], more)) := by
  have length := stuffed_length line
  rw [cutsShort, heard, dif_neg (by omega), dif_neg (by omega), decide_eq_false_iff_not,
    decide_eq_true_iff]
  by_cases fits : (stuffed line).length + 2 < maxChar
  · have nothing : (stuffed line).drop (maxChar - 1) ≠ [dot] := by
      rw [List.drop_eq_nil_of_le (by omega)]
      simp
    have read := getTxtLn_line (stuffed line) more (stuffed_oneLine oneLine)
      (stuffed_noNul noNul) fits
    rw [if_neg (stuffed_dot line), unstuffed_stuffed] at read
    refine ⟨fun _ => ?_, fun cut => absurd cut nothing⟩
    rw [if_pos fits, putTxtLn, List.append_assoc, List.cons_append, List.singleton_append,
      getTxt_line read]
    rfl
  · have oneLine' : newline ∉ stuffed line ++ [carriageReturn] := by
      rw [List.mem_append, not_or]
      exact ⟨stuffed_oneLine oneLine, by decide⟩
    have noNul' : 0 ∉ stuffed line ++ [carriageReturn] := by
      rw [List.mem_append, not_or]
      exact ⟨stuffed_noNul noNul, by decide⟩
    have read := getTxtLn_full (stuffed line ++ [carriageReturn]) (newline :: more) oneLine' noNul'
      (by rw [List.length_append, List.length_singleton]; omega)
    have later := getTxtLn_rest line more oneLine noNul short (by omega)
    have sent : putTxtLn line ++ more =
        stuffed line ++ [carriageReturn] ++ newline :: more := by
      simp [putTxtLn]
    rw [sent, getTxt_line read]
    constructor
    · intro uncut
      rw [if_neg uncut] at later
      rw [getTxt_line later, if_neg fits, Option.map_map]
      rfl
    · intro cut
      rw [if_pos cut] at later
      rw [getTxt_end later]
      exact ⟨_, rfl⟩

/-- What the reader makes of any line. By induction over its pieces: all but the last one are read
as they are. -/
theorem getTxt_wireLine (line more : List Byte) (oneLine : newline ∉ line) (noNul : 0 ∉ line) :
    (cutsShort line = false → getTxt (wireLine line ++ more) =
      (getTxt more).map fun later => (heard line ++ later.1, later.2)) ∧
    (cutsShort line = true → ∃ first, getTxt (wireLine line ++ more) = some (first, more)) := by
  induction measured : line.length using Nat.strongRecOn generalizing line with
  | ind length inductionHypothesis =>
    by_cases long : maxChar - 1 < line.length
    · have shorter : (line.drop (maxChar - 1)).length < length := by
        rw [List.length_drop]
        simp only [maxChar] at long ⊢
        omega
      obtain ⟨uncut, cut⟩ := inductionHypothesis _ shorter (line.drop (maxChar - 1))
        (fun member => oneLine (List.mem_of_mem_drop member))
        (fun member => noNul (List.mem_of_mem_drop member)) rfl
      have piece : (line.take (maxChar - 1)).length = maxChar - 1 := by
        rw [List.length_take, Nat.min_eq_left (by omega)]
      have read := getTxtLn_piece (line.take (maxChar - 1))
        (wireLine (line.drop (maxChar - 1)) ++ more)
        (fun member => oneLine (List.mem_of_mem_take member))
        (fun member => noNul (List.mem_of_mem_take member)) piece
      rw [cutsShort, heard, wireLine, dif_pos long, dif_pos long, dif_pos long, List.append_assoc,
        getTxt_line read]
      constructor
      · intro short
        rw [uncut short, Option.map_map]
        rfl
      · intro short
        obtain ⟨first, heard'⟩ := cut short
        exact ⟨_, by rw [heard']; rfl⟩
    · obtain ⟨uncut, cut⟩ := getTxt_putTxtLn line more oneLine noNul (by omega)
      rw [wireLine, dif_neg long]
      exact ⟨uncut, fun short => (cut short).imp' _ fun _ same => same⟩

/-- The end of a text is recognised, and what comes after it is left in the stream. -/
theorem getTxt_putEndOfTxt (more : List Byte) : getTxt (putEndOfTxt ++ more) = some ([], more) := by
  apply getTxt_end
  exact getTxtLn_line [dot] more (by decide) (by decide) (by decide)

/-- A text without a line that cuts it short is read up to its end. What is read may still be more
lines than were sent. -/
theorem getTxt_uncut (lines : List Text) (clean : ∀ line ∈ lines, newline ∉ line ∧ 0 ∉ line)
    (uncut : ∀ line ∈ lines, cutsShort line = false) (more : List Byte) :
    getTxt (lines.flatMap wireLine ++ (putEndOfTxt ++ more)) =
      some (lines.flatMap heard, more) := by
  induction lines with
  | nil => exact getTxt_putEndOfTxt more
  | cons line lines inductionHypothesis =>
    obtain ⟨⟨oneLine, noNul⟩, others⟩ := List.forall_mem_cons.mp clean
    obtain ⟨first, later⟩ := List.forall_mem_cons.mp uncut
    rw [List.flatMap_cons, List.append_assoc, (getTxt_wireLine line _ oneLine noNul).1 first,
      inductionHypothesis others later]
    rfl

/-- A text with such a line leaves something of itself in the stream, which the next command would
be read from. -/
theorem getTxt_cut (lines : List Text) (clean : ∀ line ∈ lines, newline ∉ line ∧ 0 ∉ line)
    (cut : ∃ line ∈ lines, cutsShort line = true) (more : List Byte) :
    ∃ read rest, getTxt (lines.flatMap wireLine ++ (putEndOfTxt ++ more)) = some (read, rest) ∧
      more.length < rest.length := by
  induction lines with
  | nil => simp at cut
  | cons line lines inductionHypothesis =>
    obtain ⟨⟨oneLine, noNul⟩, others⟩ := List.forall_mem_cons.mp clean
    obtain ⟨uncut, short⟩ := getTxt_wireLine line
      (lines.flatMap wireLine ++ (putEndOfTxt ++ more)) oneLine noNul
    rw [List.flatMap_cons, List.append_assoc]
    cases here : cutsShort line with
    | true =>
      obtain ⟨read, same⟩ := short here
      refine ⟨read, _, same, ?_⟩
      simp only [putEndOfTxt, List.length_append, List.length_cons]
      omega
    | false =>
      have later : ∃ line ∈ lines, cutsShort line = true := by
        obtain ⟨line', member, cut'⟩ := cut
        rcases List.mem_cons.mp member with rfl | member
        · rw [here] at cut'
          contradiction
        · exact ⟨line', member, cut'⟩
      obtain ⟨read, rest, same, longer⟩ := inductionHypothesis others later
      exact ⟨heard line ++ read, rest, by rw [uncut here, same]; rfl, longer⟩

/-- The reader finds the end of a text where it is, exactly if no line of the text cuts it short.

The writer sends a line in pieces of at most 2047 bytes, and the reader reads pieces of its own.
`getTxt_wireLine` compares the two for one line. If no line cuts the text short, the lines follow
each other up to the end (`getTxt_uncut`); otherwise the first one that does ends the text there,
and the rest of the stream is longer than it should be (`getTxt_cut`). -/
theorem getTxt_synchronous_iff (lines : List Text)
    (clean : ∀ line ∈ lines, newline ∉ line ∧ 0 ∉ line) (more : List Byte) :
    (∃ read, getTxt (putTxtBuf (written lines) ++ putEndOfTxt ++ more) = some (read, more)) ↔
      ∀ line ∈ lines, cutsShort line = false := by
  rw [putTxtBuf_written lines fun line member => (clean line member).1, List.append_assoc]
  constructor
  · rintro ⟨read, synchronous⟩ line member
    by_contra cut
    obtain ⟨read', rest, same, longer⟩ := getTxt_cut lines clean
      ⟨line, member, Bool.eq_true_of_not_eq_false cut⟩ more
    rw [synchronous, Option.some.injEq, Prod.mk.injEq] at same
    rw [same.2] at longer
    exact Nat.lt_irrefl _ longer
  · exact fun uncut => ⟨_, getTxt_uncut lines clean uncut more⟩

/-- With a line of 2047 characters that begins and ends with a dot, the reader takes the last
character for the end of the text. -/
theorem getTxt_synchronous_dots : ¬ ∃ read, getTxt (putTxtBuf (written
    [dot :: (List.replicate 2045 0x61 ++ [dot]), [0x62]]) ++ putEndOfTxt ++ []) =
      some (read, []) := by
  have clean : ∀ line ∈ [dot :: (List.replicate 2045 0x61 ++ [dot]), [0x62]],
      newline ∉ line ∧ 0 ∉ line := by decide +kernel
  rw [getTxt_synchronous_iff _ clean]
  intro uncut
  have first := uncut _ List.mem_cons_self
  rw [cutsShort, dif_neg (by decide +kernel)] at first
  exact absurd first (by decide +kernel)

/-! ## Texts whose lines fit -/

/-- A line that fits into the buffer of the reader together with its dot and its end. Such lines
are read as they were sent. -/
def Fits (line : Text) : Prop :=
  newline ∉ line ∧ 0 ∉ line ∧ (stuffed line).length + 2 < maxChar

instance (line : Text) : Decidable (Fits line) :=
  inferInstanceAs (Decidable (newline ∉ line ∧ 0 ∉ line ∧ (stuffed line).length + 2 < maxChar))

/-- A line that fits is sent in one piece. -/
theorem Fits.short {line : Text} (fits : Fits line) : ¬ maxChar - 1 < line.length := by
  have length := stuffed_length line
  have room := fits.2.2
  omega

/-- A line that fits is read as it was sent. -/
theorem Fits.heard {line : Text} (fits : Fits line) : heard line = [line] := by
  rw [News.heard, dif_neg fits.short, if_pos fits.2.2]

/-- A line that fits never cuts a text short. -/
theorem Fits.uncut {line : Text} (fits : Fits line) : cutsShort line = false := by
  have room := fits.2.2
  rw [cutsShort, dif_neg fits.short, List.drop_eq_nil_of_le (by omega)]
  rfl

/-- A text whose lines fit is read as it was sent, and nothing else is read. -/
theorem getTxt_fits (text : List Text) (fits : ∀ line ∈ text, Fits line) (more : List Byte) :
    getTxt (putTxtBuf (written text) ++ putEndOfTxt ++ more) = some (text, more) := by
  have same : text.flatMap News.heard = text := by
    rw [List.flatMap_congr fun line member => (fits line member).heard]
    simp
  have read := getTxt_uncut text (fun line member => ⟨(fits line member).1, (fits line member).2.1⟩)
    (fun line member => (fits line member).uncut) more
  rwa [← putTxtBuf_written text fun line member => (fits line member).1, same,
    ← List.append_assoc] at read

/-- Texts that are sent one after the other, read one after the other. -/
def getTxts : Nat → List Byte → Option (List (List Text) × List Byte)
  | 0, stream => some ([], stream)
  | count + 1, stream => do
    let text ← getTxt stream
    let later ← getTxts count text.2
    some (text.1 :: later.1, later.2)

/-- Any number of texts whose lines fit are read as they were sent, whatever their lines are.
Single dots and empty lines among them make no difference, and no text runs into the next one.

By induction on the texts. A text whose lines fit is read up to its own closing dot, and what
follows it on the stream is left over for the next text. -/
theorem getTxts_sent (texts : List (List Text)) (fits : ∀ text ∈ texts, ∀ line ∈ text, Fits line)
    (more : List Byte) :
    getTxts texts.length ((texts.flatMap fun text => putTxtBuf (written text) ++ putEndOfTxt) ++
      more) = some (texts, more) := by
  induction texts with
  | nil => rfl
  | cons text texts inductionHypothesis =>
    obtain ⟨here, later⟩ := List.forall_mem_cons.mp fits
    have read := getTxt_fits text here
      ((texts.flatMap fun text => putTxtBuf (written text) ++ putEndOfTxt) ++ more)
    rw [List.flatMap_cons, List.length_cons, getTxts, List.append_assoc, read]
    simp only [Option.bind_eq_bind, Option.bind_some, inductionHypothesis later]

/-- Two texts of dots and empty lines, one of them empty, in front of the next answer. -/
theorem getTxts_sent_dots : getTxts 2 (([[[dot], [], [dot, dot]], []].flatMap fun text =>
    putTxtBuf (written text) ++ putEndOfTxt) ++ [0x32]) =
      some ([[[dot], [], [dot, dot]], []], [0x32]) :=
  getTxts_sent [[[dot], [], [dot, dot]], []] (by simp [Fits, newline, dot, stuffed, maxChar]) [0x32]

end Schnitzeljagd.News
