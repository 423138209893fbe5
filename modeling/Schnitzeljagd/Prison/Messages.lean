import Schnitzeljagd.Prison.Broadcast
import Schnitzeljagd.Foundations.PositionalCipher
import Mathlib.Data.List.TakeWhile

/-!
# Splitting and encoding the messages

The `strtok` loop turns the buffer into a row of cells whose texts are the first
hundred message lines of the file. Encoding then works inside one cell at a time.

The encoding loop stops early when it has produced a NUL, because its bound is the
length of the text it is rewriting. A NUL appears exactly where a byte of the line
equals the byte of the password at its position, so a line is sent whole exactly
when that happens nowhere in it.
-/

namespace Schnitzeljagd.Prison

open Foundations.CArithmetic Foundations.CString Foundations.PositionalCipher

/-! ## Message lines -/

/-- The nonempty newline-separated pieces of a text, which `strtok` delivers one after the other.
-/
def pieces (text : List Byte) : List (List Byte) :=
  (text.splitOn newline).filter (fun piece => piece ≠ [])

/-- The part of the file that the program looks at: its first 9999 bytes, up to the
first NUL. -/
def visible (file : List Byte) : List Byte :=
  (file.take (bufSize - 1)).takeWhile (fun byte => byte ≠ 0)

/-- The message lines of a file. -/
def lines (file : List Byte) : List (List Byte) :=
  (pieces (visible file)).take MAXMESSAGES

/-- A newline at the front separates nothing. -/
theorem pieces_newline (text : List Byte) : pieces (newline :: text) = pieces text := by
  have split := List.splitOn_append_cons_self (a := newline) [] text
  simp only [List.nil_append] at split
  simp [pieces, split]

/-- Nor do several of them. -/
theorem pieces_gap (skipped text : List Byte) (gap : ∀ byte ∈ skipped, byte = newline) :
    pieces (skipped ++ text) = pieces text := by
  induction skipped with
  | nil => rfl
  | cons byte skipped inductionHypothesis =>
    rw [gap byte (by simp), List.cons_append, pieces_newline]
    exact inductionHypothesis fun other member => gap other (List.mem_cons_of_mem byte member)

/-- A text without newlines is one piece, unless it is empty. -/
theorem pieces_last (token : List Byte) (nonempty : token ≠ []) (whole : newline ∉ token) :
    pieces token = [token] := by
  simp [pieces, List.splitOn_eq_singleton whole, nonempty]

/-- A newline behind a token ends it, and what follows has pieces of its own. -/
theorem pieces_token (token text : List Byte) (nonempty : token ≠ [])
    (whole : newline ∉ token) :
    pieces (token ++ newline :: text) = token :: pieces text := by
  simp [pieces, List.splitOn_append_cons_self_of_not_mem whole, nonempty]

/-! ## The token loop -/

/-- A text consists of newlines only, or it begins with newlines and then a token
that ends with the text or at a newline. -/
theorem text_cases (text : List Byte) :
    (∀ byte ∈ text, byte = newline) ∨
      ∃ skipped token rest, text = skipped ++ (token ++ rest) ∧
        (∀ byte ∈ skipped, byte = newline) ∧ token ≠ [] ∧ newline ∉ token ∧
        (rest = [] ∨ ∃ more, rest = newline :: more) := by
  induction text with
  | nil => exact Or.inl (by simp)
  | cons byte text inductionHypothesis =>
    by_cases gap : byte = newline
    · rcases inductionHypothesis with all | ⟨skipped, token, rest, split, gaps, found⟩
      · left
        intro other member
        obtain rfl | member := List.mem_cons.mp member
        · exact gap
        · exact all other member
      · refine Or.inr ⟨byte :: skipped, token, rest, by rw [split, List.cons_append], ?_, found⟩
        intro other member
        obtain rfl | member := List.mem_cons.mp member
        · exact gap
        · exact gaps other member
    · right
      refine ⟨[], byte :: text.takeWhile (fun other => other ≠ newline),
        text.dropWhile (fun other => other ≠ newline), ?_, by simp, by simp, ?_, ?_⟩
      · rw [List.nil_append, List.cons_append, List.takeWhile_append_dropWhile]
      · intro member
        obtain same | member := List.mem_cons.mp member
        · exact gap same.symm
        · simpa using List.mem_takeWhile_imp member
      · cases remaining : text.dropWhile (fun other => other ≠ newline) with
        | nil => exact Or.inl rfl
        | cons first more =>
          have some_left : text.dropWhile (fun other => other ≠ newline) ≠ [] := by
            rw [remaining]
            exact List.cons_ne_nil first more
          have stopped := List.head_dropWhile_not (fun other => decide (other ≠ newline)) some_left
          simp only [remaining, List.head_cons] at stopped
          exact Or.inr ⟨more, by rw [of_not_not (of_decide_eq_false stopped)]⟩

/-- Without a token the loop ends, whatever room is left. -/
theorem collect_none (room : Nat) (memory : List Byte) (saved : Nat) (messages : List Nat) :
    collect room ⟨memory, saved, none⟩ messages = some (memory, messages) := by
  cases room <;> rfl

/-- A call at the beginning of a text changes nothing in front of it. -/
theorem strtok_front (before text after : List Byte) (noNul : ∀ byte ∈ text, byte ≠ 0) :
    ∃ token tail, strtok newline (before ++ (text ++ 0 :: after)) before.length = some token ∧
      token.memory = before ++ tail := by
  obtain all | ⟨skipped, token, rest, rfl, gap, nonempty, whole, ends⟩ := text_cases text
  · exact ⟨_, text ++ 0 :: after, strtok_none newline before text after (by decide) all, rfl⟩
  · have clean : ∀ byte ∈ token, byte ≠ newline ∧ byte ≠ 0 := fun byte member =>
      ⟨fun same => whole (same ▸ member), noNul byte (by simp [member])⟩
    rcases ends with rfl | ⟨more, rfl⟩
    · rw [List.append_nil, List.append_assoc]
      exact ⟨_, _, strtok_token newline before skipped token after gap nonempty clean 0 (Or.inr rfl),
        rfl⟩
    · rw [List.append_assoc, List.append_assoc, List.cons_append]
      exact ⟨_, _, strtok_token newline before skipped token (more ++ 0 :: after) gap nonempty clean
        newline (Or.inl rfl), rfl⟩

/-- One call of `strtok` and the loop after it lay out the next pieces of the text,
as many as there is room for, and leave everything before the text alone.

The induction is on the room. A token that ends with the text has the final NUL
as its terminator, and the next call finds no token there. After any other token
the text behind the overwritten newline is the text of the induction hypothesis.
With no room left, the call already made changes bytes behind the last cell only. -/
theorem collect_layout (room : Nat) (before text after : List Byte) (messages : List Nat)
    (noNul : ∀ byte ∈ text, byte ≠ 0) :
    ∃ cells tail,
      (strtok newline (before ++ (text ++ 0 :: after)) before.length >>= fun token =>
        collect room token messages) =
          some (before ++ layout cells tail, messages ++ starts before.length cells) ∧
      cells.map Cell.text = (pieces text).take room ∧
      ∀ cell ∈ cells, ∀ byte ∈ cell.text, byte ≠ 0 := by
  induction room generalizing before text messages with
  | zero =>
    obtain ⟨token, tail, called, front⟩ := strtok_front before text after noNul
    refine ⟨[], tail, ?_, by simp, by simp⟩
    rw [called]
    simp [collect, front, layout, starts]
  | succ room inductionHypothesis =>
    obtain all | ⟨skipped, token, rest, rfl, gap, nonempty, whole, ends⟩ := text_cases text
    · refine ⟨[], text ++ 0 :: after, ?_, ?_, by simp⟩
      · rw [strtok_none newline before text after (by decide) all]
        simp [collect, layout, starts]
      · have none : pieces text = [] := by
          rw [← List.append_nil text, pieces_gap text [] all]
          rfl
        rw [none]
        rfl
    · have clean : ∀ byte ∈ token, byte ≠ newline ∧ byte ≠ 0 := fun byte member =>
        ⟨fun same => whole (same ▸ member), noNul byte (by simp [member])⟩
      rcases ends with rfl | ⟨more, rfl⟩
      · refine ⟨[⟨skipped, token⟩], after, ?_, ?_, ?_⟩
        · have ended := strtok_none newline (before ++ (skipped ++ token)) [] after (by decide)
            (by simp)
          rw [List.nil_append, List.append_assoc, List.append_assoc, List.length_append,
            List.length_append, ← Nat.add_assoc] at ended
          rw [List.append_nil, List.append_assoc,
            strtok_token newline before skipped token after gap nonempty clean 0 (Or.inr rfl)]
          simp only [Option.bind_eq_bind, Option.bind_some, collect, if_pos, Nat.add_zero, ended,
            collect_none]
          rfl
        · rw [pieces_gap skipped _ gap, List.append_nil, pieces_last token nonempty whole]
          simp
        · simpa using fun byte member => (clean byte member).2
      · have rest := inductionHypothesis (before ++ (skipped ++ (token ++ [0]))) more
          (messages ++ [before.length + skipped.length])
          (fun byte member => noNul byte (by simp [member]))
        obtain ⟨cells, tail, collected, texts, cleanCells⟩ := rest
        refine ⟨⟨skipped, token⟩ :: cells, tail, ?_, ?_, ?_⟩
        · simp only [List.append_assoc, List.cons_append, List.nil_append, List.length_append,
            List.length_singleton, ← Nat.add_assoc] at collected
          rw [List.append_assoc, List.append_assoc, List.cons_append,
            strtok_token newline before skipped token (more ++ 0 :: after) gap nonempty clean
              newline (Or.inl rfl)]
          simp only [Option.bind_eq_bind, Option.bind_some, collect,
            if_neg (by decide : newline ≠ 0), starts, layout] at collected ⊢
          exact collected
        · rw [pieces_gap skipped _ gap, pieces_token token more nonempty whole, List.map_cons,
            texts, List.take_succ_cons]
        · intro cell member
          obtain rfl | member := List.mem_cons.mp member
          · exact fun byte member => (clean byte member).2
          · exact cleanCells cell member

/-! ## The encoding loop -/

/-- The password byte for a position, `password[j % strlen(password)]`. -/
def keyByte (j : Nat) : Byte := password.getD (j % 7) 0

/-- The positional cipher of the password. -/
def mask : Schedule Byte := fun j => xorPerm (keyByte j)

/-- The password has seven bytes. -/
theorem strlen_password : strlen password 0 = some 7 := by decide

/-- Reading the password at a remainder by seven stays in front of its NUL. -/
theorem load_password (j : Nat) : load password (j % 7 : Nat) = some (keyByte j) := by
  have table : ∀ index < 7, load password (index : Nat) = some (password.getD index 0) := by decide
  exact table (j % 7) (Nat.mod_lt j (by decide))

/-- What the inner loop makes of the rest of a text from position `j`: it replaces
bytes up to and including the first one that becomes NUL. -/
def encoded (j : Nat) : List Byte → List Byte
  | [] => []
  | byte :: rest =>
    if byte ^^^ keyByte j = 0 then 0 :: rest else (byte ^^^ keyByte j) :: encoded (j + 1) rest

/-- Encoding takes place within the text. -/
@[simp] theorem encoded_length (j : Nat) (text : List Byte) :
    (encoded j text).length = text.length := by
  induction text generalizing j with
  | nil => rfl
  | cons byte rest inductionHypothesis =>
    rw [encoded]
    split
    · simp
    · simp [inductionHypothesis]

/-- The inner loop from position `done.length` of a text rewrites the rest of that
text and nothing else.

Induction on the rest. As long as no NUL was produced, `strlen` still measures the
whole text. After a NUL at position `j` it measures `j`, and the next turn, at
`j + 1`, ends the loop. -/
theorem encodeMessage_text (before done rest after : List Byte) (fuel : Nat)
    (doneClean : ∀ byte ∈ done, byte ≠ 0) (restClean : ∀ byte ∈ rest, byte ≠ 0)
    (enough : rest.length < fuel) :
    encodeMessage before.length fuel (before ++ (done ++ (rest ++ 0 :: after))) done.length =
      some (before ++ (done ++ (encoded done.length rest ++ 0 :: after))) := by
  induction rest generalizing done fuel with
  | nil =>
    obtain ⟨fuel, rfl⟩ := Nat.exists_eq_add_of_lt enough
    have measured := strlen_append before done after doneClean
    simp only [List.nil_append, List.length_nil, Nat.zero_add, encoded] at measured ⊢
    rw [encodeMessage, measured]
    simp
  | cons byte rest inductionHypothesis =>
    obtain ⟨fuel, rfl⟩ := Nat.exists_eq_add_of_lt enough
    have measured := strlen_append before (done ++ byte :: rest) after (by
      intro other member
      obtain member | member := List.mem_append.mp member
      · exact doneClean other member
      · exact restClean other member)
    have place : before.length + done.length = (before ++ done).length := List.length_append.symm
    have read := load_append (before ++ done) (rest ++ 0 :: after) byte _ place
    have written := store_append (before ++ done) (rest ++ 0 :: after) byte
      (byte ^^^ keyByte done.length) _ place
    simp only [List.append_assoc] at measured read written
    have step : encodeMessage before.length ((byte :: rest).length + fuel + 1)
        (before ++ (done ++ (byte :: rest ++ 0 :: after))) done.length =
        encodeMessage before.length ((byte :: rest).length + fuel)
          (before ++ (done ++ (byte ^^^ keyByte done.length) :: (rest ++ 0 :: after)))
          (done.length + 1) := by
      rw [encodeMessage, measured]
      simp only [Option.bind_eq_bind, Option.bind_some, strlen_password, load_password]
      rw [if_pos (by simp), List.cons_append, read]
      simp only [Option.bind_some, written]
    rw [step, encoded]
    split
    · next nul =>
      have stopped := strlen_append before done (rest ++ 0 :: after) doneClean
      rw [nul, List.length_cons, Nat.add_right_comm, encodeMessage, stopped]
      simp
    · next real =>
      have following := inductionHypothesis (done ++ [byte ^^^ keyByte done.length])
        ((byte :: rest).length + fuel)
        (by
          intro other member
          obtain member | member := List.mem_append.mp member
          · exact doneClean other member
          · rw [List.mem_singleton.mp member]
            exact real)
        (fun other member => restClean other (List.mem_cons_of_mem byte member))
        (by rw [List.length_cons]; omega)
      simpa using following

/-- A cell with its text encoded in place. -/
def encodeCell (cell : Cell) : Cell := { cell with text := encoded 0 cell.text }

/-- Encoding every message rewrites the text of every cell, and leaves the gaps, the
terminators and what lies before and behind the cells alone. -/
theorem encode_layout (cells : List Cell) (before tail : List Byte)
    (clean : ∀ cell ∈ cells, ∀ byte ∈ cell.text, byte ≠ 0) :
    (starts before.length cells).foldlM
        (fun buf message => encodeMessage message (buf.length + 1) buf 0)
        (before ++ layout cells tail) =
      some (before ++ layout (cells.map encodeCell) tail) := by
  induction cells generalizing before with
  | nil => rfl
  | cons cell cells inductionHypothesis =>
    have first (fuel : Nat) (enough : cell.text.length < fuel) :=
      encodeMessage_text (before ++ cell.gap) [] cell.text (layout cells tail) fuel (by simp)
        (clean cell (by simp)) enough
    have rest := inductionHypothesis
      (before ++ (cell.gap ++ (encoded 0 cell.text ++ [0])))
      (fun other member => clean other (List.mem_cons_of_mem cell member))
    simp only [List.nil_append, List.length_nil, List.append_assoc, List.length_append,
      encoded_length, List.length_singleton, List.cons_append, ← Nat.add_assoc] at first rest
    rw [starts, List.foldlM_cons, layout, first _ (by simp only [List.length_append]; omega),
      Option.bind_eq_bind, Option.bind_some, rest]
    rfl

/-! ## Datagrams -/

/-- Up to its first NUL an encoded text is the masked line. -/
theorem encoded_takeWhile (j : Nat) (line : List Byte) :
    (encoded j line).takeWhile (fun byte => byte ≠ 0) =
      (line.mapIdx fun i byte => byte ^^^ keyByte (j + i)).takeWhile (fun byte => byte ≠ 0) := by
  induction line generalizing j with
  | nil => rfl
  | cons byte line inductionHypothesis =>
    rw [encoded, List.mapIdx_cons]
    simp only [Nat.add_zero]
    split
    · next nul => simp [nul]
    · next real =>
      have rest := inductionHypothesis (j + 1)
      simp only [Nat.add_assoc, Nat.add_comm 1] at rest
      rw [List.takeWhile_cons, List.takeWhile_cons, if_pos (by simpa using real),
        if_pos (by simpa using real), rest]

/-- The string that is sent for a line. -/
def sent (line : List Byte) : List Byte := (encode mask line).takeWhile (fun byte => byte ≠ 0)

/-- The buffer and the messages behind the `strtok` loop. -/
def split (buf : Buf) (file : List Byte) : Option (List Byte × List Nat) := do
  let buf ← readMessages buf file
  let token ← strtok newline buf 0
  collect MAXMESSAGES token []

/-- The encoding loop over all messages. -/
def encodeMessages (messages : List Nat) (buf : List Byte) : Option (List Byte) :=
  messages.foldlM (fun buf message => encodeMessage message (buf.length + 1) buf 0) buf

/-- The program is prepared by splitting and then encoding. -/
theorem prepare_split (buf : Buf) (file memory final : List Byte) (messages : List Nat)
    (splitted : split buf file = some (memory, messages))
    (encoded : encodeMessages messages memory = some final) :
    prepare buf file = some ⟨final, messages⟩ := by
  simp only [split, Option.bind_eq_bind, Option.bind_eq_some_iff] at splitted
  obtain ⟨read, reading, token, found, collected⟩ := splitted
  rw [encodeMessages] at encoded
  simp only [prepare, Option.bind_eq_bind, reading, Option.bind_some, found, collected, encoded]
  rfl

/-- Reading leaves what the program looks at, and a NUL behind it. -/
theorem readMessages_visible (buf : Buf) (file : List Byte) :
    ∃ after, readMessages buf file = some (visible file ++ 0 :: after) := by
  have short : (file.take (bufSize - 1)).length < bufSize := by
    rw [List.length_take]
    unfold bufSize
    omega
  have room : (buf.bytes.drop (file.take (bufSize - 1)).length) ≠ [] := by
    rw [ne_eq, List.drop_eq_nil_iff, buf.full]
    omega
  obtain ⟨old, rest, shape⟩ := List.exists_cons_of_ne_nil room
  obtain ⟨more, visible_prefix⟩ := string_prefix (file.take (bufSize - 1)) rest
  refine ⟨more, ?_⟩
  rw [readMessages, shape, store_append _ rest old 0 _ rfl, visible_prefix]
  rfl

/-- The loop over the tokens makes a row of cells with the lines of the file. -/
theorem split_cells (buf : Buf) (file : List Byte) :
    ∃ cells tail, split buf file = some (layout cells tail, starts 0 cells) ∧
      cells.map Cell.text = lines file ∧ ∀ cell ∈ cells, ∀ byte ∈ cell.text, byte ≠ 0 := by
  have noNul : ∀ byte ∈ visible file, byte ≠ 0 := fun byte member => by
    simpa using List.mem_takeWhile_imp member
  obtain ⟨after, memory⟩ := readMessages_visible buf file
  obtain ⟨cells, tail, collected, texts, clean⟩ :=
    collect_layout MAXMESSAGES [] (visible file) after [] noNul
  simp only [List.nil_append, List.length_nil] at collected
  refine ⟨cells, tail, ?_, texts, clean⟩
  simp only [split, Option.bind_eq_bind, memory, Option.bind_some] at collected ⊢
  exact collected

/-- The prepared program: as many messages as the file has lines, and in the place of
message `i` a cell holding line `i` encoded. -/
theorem prepare_spec (buf : Buf) (file : List Byte) :
    ∃ cells tail, prepare buf file =
        some ⟨layout (cells.map encodeCell) tail, starts 0 cells⟩ ∧
      cells.map Cell.text = lines file := by
  obtain ⟨cells, tail, splitted, texts, clean⟩ := split_cells buf file
  have encoded := encode_layout cells [] tail clean
  exact ⟨cells, tail, prepare_split buf file _ _ _ splitted encoded, texts⟩

/-- Encoding leaves the texts where they are. -/
theorem starts_encoded (base : Nat) (cells : List Cell) :
    starts base (cells.map encodeCell) = starts base cells := by
  induction cells generalizing base with
  | nil => rfl
  | cons cell cells inductionHypothesis =>
    rw [List.map_cons, starts, starts, inductionHypothesis]
    simp [encodeCell]

/-- What is left of the string of a line when it has been encoded in place. -/
theorem string_encoded (line rest : List Byte) :
    ∃ more, encoded 0 line ++ 0 :: rest = sent line ++ 0 :: more := by
  obtain ⟨more, shape⟩ := string_prefix (encoded 0 line) rest
  have masked := encoded_takeWhile 0 line
  simp only [Nat.zero_add] at masked
  refine ⟨more, ?_⟩
  rw [shape, masked]
  rfl

/-- What is sent for a line has no NUL in it, since it is read as a string. -/
theorem sent_clean (line : List Byte) : ∀ byte ∈ sent line, byte ≠ 0 := untilNul_clean _

/-- Every turn of the send loop sends what the encoding left of the chosen line. -/
theorem broadcast_sends (buf : Buf) (file line : List Byte) (rand : Nat)
    (chosen : (lines file)[rand % (lines file).length]? = some line) :
    broadcast buf file rand = some (sent line) := by
  obtain ⟨cells, tail, prepared, texts⟩ := prepare_spec buf file
  have count : cells.length = (lines file).length := by rw [← texts, List.length_map]
  have inside : rand % (lines file).length < (lines file).length :=
    (List.getElem?_eq_some_iff.mp chosen).1
  obtain ⟨cell, isCell, rfl⟩ : ∃ cell, cells[rand % (lines file).length]? = some cell ∧
      cell.text = line := by
    rw [← texts, List.getElem?_map, Option.map_eq_some_iff, texts] at chosen
    exact chosen
  obtain ⟨start, started⟩ : ∃ start,
      (starts 0 cells)[rand % (lines file).length]? = some start :=
    ⟨_, List.getElem?_eq_getElem (by rwa [starts_length, count])⟩
  have encodedCell : (cells.map encodeCell)[rand % (lines file).length]? =
      some (encodeCell cell) := by
    rw [List.getElem?_map, isCell]
    rfl
  obtain ⟨rest, dropped⟩ := drop_start [] (cells.map encodeCell) tail _ (encodeCell cell) start
    encodedCell (by rw [starts_encoded]; exact started)
  obtain ⟨more, string⟩ := string_encoded cell.text rest
  have datagram : (layout (cells.map encodeCell) tail).drop start = sent cell.text ++ 0 :: more :=
    dropped.trans string
  have measured := strlen_text _ _ more start datagram (sent_clean cell.text)
  rw [broadcast, prepared]
  simp only [Option.bind_eq_bind, Option.bind_some, Prepared.datagram, starts_length, count]
  rw [if_neg (by omega), started]
  simp only [Option.bind_some, measured, datagram]
  rw [List.take_left]
  rfl

/-- A line arrives whole exactly when none of its bytes equals the password byte at its position.

Encoding is a positional cipher, which loses nothing in itself (`mask`), but it is done in place
on strings. A byte that equals its password byte becomes NUL, and from there on nothing is sent
(`sent`). That the buffer holds the lines as strings before and after, each in its own place, is
what `prepare_spec` says. -/
theorem broadcast_lossless_iff (buf : Buf) (file text : List Byte) (rand : Nat)
    (chosen : (lines file)[rand % (lines file).length]? = some text) :
    ∃ datagram, broadcast buf file rand = some datagram ∧
      ((datagram.length = text.length ∧
          (datagram.mapIdx fun j byte => byte ^^^ keyByte j) = text) ↔
        ∀ (j : Nat) (byte : Byte), text[j]? = some byte → byte ≠ keyByte j) := by
  refine ⟨sent text, broadcast_sends buf file text rand chosen, ?_⟩
  constructor
  · rintro ⟨whole, _⟩ j byte atLine same
    have prefixWhole : sent text = encode mask text :=
      (List.takeWhile_prefix _).eq_of_length (by rw [encode_length]; exact whole)
    have masked : (encode mask text)[j]? = some (byte ^^^ keyByte j) := by
      rw [encode_getElem?, atLine]
      rfl
    rw [← prefixWhole] at masked
    have real := List.mem_takeWhile_imp (List.mem_of_getElem? masked)
    rw [same, BitVec.xor_self] at real
    exact absurd real (by decide)
  · intro distinct
    have whole : sent text = encode mask text := by
      apply List.takeWhile_eq_self_iff.mpr
      intro masked member
      obtain ⟨j, atMasked⟩ := List.mem_iff_getElem?.mp member
      rw [encode_getElem?, Option.map_eq_some_iff] at atMasked
      obtain ⟨byte, atLine, rfl⟩ := atMasked
      have real : byte ^^^ keyByte j ≠ 0 := fun nul =>
        distinct j byte atLine (BitVec.xor_eq_zero_iff.mp nul)
      simpa [mask] using real
    rw [whole]
    exact ⟨encode_length mask text, decode_encode mask text⟩

/-- The line `Hallo` comes through. -/
theorem broadcast_lossless_hallo :
    ∃ datagram, broadcast ⟨List.replicate 10000 0, List.length_replicate⟩
        [0x48, 0x61, 0x6c, 0x6c, 0x6f] 0 = some datagram ∧
      ((datagram.length = 5 ∧
          (datagram.mapIdx fun j byte => byte ^^^ keyByte j) = [0x48, 0x61, 0x6c, 0x6c, 0x6f]) ↔
        ∀ (j : Nat) (byte : Byte), [0x48, 0x61, 0x6c, 0x6c, 0x6f][j]? = some byte →
          byte ≠ keyByte j) :=
  broadcast_lossless_iff _ _ [0x48, 0x61, 0x6c, 0x6c, 0x6f] 0 (by decide)

/-- The line `M` equals the first password byte and is sent as an empty datagram. -/
theorem line_M_lost :
    lines [0x4d] = [[0x4d]] ∧
      ∃ datagram, broadcast ⟨List.replicate 10000 0, List.length_replicate⟩ [0x4d] 0 =
        some datagram ∧ datagram.length ≠ [(0x4d : Byte)].length := by
  refine ⟨by decide, sent [0x4d], broadcast_sends _ _ [0x4d] 0 (by decide), by decide⟩

end Schnitzeljagd.Prison
