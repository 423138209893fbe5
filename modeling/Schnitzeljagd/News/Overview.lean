import Schnitzeljagd.Foundations.Scanning
import Schnitzeljagd.News.Protocol

/-!
# Lines of an overview file

`over.c` keeps what a group's overview file says of an article, and writes and reads it as a
line of fields with tabs between them. A `size_t` has 32 bits, as `%d` takes them.
-/

namespace Schnitzeljagd.News

open Foundations.CArithmetic Foundations.PerlText Foundations.Scanning

/-- `struct Over`, without the time that nothing uses -/
structure Over where
  numb : Int
  subj : Text
  sender : Text
  date : Text
  msgId : Text
  ref : Text
  bytes : BitVec 32
  lines : BitVec 32
deriving DecidableEq

/-- `Ov_setNumb`, which gives the overview another number and leaves its fields alone -/
def Over.setNumb (ov : Over) (numb : Int) : Over := { ov with numb }

/-- The byte between the fields of an overview line, `'\t'`. -/
def tab : Byte := 0x09

/-- `Ov_write`: the number and the seven fields with tabs between them, and a newline -/
def ovWrite (ov : Over) : Text :=
  printInt ov.numb ++ tab :: (ov.subj ++ tab :: (ov.sender ++ tab :: (ov.date ++ tab ::
    (ov.msgId ++ tab :: (ov.ref ++ tab :: (printInt ov.bytes.toInt ++ tab ::
      (printInt ov.lines.toInt ++ [newline])))))))

/-- The loop of `readField` with what it has read so far, and where the next field begins. A
field that the string ends in is not terminated unless it is empty; behind a field of `MAXCHAR`
bytes one byte is left out. Neither then has a value if it would read what is not in the string. -/
def readField : Text → Text → Option (Text × Text)
  | read, [] => if read = [] then some ([], []) else none
  | read, byte :: rest =>
    if byte = tab ∨ byte = newline then some (read, rest)
    else if read.length + 1 ≥ maxChar - 1 then
      match rest with
      | [] => none
      | _ :: rest => some (read ++ [byte], rest)
    else readField (read ++ [byte]) rest

/-- `Ov_read`, where the inner option is a null pointer -/
def ovRead (line : Text) : Option (Option Over) := do
  let (t, p) ← readField [] line
  match scanInteger t with
  | none => some none
  | some (numb, _) =>
    let (subj, p) ← readField [] p
    let (sender, p) ← readField [] p
    let (date, p) ← readField [] p
    let (msgId, p) ← readField [] p
    let (ref, p) ← readField [] p
    let (t, p) ← readField [] p
    match scanDecimal t with
    | none => some none
    | some (bytes, _) =>
      let (t, _) ← readField [] p
      match scanDecimal t with
      | none => some none
      | some (lines, _) =>
        some (some ⟨numb, subj, sender, date, msgId, ref, .ofInt 32 bytes, .ofInt 32 lines⟩)

/-! ## Reading a line back -/

/-- A field that can stand between tabs: it has no tab, no newline and no NUL in it. -/
def Separate (field : Text) : Prop := tab ∉ field ∧ newline ∉ field ∧ 0 ∉ field

instance (field : Text) : Decidable (Separate field) :=
  inferInstanceAs (Decidable (tab ∉ field ∧ newline ∉ field ∧ 0 ∉ field))

/-- A field that can stand between tabs is read whole up to the tab or newline behind it, as long
as it is shorter than the buffer. Induction over the field, with what has been read so far. -/
theorem readField_field (read field rest : Text) (stop : Byte) (stops : stop = tab ∨ stop = newline)
    (separate : Separate field) (short : read.length + field.length < maxChar - 1) :
    readField read (field ++ stop :: rest) = some (read ++ field, rest) := by
  induction field generalizing read with
  | nil =>
    rw [List.nil_append, readField.eq_def]
    simp only [stops, if_true, List.append_nil]
  | cons byte field inductionHypothesis =>
    obtain ⟨noTab, oneLine, noNul⟩ := separate
    rw [List.mem_cons, not_or] at noTab oneLine noNul
    rw [List.length_cons] at short
    have inside : ¬ (byte = tab ∨ byte = newline) := by
      rintro (same | same)
      · exact noTab.1 same.symm
      · exact oneLine.1 same.symm
    rw [List.cons_append, readField.eq_def]
    simp only [inside, if_false, show ¬ read.length + 1 ≥ maxChar - 1 by omega]
    rw [inductionHypothesis _ ⟨noTab.2, oneLine.2, noNul.2⟩ (by simp; omega), List.append_assoc,
      List.singleton_append]

/-- A printed number can stand between tabs, since it is made of digits and perhaps a minus sign.
-/
theorem printInt_separate (number : Int) : Separate (printInt number) := by
  have bytes := printInt_bytes number
  refine ⟨fun member => ?_, fun member => ?_, fun member => ?_⟩
  · exact absurd (bytes _ member) (by decide)
  · exact absurd (bytes _ member) (by decide)
  · exact absurd (bytes _ member) (by decide)

/-- What an article must be like for its line to be read back as it was written. -/
structure Over.Storable (ov : Over) : Prop where
  subj : Separate ov.subj
  sender : Separate ov.sender
  date : Separate ov.date
  msgId : Separate ov.msgId
  ref : Separate ov.ref
  short : (ovWrite ov).length < maxChar

/-- An overview that can be stored is read from its line as it was written, field by field. What
`Ov_read` takes for the number is the printed one, as it is followed by a tab. -/
theorem ovRead_ovWrite (ov : Over) (storable : ov.Storable) :
    ovRead (ovWrite ov) = some (some ov) := by
  obtain ⟨subj, sender, date, msgId, ref, short⟩ := storable
  have read : ∀ field rest, Separate field → field.length < maxChar - 1 →
      readField [] (field ++ tab :: rest) = some (field, rest) := by
    intro field rest separate short
    exact readField_field [] field rest tab (Or.inl rfl) separate (by simpa using short)
  have last : ∀ field, Separate field → field.length < maxChar - 1 →
      readField [] (field ++ [newline]) = some (field, []) := by
    intro field separate short
    exact readField_field [] field [] newline (Or.inr rfl) separate (by simpa using short)
  simp only [ovWrite, List.length_append, List.length_cons, List.length_nil] at short
  rw [ovRead, ovWrite, read _ _ (printInt_separate _) (by omega)]
  simp only [Option.bind_eq_bind, Option.bind_some, scanInteger_printInt, read _ _ subj (by omega),
    read _ _ sender (by omega), read _ _ date (by omega), read _ _ msgId (by omega),
    read _ _ ref (by omega), read _ _ (printInt_separate ov.bytes.toInt) (by omega),
    scanDecimal_printInt, last _ (printInt_separate ov.lines.toInt) (by omega),
    BitVec.ofInt_toInt]

/-- What is written of an article is one line. It has no newline but the last, and no NUL that
would end the string. -/
theorem ovWrite_line (ov : Over) (storable : ov.Storable) :
    ∃ line, ovWrite ov = line ++ [newline] ∧ newline ∉ line ∧ 0 ∉ line := by
  obtain ⟨subj, sender, date, msgId, ref, -⟩ := storable
  have number := printInt_separate ov.numb
  have bytes := printInt_separate ov.bytes.toInt
  have lines := printInt_separate ov.lines.toInt
  have tabs : newline ≠ tab ∧ (0 : Byte) ≠ tab := by decide
  refine ⟨printInt ov.numb ++ tab :: (ov.subj ++ tab :: (ov.sender ++ tab :: (ov.date ++
    tab :: (ov.msgId ++ tab :: (ov.ref ++ tab :: (printInt ov.bytes.toInt ++ tab ::
      printInt ov.lines.toInt)))))), by simp [ovWrite], ?_, ?_⟩
  · simp only [List.mem_append, List.mem_cons, not_or]
    exact ⟨number.2.1, tabs.1, subj.2.1, tabs.1, sender.2.1, tabs.1, date.2.1, tabs.1, msgId.2.1,
      tabs.1, ref.2.1, tabs.1, bytes.2.1, tabs.1, lines.2.1⟩
  · simp only [List.mem_append, List.mem_cons, not_or]
    exact ⟨number.2.2, tabs.2, subj.2.2, tabs.2, sender.2.2, tabs.2, date.2.2, tabs.2, msgId.2.2,
      tabs.2, ref.2.2, tabs.2, bytes.2.2, tabs.2, lines.2.2⟩

end Schnitzeljagd.News
