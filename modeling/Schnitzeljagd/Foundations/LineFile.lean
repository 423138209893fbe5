import Schnitzeljagd.Foundations.PerlText

/-!
# Files of lines

Reading a text file line by line and writing a list of lines. A line without inner
newlines survives being written and read again, and so does any list of such lines.
-/

namespace Foundations.LineFile

open Foundations.PerlText

/-- `<FILE>`: the next line, its newline included, and what is left. Nothing is read
at the end of the file, and the last line need not have a newline. -/
def readLine : Text → Option (Text × Text)
  | [] => none
  | byte :: rest =>
    if byte = newline then some ([byte], rest)
    else match readLine rest with
      | none => some ([byte], [])
      | some (line, left) => some (byte :: line, left)

/-- The lines that `while (<FILE>) { chomp; ... }` goes through, without their newlines. An empty
line is one of them. -/
def chompedLines : Text → List Text
  | [] => []
  | byte :: rest =>
    if byte = newline then [] :: chompedLines rest else extendFirst byte (chompedLines rest)

/-- The lines that `while (<FILE>)` goes through, their newlines included. -/
def lines : Text → List Text
  | [] => []
  | byte :: rest =>
    if byte = newline then [newline] :: lines rest else extendFirst byte (lines rest)

/-- The lines as they are written, each with a newline. -/
def written (lines : List Text) : Text := (lines.map fun line => line ++ [newline]).flatten

/-- The lines make up the file, with nothing left over and nothing added. -/
theorem lines_flatten (text : Text) : (lines text).flatten = text := by
  induction text with
  | nil => rfl
  | cons byte rest inductionHypothesis =>
    rw [lines]
    by_cases same : byte = newline
    · rw [if_pos same, List.flatten_cons, inductionHypothesis, same, List.singleton_append]
    · rw [if_neg same]
      cases others : lines rest with
      | nil =>
        rw [others] at inductionHypothesis
        rw [extendFirst, ← inductionHypothesis]
        rfl
      | cons first others' =>
        rw [others, List.flatten_cons] at inductionHypothesis
        rw [extendFirst, List.flatten_cons, List.cons_append, inductionHypothesis]

/-- Only at the end of the file there is no line, so that the loop goes through all of it. -/
theorem readLine_none (text : Text) : readLine text = none ↔ text = [] := by
  constructor
  · intro none
    match text with
    | [] => rfl
    | byte :: rest =>
      rw [readLine] at none
      split at none
      · simp at none
      · split at none <;> simp at none
  · rintro rfl
    rfl

/-- The first line stands in front of the others with a newline behind it. -/
theorem written_cons (line : Text) (lines : List Text) :
    written (line :: lines) = line ++ newline :: written lines := by
  simp [written]

/-- A line at the front of a file is the first one read, up to its newline. -/
theorem chompedLines_line (line rest : Text) (oneLine : newline ∉ line) :
    chompedLines (line ++ newline :: rest) = line :: chompedLines rest := by
  induction line with
  | nil => simp [chompedLines]
  | cons byte line inductionHypothesis =>
    have notNewline : ¬byte = newline := fun same => oneLine (same ▸ List.mem_cons_self)
    have restOneLine : newline ∉ line := fun member => oneLine (List.mem_cons_of_mem _ member)
    rw [List.cons_append, chompedLines, if_neg notNewline, inductionHypothesis restOneLine,
      extendFirst]

/-- No line that is read has a newline in it. -/
theorem chompedLines_oneLine (text : Text) : ∀ line ∈ chompedLines text, newline ∉ line := by
  induction text with
  | nil => exact List.forall_mem_nil _
  | cons byte rest inductionHypothesis =>
    intro line member
    rw [chompedLines] at member
    by_cases same : byte = newline
    · rw [if_pos same] at member
      obtain rfl | later := List.mem_cons.mp member
      · exact List.not_mem_nil
      · exact inductionHypothesis line later
    · rw [if_neg same] at member
      cases lines : chompedLines rest with
      | nil =>
        rw [lines, extendFirst, List.mem_singleton] at member
        subst member
        simpa using Ne.symm same
      | cons first others =>
        rw [lines] at member inductionHypothesis
        obtain rfl | later := List.mem_cons.mp member
        · simpa using ⟨Ne.symm same, inductionHypothesis first List.mem_cons_self⟩
        · exact inductionHypothesis line (List.mem_cons_of_mem _ later)

/-- Lines without inner newlines are read as they were written. -/
theorem chompedLines_written (lines : List Text) (oneLine : ∀ line ∈ lines, newline ∉ line) :
    chompedLines (written lines) = lines := by
  induction lines with
  | nil => rfl
  | cons line lines inductionHypothesis =>
    rw [written_cons, chompedLines_line _ _ (oneLine line List.mem_cons_self), inductionHypothesis]
    exact fun other member => oneLine other (List.mem_cons_of_mem _ member)

/-- Lines are written after others as they would be alone. -/
theorem written_append (before after : List Text) :
    written (before ++ after) = written before ++ written after := by
  simp [written]

/-- What is left of written lines behind some position is again written lines, each of
them the end of one that was written. -/
theorem drop_written (lines : List Text) (count : Nat) :
    ∃ rest, (written lines).drop count = written rest ∧
      ∀ line ∈ rest, ∃ whole ∈ lines, line <:+ whole := by
  induction lines generalizing count with
  | nil => exact ⟨[], List.drop_nil, List.forall_mem_nil _⟩
  | cons first lines inductionHypothesis =>
    rw [written_cons]
    by_cases within : count ≤ first.length
    · refine ⟨first.drop count :: lines, ?_, ?_⟩
      · rw [List.drop_append_of_le_length within, written_cons]
      · intro line member
        obtain rfl | later := List.mem_cons.mp member
        · exact ⟨first, List.mem_cons_self, List.drop_suffix count first⟩
        · exact ⟨line, List.mem_cons_of_mem _ later, List.suffix_refl line⟩
    · obtain ⟨further, rfl⟩ : ∃ further, count = first.length + (further + 1) :=
        ⟨count - first.length - 1, by omega⟩
      obtain ⟨rest, left, ends⟩ := inductionHypothesis further
      refine ⟨rest, ?_, ?_⟩
      · rw [List.drop_length_add_append, List.drop_succ_cons, left]
      · intro line member
        obtain ⟨whole, inside, suffix⟩ := ends line member
        exact ⟨whole, List.mem_cons_of_mem _ inside, suffix⟩

end Foundations.LineFile
