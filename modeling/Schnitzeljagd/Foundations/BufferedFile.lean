import Mathlib.Data.List.Basic

/-!
# Files written through a buffer

A program that prints to a file fills a buffer, and the buffer is passed on to the file
in order. How much is passed on at a time is not the program's choice: a write may stop
early, and what is still in the buffer when the program ends is lost. Whatever has
reached the file is a beginning of what has been printed.
-/

namespace Foundations.BufferedFile

universe u
variable {α : Type u}

/-- A file that is written through a buffer. What is printed is in one of the two, and the file
may be looked at by others. -/
structure Handle (α : Type u) where
  /-- What has reached the file. -/
  file : List α
  /-- What has been printed and not yet passed on. -/
  buffer : List α

/-- Pass on the first `count` items of the buffer, if it has as many. The system decides how many
these are. -/
def Handle.pass (handle : Handle α) (count : Nat) : Option (Handle α) :=
  if count ≤ handle.buffer.length then
    some ⟨handle.file ++ handle.buffer.take count, handle.buffer.drop count⟩
  else none

/-- Print a text, and pass on some of the buffer that is filled with it. -/
def Handle.print (handle : Handle α) (text : List α) (count : Nat) : Option (Handle α) :=
  Handle.pass ⟨handle.file, handle.buffer ++ text⟩ count

variable {handle next : Handle α} {text whole : List α} {count : Nat}

/-- What passing on does, in terms of the file and the buffer: the front of the buffer goes to the
end of the file. -/
theorem pass_some (passed : handle.pass count = some next) :
    count ≤ handle.buffer.length ∧
      next = ⟨handle.file ++ handle.buffer.take count, handle.buffer.drop count⟩ := by
  rw [Handle.pass] at passed
  split at passed
  · next enough => exact ⟨enough, (Option.some.inj passed).symm⟩
  · simp at passed

/-- Passing on loses nothing: file and buffer together stay as they were. -/
theorem pass_whole (passed : handle.pass count = some next) :
    next.file ++ next.buffer = handle.file ++ handle.buffer := by
  obtain ⟨_, rfl⟩ := pass_some passed
  rw [List.append_assoc, List.take_append_drop]

/-- The file grows by what is passed on, and by nothing else. -/
theorem pass_length (passed : handle.pass count = some next) :
    next.file.length = handle.file.length + count := by
  obtain ⟨enough, rfl⟩ := pass_some passed
  rw [List.length_append, List.length_take_of_le enough]

/-- Printing adds the text to file and buffer together. -/
theorem print_whole (printed : handle.print text count = some next) :
    next.file ++ next.buffer = handle.file ++ handle.buffer ++ text := by
  rw [Handle.print] at printed
  rw [pass_whole printed, List.append_assoc]

/-- The file grows by what is passed on, however much is printed. -/
theorem print_length (printed : handle.print text count = some next) :
    next.file.length = handle.file.length + count := by
  rw [Handle.print] at printed
  rw [pass_length printed]

/-- Nothing needs to be passed on before the file is closed, so that the file may stay as it was
until then. -/
theorem print_none (handle : Handle α) (text : List α) :
    handle.print text 0 = some ⟨handle.file, handle.buffer ++ text⟩ := by
  rw [Handle.print, Handle.pass, if_pos (Nat.zero_le _), List.take_zero, List.append_nil,
    List.drop_zero]

/-- Closing passes on the whole buffer, and leaves it empty. -/
theorem pass_all (handle : Handle α) :
    handle.pass handle.buffer.length = some ⟨handle.file ++ handle.buffer, []⟩ := by
  rw [Handle.pass, if_pos (Nat.le_refl _), List.take_length, List.drop_length]

end Foundations.BufferedFile
