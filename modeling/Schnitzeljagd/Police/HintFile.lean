import Schnitzeljagd.Foundations.LineFile

/-!
# The hints in polsys.txt

The operations of `saveentry` and `readentries` on the contents of `polsys.txt`,
without the terminal around them. On a file of lines, saving a hint appends it and
keeps the last twenty lines.
-/

namespace Schnitzeljagd.Police

open Foundations.PerlText Foundations.LineFile

/-- The array `@hinweise` with a new hint in it. The first hint makes room when there
are twenty or more. -/
def insertHint (hinweise : List Text) (hint : Text) : List Text :=
  (if 20 ≤ hinweise.length then hinweise.drop 1 else hinweise) ++ [hint]

/-- The file after a hint has been saved without disturbance: the lines are read, the hint is
inserted and all of them are written back. -/
def saved (file hint : Text) : Text := written (insertHint (chompedLines file) hint)

/-- The last twenty hints, or all of them if there are fewer. -/
def lastTwenty (hints : List Text) : List Text := hints.rtake 20

/-- Up to twenty hints are all kept. -/
theorem lastTwenty_short (hints : List Text) (short : hints.length ≤ 20) :
    lastTwenty hints = hints := by
  rw [lastTwenty, List.rtake, Nat.sub_eq_zero_of_le short, List.drop_zero]

/-- The last twenty stand at the end of all hints, in their order. -/
theorem lastTwenty_suffix (hints : List Text) : lastTwenty hints <:+ hints :=
  List.drop_suffix _ _

/-- There are twenty of them, unless there have been fewer hints. -/
theorem lastTwenty_length (hints : List Text) :
    (lastTwenty hints).length = min 20 hints.length := by
  rw [lastTwenty, List.rtake, List.length_drop]
  omega

/-- Inserting into the last twenty gives the last twenty with the new hint. -/
theorem insertHint_lastTwenty (hints : List Text) (hint : Text) :
    insertHint (lastTwenty hints) hint = lastTwenty (hints ++ [hint]) := by
  have length := lastTwenty_length hints
  rw [insertHint, length]
  by_cases full : 20 ≤ hints.length
  · rw [if_pos (by omega), lastTwenty, lastTwenty, List.rtake, List.rtake, List.drop_drop,
      List.length_append, List.length_singleton, List.drop_append_of_le_length (by omega)]
    congr 2
    omega
  · rw [if_neg (by omega), lastTwenty_short _ (by omega), lastTwenty_short _ (by simp; omega)]

/-- After inserting, a line was there before or is the new hint. Nothing else gets into the file.
-/
theorem insertHint_mem {hints : List Text} {hint line : Text}
    (member : line ∈ insertHint hints hint) : line ∈ hints ∨ line = hint := by
  rw [insertHint, List.mem_append, List.mem_singleton] at member
  rcases member with earlier | new
  · split at earlier
    · exact Or.inl (List.mem_of_mem_drop earlier)
    · exact Or.inl earlier
  · exact Or.inr new

/-- Saving a hint into a file of the last twenty of some lines gives the file of the last twenty
of these lines and the hint. -/
theorem saved_lastTwenty (hints : List Text) (hint : Text)
    (oneLine : ∀ line ∈ hints, newline ∉ line) :
    saved (written (lastTwenty hints)) hint = written (lastTwenty (hints ++ [hint])) := by
  rw [saved, chompedLines_written, insertHint_lastTwenty]
  exact fun line member => oneLine line ((lastTwenty_suffix hints).subset member)

/-! ## Saving an empty hint -/

/-- A list that moves up by one place and gets a last element is the same only if all
its elements are that one. -/
theorem shifted_same (hints : List Text) (hint : Text) (nonempty : hints ≠ [])
    (same : hints.drop 1 ++ [hint] = hints) : hints = List.replicate hints.length hint := by
  induction hints with
  | nil => exact absurd rfl nonempty
  | cons first rest inductionHypothesis =>
    cases rest with
    | nil => simpa using same.symm
    | cons second rest =>
      obtain ⟨rfl, tail⟩ := List.cons.inj same
      have later := inductionHypothesis (by simp) tail
      have head : second = hint := (List.cons.inj later).1
      rw [List.length_cons, List.replicate_succ, ← later, head]

/-- An empty hint changes the file unless it consists of twenty or more empty lines. -/
theorem saved_empty_iff (file : Text) :
    saved file [] = file ↔ ∃ count, 20 ≤ count ∧ file = written (List.replicate count []) := by
  constructor
  · intro same
    have lines : insertHint (chompedLines file) [] = chompedLines file := by
      have reread := congrArg chompedLines same
      rwa [saved, chompedLines_written] at reread
      intro line member
      obtain earlier | rfl := insertHint_mem member
      · exact chompedLines_oneLine file line earlier
      · exact List.not_mem_nil
    by_cases full : 20 ≤ (chompedLines file).length
    · have whole : written (chompedLines file) = file := by
        rwa [saved, lines] at same
      rw [insertHint, if_pos full] at lines
      refine ⟨_, full, ?_⟩
      rw [← shifted_same _ [] (by intro empty; simp [empty] at full) lines, whole]
    · rw [insertHint, if_neg full] at lines
      exact absurd lines (by simp)
  · rintro ⟨count, full, rfl⟩
    have oneLine : ∀ line ∈ List.replicate count ([] : Text), newline ∉ line := by
      intro line member
      rw [(List.mem_replicate.mp member).2]
      exact List.not_mem_nil
    obtain ⟨fewer, rfl⟩ : ∃ fewer, count = fewer + 1 := ⟨count - 1, by omega⟩
    rw [saved, chompedLines_written _ oneLine, insertHint, if_pos (by simpa using full),
      List.replicate_succ, List.drop_one, List.tail_cons, ← List.replicate_succ',
      ← List.replicate_succ]

end Schnitzeljagd.Police
