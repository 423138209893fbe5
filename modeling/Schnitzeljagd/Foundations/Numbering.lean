import Mathlib.Data.List.Nodup

/-!
# Boards whose entries are numbered once

An entry that is put on a board gets the number behind the last one that was given, and
entries can be taken off. Then no number is given twice: what is on the board later is some
of what was there, in its order, followed by entries with higher numbers than any before.
-/

namespace Foundations.Numbering

universe u
variable {α : Type u}

/-- The last number that was given, and the entries that are there. A number that was given is not
taken back when its entry goes. -/
structure Board (α : Type u) where
  last : Int
  live : List α

/-- How an entry carries its number: it can be read from the entry, and set. -/
structure Numbered (α : Type u) where
  number : α → Int
  assign : Int → α → α
  number_assign : ∀ value entry, number (assign value entry) = value

variable (numbered : Numbered α)

/-- An entry gets the number behind the last one and is put at the end. -/
def Board.post (board : Board α) (entry : α) : Board α :=
  ⟨board.last + 1, board.live ++ [numbered.assign (board.last + 1) entry]⟩

/-- Entries are taken away, and the last number stays. -/
def Board.keep (board : Board α) (stays : α → Bool) : Board α :=
  { board with live := board.live.filter stays }

/-- The entries are in the order of their numbers, which have been given. Numbers begin at 1. -/
structure Board.Sound (board : Board α) : Prop where
  real : 0 ≤ board.last
  ordered : board.live.Pairwise fun entry next => numbered.number entry < numbered.number next
  given : ∀ entry ∈ board.live, 0 < numbered.number entry ∧ numbered.number entry ≤ board.last

variable {numbered} {board : Board α}

/-- The new number is above all others, so the order is kept. -/
theorem Board.Sound.post (sound : board.Sound numbered) (entry : α) :
    (board.post numbered entry).Sound numbered := by
  obtain ⟨real, ordered, given⟩ := sound
  refine ⟨?_, ?_, ?_⟩
  · show 0 ≤ board.last + 1
    omega
  · apply List.pairwise_append.mpr
    refine ⟨ordered, List.pairwise_singleton _ _, ?_⟩
    intro old member new single
    obtain rfl := List.mem_singleton.mp single
    have below := (given old member).2
    rw [numbered.number_assign]
    omega
  · intro other member
    show 0 < numbered.number other ∧ numbered.number other ≤ board.last + 1
    rcases List.mem_append.mp member with old | new
    · have below := given other old
      omega
    · obtain rfl := List.mem_singleton.mp new
      rw [numbered.number_assign]
      omega

/-- What is left of a sorted list is sorted. -/
theorem Board.Sound.keep (sound : board.Sound numbered) (stays : α → Bool) :
    (board.keep stays).Sound numbered :=
  ⟨sound.real, sound.ordered.filter stays, fun entry member =>
    sound.given entry (List.mem_of_mem_filter member)⟩

end Foundations.Numbering
