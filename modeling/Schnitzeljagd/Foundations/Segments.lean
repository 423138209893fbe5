import Mathlib.Data.List.Basic

/-!
# Pieces of a list at fixed places

A format that points into its own bytes is described by the pieces that lie at certain
places. What lies somewhere stays there when the list grows at its end, and moves by a known
distance when something is put in front.
-/

namespace Foundations.Segments

universe u
variable {α : Type u} {list piece piece' : List α} {place : Nat}

/-- The piece lies in the list at this place. Nothing is said of what lies before or behind it. -/
def At (list : List α) (place : Nat) (piece : List α) : Prop :=
  ∃ before after, list = before ++ (piece ++ after) ∧ before.length = place

/-- What is appended lies behind the list, at the place that is its length. -/
theorem at_end (list piece : List α) : At (list ++ piece) list.length piece :=
  ⟨list, [], by rw [List.append_nil], rfl⟩

/-- Appending more leaves a piece where it is, so that what has been written once stays to be
found. -/
theorem At.append (lies : At list place piece) (more : List α) : At (list ++ more) place piece := by
  obtain ⟨before, after, rfl, far⟩ := lies
  exact ⟨before, after ++ more, by simp only [List.append_assoc], far⟩

/-- Putting something in front moves it by its length. -/
theorem At.behind (lies : At list place piece) (front : List α) :
    At (front ++ list) (front.length + place) piece := by
  obtain ⟨before, after, rfl, rfl⟩ := lies
  exact ⟨front ++ before, after, by simp only [List.append_assoc], List.length_append⟩

/-- The first part of a piece lies where the piece does, whatever its second part is. -/
theorem At.left (lies : At list place (piece ++ piece')) : At list place piece := by
  obtain ⟨before, after, rfl, far⟩ := lies
  exact ⟨before, piece' ++ after, by simp only [List.append_assoc], far⟩

/-- The second part lies behind the first one, further on by its length. -/
theorem At.right (lies : At list place (piece ++ piece')) :
    At list (place + piece.length) piece' := by
  obtain ⟨before, after, rfl, rfl⟩ := lies
  exact ⟨before ++ piece, after, by simp only [List.append_assoc], List.length_append⟩

/-- A piece of a piece lies in the list as well, at the sum of the two places. -/
theorem At.inside {place' : Nat} (lies : At list place piece) (within : At piece place' piece') :
    At list (place + place') piece' := by
  obtain ⟨before, after, rfl, rfl⟩ := lies
  obtain ⟨before', after', rfl, rfl⟩ := within
  exact ⟨before ++ before', after' ++ after, by simp only [List.append_assoc],
    List.length_append⟩

/-- A piece ends inside the list. -/
theorem At.length_le (lies : At list place piece) : place + piece.length ≤ list.length := by
  obtain ⟨before, after, rfl, rfl⟩ := lies
  simp only [List.length_append]
  omega

/-- Cutting the list at the place and the length gives the piece. This is what a reader does who
knows both. -/
theorem At.take_drop (lies : At list place piece) :
    (list.drop place).take piece.length = piece := by
  obtain ⟨before, after, rfl, rfl⟩ := lies
  rw [List.drop_left, List.take_left]

/-- In a row of pieces of one size, each lies at a multiple of it, the first at zero. -/
theorem at_flatMap {β : Type u} (size : Nat) (bytes : β → List α) (all : List β)
    (sized : ∀ element ∈ all, (bytes element).length = size) (index : Nat) (element : β)
    (chosen : all[index]? = some element) :
    At (all.flatMap bytes) (size * index) (bytes element) := by
  obtain ⟨inside, rfl⟩ := List.getElem?_eq_some_iff.mp chosen
  refine ⟨(all.take index).flatMap bytes, (all.drop (index + 1)).flatMap bytes, ?_, ?_⟩
  · calc all.flatMap bytes
        = (all.take index ++ all[index] :: all.drop (index + 1)).flatMap bytes := by
          rw [List.getElem_cons_drop, List.take_append_drop]
      _ = _ := by simp only [List.flatMap_append, List.flatMap_cons]
  · have before : ∀ element ∈ all.take index, (bytes element).length = size :=
      fun element member => sized element (List.mem_of_mem_take member)
    rw [List.length_flatMap, List.map_congr_left before, List.map_const', List.sum_replicate_nat,
      List.length_take, Nat.min_eq_left (Nat.le_of_lt inside), Nat.mul_comm]

end Foundations.Segments
