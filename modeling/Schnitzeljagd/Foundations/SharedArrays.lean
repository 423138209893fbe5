import Mathlib.Data.List.Induction
import Mathlib.Logic.Function.Iterate

/-!
# Arrays passed by reference

A function that is given a reference to an array works on the array itself. When some of
several arrays are passed to it, in any order and any number of times, each array goes
through as many of its changes as it was passed.

A constructor that takes lines away from the array that it is given is of this kind. It
finds fewer lines whenever it has taken some before.
-/

namespace Foundations.SharedArrays

universe u v

/-- Pass the arrays with these indices, one after the other, to a function. -/
def passed {α : Type u} (change : α → α) (arrays : List α) (references : List Nat) : List α :=
  references.foldl (fun arrays reference => arrays.modify reference change) arrays

/-- An array has been changed as often as it was passed. -/
theorem passed_getElem? {α : Type u} (change : α → α) (arrays : List α) (references : List Nat)
    (index : Nat) :
    (passed change arrays references)[index]? =
      arrays[index]?.map change^[references.count index] := by
  induction references using List.reverseRecOn with
  | nil => simp [passed]
  | append_singleton references reference inductionHypothesis =>
    rw [passed, List.foldl_append, List.foldl_cons, List.foldl_nil, ← passed, List.getElem?_modify,
      inductionHypothesis, List.count_append, List.count_singleton]
    by_cases same : reference = index
    · subst same
      rw [beq_self_eq_true, if_pos rfl, Function.iterate_succ', ← Option.map_map]
      simp
    · simp [same]

/-- A further reference is repeated if it is among the earlier ones. -/
theorem repeated_concat_iff (property : Nat → Prop) (references : List Nat) (reference : Nat) :
    (∀ index, 1 < (references ++ [reference]).count index → property index) ↔
      (∀ index, 1 < references.count index → property index) ∧
        (reference ∈ references → property reference) := by
  simp only [List.count_append, List.count_singleton, beq_iff_eq]
  constructor
  · intro all
    constructor
    · intro index repeated
      exact all index (Nat.lt_add_right _ repeated)
    · intro member
      have positive : 0 < references.count reference := List.count_pos_iff.mpr member
      exact all reference (by rw [if_pos rfl]; omega)
  · rintro ⟨earlier, last⟩ index repeated
    by_cases same : reference = index
    · rw [if_pos same] at repeated
      exact same ▸ last (List.count_pos_iff.mp (by rw [same]; omega))
    · rw [if_neg same] at repeated
      exact earlier index repeated

/-- What a constructor makes of an array of lines: fields from lines that it takes off the
front, and the lines that it leaves in the array. -/
structure Extraction (Line : Type u) (Field : Type v) where
  header : List Line → List Field
  rest : List Line → List Line
  /-- Every field is made of at least one line, and the lines used up are no longer there. -/
  removes : ∀ lines, ∃ taken, lines = taken ++ rest lines ∧ (header lines).length ≤ taken.length

variable {Line : Type u} {Field : Type v} {extraction : Extraction Line Field} {lines : List Line}

/-- Nothing is extracted from lines that all stay. -/
theorem Extraction.header_of_rest (stays : extraction.rest lines = lines) :
    extraction.header lines = [] := by
  obtain ⟨taken, parts, enough⟩ := extraction.removes lines
  rw [stays] at parts
  have none : taken = [] := List.self_eq_append_left.mp parts
  rw [none] at enough
  exact List.eq_nil_of_length_eq_zero (Nat.le_zero.mp enough)

/-- Taking the header out makes an array no longer. -/
theorem Extraction.rest_length (lines : List Line) :
    (extraction.rest lines).length ≤ lines.length := by
  obtain ⟨taken, parts, _⟩ := extraction.removes lines
  have lengths := congrArg List.length parts
  rw [List.length_append] at lengths
  omega

/-- Neither does doing it again and again. -/
theorem Extraction.iterate_rest_length (lines : List Line) (times : Nat) :
    (extraction.rest^[times] lines).length ≤ lines.length := by
  induction times with
  | zero => exact Nat.le_refl lines.length
  | succ times inductionHypothesis =>
    rw [Function.iterate_succ_apply']
    exact Nat.le_trans (extraction.rest_length _) inductionHypothesis

/-- Lines that are there again after some times were never taken away. -/
theorem Extraction.rest_of_iterate {times : Nat}
    (again : extraction.rest^[times + 1] lines = lines) : extraction.rest lines = lines := by
  have kept : lines.length ≤ (extraction.rest lines).length := by
    calc lines.length = (extraction.rest^[times] (extraction.rest lines)).length := by
          rw [← Function.iterate_succ_apply, again]
      _ ≤ (extraction.rest lines).length := extraction.iterate_rest_length _ times
  obtain ⟨taken, parts, _⟩ := extraction.removes lines
  have lengths := congrArg List.length parts
  rw [List.length_append] at lengths
  have none : taken = [] := List.eq_nil_of_length_eq_zero (by omega)
  rw [none, List.nil_append] at parts
  exact parts.symm

/-- Lines without a header, of which nothing is taken but once. -/
def Extraction.Lasting (extraction : Extraction Line Field) (lines : List Line) : Prop :=
  extraction.header lines = [] ∧ extraction.rest (extraction.rest lines) = extraction.rest lines

/-- An array that has been passed before gives the same message exactly if its lines last. -/
theorem Extraction.again_iff (times : Nat) :
    (extraction.header (extraction.rest^[times + 1] lines) = extraction.header lines ∧
        extraction.rest (extraction.rest^[times + 1] lines) = extraction.rest lines) ↔
      extraction.Lasting lines := by
  rw [← Function.iterate_succ_apply' extraction.rest, Function.iterate_succ_apply,
    Function.iterate_succ_apply]
  constructor
  · rintro ⟨header, rest⟩
    have stays := extraction.rest_of_iterate rest
    rw [Function.iterate_fixed stays, extraction.header_of_rest stays] at header
    exact ⟨header.symm, stays⟩
  · rintro ⟨nothing, stays⟩
    rw [Function.iterate_fixed stays, Function.iterate_fixed stays, extraction.header_of_rest stays]
    exact ⟨nothing.symm, rfl⟩

end Foundations.SharedArrays
