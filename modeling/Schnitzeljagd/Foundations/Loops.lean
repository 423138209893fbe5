import Mathlib.Data.Finset.Card
import Mathlib.Data.List.GetD
import Mathlib.Data.List.Induction

/-!
# Counted loops that may fail

A counted loop is `List.foldlM` over its counter values in `Option`. When every
turn of the loop is known to succeed, the loop has an ordinary result. The rules
here turn facts about one turn into the result of the whole loop.

What holds of the list of the turns taken and of the state that they lead to is kept by
the loop if the next turn keeps it.

A loop that may be left from within is `List.foldlM` in `Except`. What every turn
that does not leave it keeps is kept until the loop is left.

Loops also acquire resources. There is an account of those that somebody is responsible for,
and a resource that is acquired without being entered is a leak. Nothing takes it out of the
set of held resources again, so the set agrees with the account exactly if there was no leak.
-/

namespace Foundations.Loops

universe u v
variable {σ : Type u} {ι : Type v}

/-- If every turn computes the value of a total function, so does the loop. -/
theorem foldlM_total (step : σ → ι → Option σ) (total : σ → ι → σ) (indices : List ι)
    (initial : σ)
    (computes : ∀ state, ∀ index ∈ indices, step state index = some (total state index)) :
    indices.foldlM step initial = some (indices.foldl total initial) := by
  induction indices generalizing initial with
  | nil => rfl
  | cons index indices inductionHypothesis =>
    rw [List.foldlM_cons, computes initial index (by simp), Option.bind_eq_bind,
      Option.bind_some, List.foldl_cons]
    exact inductionHypothesis _ fun state other member =>
      computes state other (List.mem_cons_of_mem index member)

/-- If turn `i` leads from the `i`-th state of a trajectory to the next one, then
`n` turns lead from its start to its `n`-th state. -/
theorem foldlM_trajectory (step : σ → Nat → Option σ) (trajectory : Nat → σ) (turns : Nat)
    (follows : ∀ index < turns, step (trajectory index) index = some (trajectory (index + 1))) :
    (List.range turns).foldlM step (trajectory 0) = some (trajectory turns) := by
  induction turns with
  | zero => rfl
  | succ turns inductionHypothesis =>
    have before := inductionHypothesis fun index below => follows index (by omega)
    rw [List.range_succ, List.foldlM_append, before]
    simp [follows turns (by omega)]

/-- What every successful turn keeps, a successful loop keeps. -/
theorem foldlM_invariant (step : σ → ι → Option σ) (invariant : σ → Prop)
    (indices : List ι)
    (keeps : ∀ state, ∀ index ∈ indices, ∀ next, invariant state → step state index = some next →
      invariant next)
    (state final : σ) (holds : invariant state)
    (run : indices.foldlM step state = some final) : invariant final := by
  induction indices generalizing state with
  | nil =>
    obtain rfl : state = final := Option.some.inj run
    exact holds
  | cons index indices inductionHypothesis =>
    obtain ⟨next, turn, rest⟩ := Option.bind_eq_some_iff.mp run
    have later := inductionHypothesis fun other another member =>
      keeps other another (List.mem_cons_of_mem _ member)
    exact later next (keeps state index List.mem_cons_self next holds turn) rest

/-! ## The turns taken -/

/-- The last turn of a loop. -/
theorem foldlM_concat {step : σ → ι → Option σ} {initial final : σ} {indices : List ι} {index : ι} :
    (indices ++ [index]).foldlM step initial = some final ↔
      ∃ state, indices.foldlM step initial = some state ∧ step state index = some final := by
  simp only [List.foldlM_append, List.foldlM_cons, List.foldlM_nil, Option.bind_eq_bind,
    Option.bind_eq_some_iff, Option.pure_def, Option.some.injEq, exists_eq_right]

/-- What every turn keeps of the turns before it and the state it finds, holds of all
turns and the final state. -/
theorem foldlM_history (step : σ → ι → Option σ) (initial : σ) (holds : List ι → σ → Prop)
    (start : holds [] initial)
    (keeps : ∀ earlier state index next, earlier.foldlM step initial = some state →
      holds earlier state → step state index = some next → holds (earlier ++ [index]) next)
    (indices : List ι) (final : σ) (run : indices.foldlM step initial = some final) :
    holds indices final := by
  induction indices using List.reverseRecOn generalizing final with
  | nil =>
    obtain rfl : initial = final := Option.some.inj run
    exact start
  | append_singleton indices index inductionHypothesis =>
    obtain ⟨state, earlier, turn⟩ := foldlM_concat.mp run
    exact keeps indices state index final earlier (inductionHypothesis state earlier) turn

/-! ## Loops that may be left -/

section Leaving

universe w
variable {ε : Type w}

/-- A sequence of two steps succeeds exactly if the first does and the second succeeds with its
result. -/
theorem bind_ok {α β : Type u} (first : Except ε α) (next : α → Except ε β) (result : β) :
    (first >>= next) = .ok result ↔ ∃ value, first = .ok value ∧ next value = .ok result := by
  cases first with
  | error left => simp [bind, Except.bind]
  | ok value => simp [bind, Except.bind]

/-- What every step of a loop keeps, a loop that succeeds keeps. Induction over the list. -/
theorem foldlM_keeps (step : σ → ι → Except ε σ) (invariant : σ → Prop)
    (keeps : ∀ state index next, invariant state → step state index = .ok next → invariant next)
    (indices : List ι) (state final : σ) (holds : invariant state)
    (run : indices.foldlM step state = .ok final) : invariant final := by
  induction indices generalizing state with
  | nil =>
    obtain rfl : state = final := Except.ok.inj run
    exact holds
  | cons index indices inductionHypothesis =>
    rw [List.foldlM_cons, bind_ok] at run
    obtain ⟨next, turn, rest⟩ := run
    exact inductionHypothesis next (keeps state index next holds turn) rest

end Leaving

/-! ## Resources that a loop holds -/

section Resources

variable {α : Type u} {held accounted : Finset α} {leaks : Nat}

/-- Everything in the account is held, and so many resources beyond it. -/
structure Account (held accounted : Finset α) (leaks : Nat) : Prop where
  included : accounted ⊆ held
  counted : held.card = accounted.card + leaks

/-- A program that starts with an account of all it holds has no leaks. -/
theorem Account.refl (held : Finset α) : Account held held 0 :=
  ⟨Finset.Subset.refl held, rfl⟩

/-- The set is what the account says exactly if there are no leaks. -/
theorem Account.balanced_iff (account : Account held accounted leaks) :
    held = accounted ↔ leaks = 0 := by
  obtain ⟨included, counted⟩ := account
  constructor
  · rintro rfl
    omega
  · intro none
    exact (Finset.eq_of_subset_of_card_le included (by omega)).symm

variable [DecidableEq α] {resource : α}

/-- Entering what is acquired leaves the number of leaks as it is. The resource must be a
new one: what is already held would be counted twice. -/
theorem Account.acquire (account : Account held accounted leaks) (fresh : resource ∉ held) :
    Account (insert resource held) (insert resource accounted) leaks := by
  obtain ⟨included, counted⟩ := account
  have unknown : resource ∉ accounted := fun member => fresh (included member)
  constructor
  · exact Finset.insert_subset_insert resource included
  · calc (insert resource held).card = held.card + 1 := Finset.card_insert_of_notMem fresh
      _ = accounted.card + 1 + leaks := by omega
      _ = (insert resource accounted).card + leaks := by
          rw [Finset.card_insert_of_notMem unknown]

/-- A resource that is acquired and not entered makes the set larger and leaves the account
behind by one more. -/
theorem Account.leak (account : Account held accounted leaks) (fresh : resource ∉ held) :
    Account (insert resource held) accounted (leaks + 1) := by
  obtain ⟨included, counted⟩ := account
  constructor
  · exact included.trans (Finset.subset_insert resource held)
  · calc (insert resource held).card = held.card + 1 := Finset.card_insert_of_notMem fresh
      _ = accounted.card + (leaks + 1) := by omega

end Resources

end Foundations.Loops
