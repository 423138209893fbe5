import Mathlib.Data.List.Basic

/-!
# Events that have to be earned

A trace is the list of events of a run. Some events must not happen unless what came
before them satisfies a condition. A trace stays guarded when it is extended by an
event that is not of this kind or whose condition holds.
-/

namespace Foundations.Traces

universe u
variable {ε : Type u}

/-- Every critical event of the trace has been earned by the events before it. -/
def Guarded (critical : ε → Prop) (earned : List ε → Prop) (trace : List ε) : Prop :=
  ∀ before event after, trace = before ++ event :: after → critical event → earned before

variable {critical : ε → Prop} {earned : List ε → Prop} {trace : List ε}

/-- There is nothing to guard in an empty trace, so that every run begins guarded. -/
theorem guarded_nil : Guarded critical earned [] := by
  intro before event after shape
  simp at shape

/-- A guarded trace stays guarded when the next event is earned. This is the step of an induction
over runs. -/
theorem Guarded.concat (guarded : Guarded critical earned trace) (event : ε)
    (deserved : critical event → earned trace) : Guarded critical earned (trace ++ [event]) := by
  intro before other after shape isCritical
  obtain rfl | ⟨earlier, last, rfl⟩ := List.eq_nil_or_concat' after
  · obtain ⟨rfl, lasts⟩ := List.append_inj' shape rfl
    obtain rfl := List.singleton_inj.mp lasts
    exact deserved isCritical
  · rw [← List.cons_append, ← List.append_assoc] at shape
    obtain ⟨front, _⟩ := List.append_inj' shape rfl
    exact guarded before other earlier front isCritical

/-- The last event is guarded by itself, independently of the earlier ones. -/
theorem guarded_concat_iff (event : ε) : Guarded critical earned (trace ++ [event]) ↔
    Guarded critical earned trace ∧ (critical event → earned trace) := by
  constructor
  · intro guarded
    constructor
    · intro before other after shape
      exact guarded before other (after ++ [event]) (by simp [shape])
    · exact guarded trace event [] rfl
  · rintro ⟨guarded, deserved⟩
    exact guarded.concat event deserved

/-- Events that are not critical need not be earned, and may be appended as they come. -/
theorem Guarded.append (guarded : Guarded critical earned trace) (events : List ε)
    (harmless : ∀ event ∈ events, ¬critical event) :
    Guarded critical earned (trace ++ events) := by
  induction events generalizing trace with
  | nil => rwa [List.append_nil]
  | cons event events inductionHypothesis =>
    have first := guarded.concat event fun isCritical =>
      absurd isCritical (harmless event List.mem_cons_self)
    rw [← List.singleton_append, ← List.append_assoc]
    exact inductionHypothesis first fun other member =>
      harmless other (List.mem_cons_of_mem _ member)

section Runs

variable {σ : Type u} {run : List ε → Option σ} {holds : σ → Prop} {state : σ}

/-- Every critical event of the trace of a run happens in a state with the property. -/
def GuardedBy (run : List ε → Option σ) (critical : ε → Prop) (holds : σ → Prop)
    (trace : List ε) : Prop :=
  Guarded critical (fun before => ∀ state, run before = some state → holds state) trace

/-- One more event is guarded if it happens where the condition holds, or is not critical. -/
theorem guardedBy_concat_iff (ran : run trace = some state) (event : ε) :
    GuardedBy run critical holds (trace ++ [event]) ↔
      GuardedBy run critical holds trace ∧ (critical event → holds state) := by
  rw [GuardedBy, guarded_concat_iff]
  apply and_congr_right
  intro _
  constructor
  · intro earned isCritical
    exact earned isCritical state ran
  · intro held isCritical other ranOther
    obtain rfl := Option.some.inj (ran.symm.trans ranOther)
    exact held isCritical

end Runs

end Foundations.Traces
