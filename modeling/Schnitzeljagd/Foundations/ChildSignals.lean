import Mathlib.Data.List.Basic

/-!
# Children and the signal of their exits

A parent process forks children. A child that has exited stays behind until the parent
collects it with a `wait` call. Its exit also makes a signal pending, but the exit of
another child adds nothing to a signal that is pending already. When the signal is
delivered the parent runs a handler, which makes one `wait` call or several and
returns; meanwhile no signal is delivered.

A handler that makes a single call collects one child for each delivery. The children
left behind are then those whose exit found a signal pending. A handler that calls until
there are no children left returns only when all of them have exited. One that calls as long
as it collects children always returns, and leaves none behind.
-/

namespace Foundations.ChildSignals

universe u
variable {π : Type u} [DecidableEq π]

/-- What a `wait` call for any child returns: the child it has collected, that no child
has exited, or that there are no children. -/
inductive Waited (π : Type u) where
  | child (pid : π)
  | running
  | childless
  deriving DecidableEq

/-- A handler of the signal. -/
structure Handler (π : Type u) where
  /-- Its `wait` call blocks as long as no child has exited. -/
  blocks : Bool
  /-- It makes another call after this result. -/
  again : Waited π → Bool

/-- The parent is outside its handler, before a `wait` call of the handler, or behind the
last one. -/
inductive Phase where
  | outside
  | waiting
  | returning
  deriving DecidableEq

/-- The children of a process, whether a signal is pending, and where its handler is. -/
structure Parent (π : Type u) where
  running : List π
  /-- The children that have exited and have not been collected. -/
  exited : List π
  pending : Bool
  phase : Phase

/-- What can happen: a new child, an exit, the delivery of the signal, a call of the handler and
its end. -/
inductive Event (π : Type u) where
  | fork (child : π)
  | exit (child : π)
  | deliver
  | wait (result : Waited π)
  | leave

/-- The parent after a `wait` call with a result that is possible. -/
def Parent.collect (parent : Parent π) : Waited π → Option (Parent π)
  | .child pid =>
    if pid ∈ parent.exited then some { parent with exited := parent.exited.erase pid } else none
  | .running => if parent.exited = [] ∧ parent.running ≠ [] then some parent else none
  | .childless => if parent.exited = [] ∧ parent.running = [] then some parent else none

/-- One event, if it is possible. An exit sets the signal pending, and a delivery clears it and
calls the handler. -/
def step (handler : Handler π) (parent : Parent π) : Event π → Option (Parent π)
  | .fork child =>
    if parent.phase = .outside ∧ child ∉ parent.running ++ parent.exited then
      some { parent with running := parent.running ++ [child] }
    else none
  | .exit child =>
    if child ∈ parent.running then
      some { parent with
        running := parent.running.erase child
        exited := parent.exited ++ [child]
        pending := true }
    else none
  | .deliver =>
    if parent.phase = .outside ∧ parent.pending = true then
      some { parent with pending := false, phase := .waiting }
    else none
  | .wait result =>
    if parent.phase = .waiting ∧ ¬(handler.blocks = true ∧ result = .running) then
      (parent.collect result).map fun collected =>
        { collected with phase := if handler.again result then .waiting else .returning }
    else none
  | .leave =>
    if parent.phase = .returning then some { parent with phase := .outside } else none

variable {handler : Handler π} {parent next collected : Parent π}

/-! ## One step -/

/-- What a `wait` call can be: it collects a child, finds all of them running, or finds none. -/
theorem collect_cases {result : Waited π} (done : parent.collect result = some collected) :
    (∃ pid ∈ parent.exited, result = .child pid ∧
      collected = { parent with exited := parent.exited.erase pid }) ∨
    (parent.exited = [] ∧ collected = parent ∧
      (result = .running ∧ parent.running ≠ [] ∨ result = .childless ∧ parent.running = [])) := by
  cases result with
  | child pid =>
    rw [Parent.collect] at done
    split at done
    · next inside => exact Or.inl ⟨pid, inside, rfl, (Option.some.inj done).symm⟩
    · simp at done
  | running =>
    rw [Parent.collect] at done
    split at done
    · next both => exact Or.inr ⟨both.1, (Option.some.inj done).symm, Or.inl ⟨rfl, both.2⟩⟩
    · simp at done
  | childless =>
    rw [Parent.collect] at done
    split at done
    · next both => exact Or.inr ⟨both.1, (Option.some.inj done).symm, Or.inr ⟨rfl, both.2⟩⟩
    · simp at done

/-- What a step can be, with what it needs and what it changes. All invariants are shown from
this. -/
theorem step_cases {event : Event π} (stepped : step handler parent event = some next) :
    (∃ child, event = .fork child ∧ parent.phase = .outside ∧
      next = { parent with running := parent.running ++ [child] }) ∨
    (∃ child, event = .exit child ∧ child ∈ parent.running ∧
      next = { parent with
        running := parent.running.erase child
        exited := parent.exited ++ [child]
        pending := true }) ∨
    (event = .deliver ∧ parent.phase = .outside ∧ parent.pending = true ∧
      next = { parent with pending := false, phase := .waiting }) ∨
    (∃ result collected, event = .wait result ∧ parent.phase = .waiting ∧
      parent.collect result = some collected ∧
      next = { collected with phase := if handler.again result then .waiting else .returning }) ∨
    (event = .leave ∧ parent.phase = .returning ∧ next = { parent with phase := .outside }) := by
  cases event with
  | fork child =>
    rw [step] at stepped
    split at stepped
    · next free => exact Or.inl ⟨child, rfl, free.1, (Option.some.inj stepped).symm⟩
    · simp at stepped
  | exit child =>
    rw [step] at stepped
    split at stepped
    · next alive => exact Or.inr (Or.inl ⟨child, rfl, alive, (Option.some.inj stepped).symm⟩)
    · simp at stepped
  | deliver =>
    rw [step] at stepped
    split at stepped
    · next free =>
      exact Or.inr (Or.inr (Or.inl ⟨rfl, free.1, free.2, (Option.some.inj stepped).symm⟩))
    · simp at stepped
  | wait result =>
    rw [step] at stepped
    split at stepped
    · next calls =>
      obtain ⟨collected, done, rfl⟩ := Option.map_eq_some_iff.mp stepped
      exact Or.inr (Or.inr (Or.inr (Or.inl ⟨result, collected, rfl, calls.1, done, rfl⟩)))
    · simp at stepped
  | leave =>
    rw [step] at stepped
    split at stepped
    · next returns =>
      exact Or.inr (Or.inr (Or.inr (Or.inr ⟨rfl, returns, (Option.some.inj stepped).symm⟩)))
    · simp at stepped

/-- What a step does to the phase. -/
theorem step_phase {event : Event π} (stepped : step handler parent event = some next) :
    (event = .deliver ∧ parent.phase = .outside ∧ next.phase = .waiting) ∨
      (event = .leave ∧ next.phase = .outside) ∨
      (event ≠ .deliver ∧ event ≠ .leave ∧ (next.phase = .outside ↔ parent.phase = .outside)) := by
  rcases step_cases stepped with
    ⟨child, rfl, _, rfl⟩ | ⟨child, rfl, _, rfl⟩ | ⟨rfl, outside, _, rfl⟩ |
      ⟨result, collected, rfl, waiting, _, rfl⟩ | ⟨rfl, _, rfl⟩
  · exact Or.inr (Or.inr ⟨by simp, by simp, Iff.rfl⟩)
  · exact Or.inr (Or.inr ⟨by simp, by simp, Iff.rfl⟩)
  · exact Or.inl ⟨rfl, outside, rfl⟩
  · refine Or.inr (Or.inr ⟨by simp, by simp, ?_⟩)
    cases again : handler.again result with
    | true => simp [waiting]
    | false => simp [waiting]
  · exact Or.inr (Or.inl ⟨rfl, rfl⟩)

/-! ## Handlers that call once -/

/-- Besides the children whose signal is pending or being handled, this many have been left
behind. A pending signal stands for one child, however many have exited. -/
def LeftBehind (lost : Nat) (parent : Parent π) : Prop :=
  parent.exited.length =
    lost + (if parent.pending then 1 else 0) + (if parent.phase = .waiting then 1 else 0)

/-- The exit of a child while the signal of another one is pending, so that one signal stands for
both. -/
def Coalesces (parent : Parent π) (event : Event π) : Prop :=
  parent.pending = true ∧ ∃ child, event = .exit child

omit [DecidableEq π] in
/-- Only exits coalesce, since nothing else makes a signal pending. -/
theorem not_coalesces {event : Event π} (other : ∀ child, event ≠ .exit child) :
    ¬Coalesces parent event := by
  rintro ⟨_, child, same⟩
  exact other child same

omit [DecidableEq π] in
/-- When nothing is pending and no handler runs, the exited children are those left
behind. -/
theorem leftBehind_rest {lost : Nat} (balance : LeftBehind lost parent)
    (quiet : parent.pending = false) (outside : parent.phase = .outside) :
    parent.exited.length = lost := by
  rw [LeftBehind, quiet, outside] at balance
  simpa using balance

/-- With a handler that collects one child, each step leaves behind exactly those whose signals
have coalesced. -/
theorem step_leftBehind {lost : Nat} {event : Event π} (once : ∀ result, handler.again result = false)
    (balance : LeftBehind lost parent) (stepped : step handler parent event = some next) :
    (Coalesces parent event ∧ LeftBehind (lost + 1) next) ∨
      (¬Coalesces parent event ∧ LeftBehind lost next) := by
  rcases step_cases stepped with
    ⟨child, rfl, outside, rfl⟩ | ⟨child, rfl, _, rfl⟩ | ⟨rfl, outside, pending, rfl⟩ |
      ⟨result, collected, rfl, waiting, done, rfl⟩ | ⟨rfl, returning, rfl⟩
  · exact Or.inr ⟨not_coalesces (by simp), balance⟩
  · cases pending : parent.pending with
    | true =>
      refine Or.inl ⟨⟨pending, child, rfl⟩, ?_⟩
      rw [LeftBehind, pending] at balance
      simp only [LeftBehind, List.length_append, List.length_singleton, balance, if_true]
      omega
    | false =>
      refine Or.inr ⟨?_, ?_⟩
      · rintro ⟨found, _⟩
        simp [pending] at found
      · rw [LeftBehind, pending] at balance
        simp only [LeftBehind, List.length_append, List.length_singleton, balance, if_true]
        simp only [Bool.false_eq_true, if_false]
        omega
  · refine Or.inr ⟨not_coalesces (by simp), ?_⟩
    rw [LeftBehind, pending, outside] at balance
    simpa [LeftBehind] using balance
  · refine Or.inr ⟨not_coalesces (by simp), ?_⟩
    rw [LeftBehind, waiting] at balance
    obtain ⟨pid, inside, _, rfl⟩ | ⟨nobody, _⟩ := collect_cases done
    · have fewer := List.length_erase_of_mem inside
      simp only [LeftBehind, once, fewer, balance, Bool.false_eq_true, if_false, if_true]
      simp
    -- A handler that is about to call has a child to collect.
    · rw [nobody] at balance
      simp at balance
  · refine Or.inr ⟨not_coalesces (by simp), ?_⟩
    rw [LeftBehind, returning] at balance
    simpa [LeftBehind] using balance

/-! ## Handlers that call until there are no children -/

/-- The parent after some `wait` calls of its handler with nothing else in between. -/
def calls (handler : Handler π) (parent : Parent π) (results : List (Waited π)) :
    Option (Parent π) :=
  results.foldlM (fun parent result => step handler parent (.wait result)) parent

/-- Without anything else happening, the handler makes a bounded number of calls, is not
stuck before one, and has collected all exited children when it returns. -/
structure Returns (handler : Handler π) (parent : Parent π) : Prop where
  bounded : ∃ bound, ∀ results next, calls handler parent results = some next →
    results.length ≤ bound
  proceeds : ∀ results next, calls handler parent results = some next → next.phase = .waiting →
    ∃ result later, step handler next (.wait result) = some later
  collects : ∀ results next, calls handler parent results = some next →
    next.phase = .returning → next.exited = []

/-- The handler calls, without blocking, until there are no children at all. It does not stop for
children that are still running. -/
structure Exhaustive (handler : Handler π) : Prop where
  polls : handler.blocks = false
  again : ∀ result, handler.again result = decide (result ≠ .childless)

section Exhausting

variable {result : Waited π} {results : List (Waited π)}

/-- The first call, and those after it, made where the first has led. -/
theorem calls_cons : calls handler parent (result :: results) = some next ↔
    ∃ later, step handler parent (.wait result) = some later ∧
      calls handler later results = some next := by
  simp [calls, Option.bind_eq_some_iff]

/-- Calls that each collect a child, or end the handler, come to an end. The number of exited
children bounds them. -/
theorem calls_shrink (holds : Parent π → Prop)
    (each : ∀ parent next result, holds parent →
      step handler parent (.wait result) = some next → holds next ∧
        ((next.phase = .waiting ∧ next.exited.length + 1 = parent.exited.length) ∨
          (next.phase = .returning ∧ next.exited = [])))
    (here : holds parent) (called : calls handler parent results = some next) :
    results.length ≤ parent.exited.length + 1 ∧
      (next.phase = .returning → parent.phase = .waiting → next.exited = []) := by
  induction results generalizing parent with
  | nil =>
    obtain rfl := Option.some.inj called
    exact ⟨Nat.zero_le _, fun returning waiting => by simp [returning] at waiting⟩
  | cons result results inductionHypothesis =>
    obtain ⟨later, first, rest⟩ := calls_cons.mp called
    obtain ⟨there, ⟨waiting, fewer⟩ | ⟨returning, nobody⟩⟩ := each parent later result here first
    · obtain ⟨bounded, collects⟩ := inductionHypothesis there rest
      refine ⟨by simp only [List.length_cons]; omega, ?_⟩
      intro returning _
      exact collects returning waiting
    · cases results with
      | nil =>
        obtain rfl := Option.some.inj rest
        exact ⟨by simp, fun _ _ => nobody⟩
      | cons other results =>
        obtain ⟨_, second, _⟩ := calls_cons.mp rest
        simp [step, returning] at second

/-- What a call of such a handler can do: collect a child and go on, go on because children run,
or come to its end with none left. -/
theorem call_cases (exhaustive : Exhaustive handler)
    (called : step handler parent (.wait result) = some next) :
    next.running = parent.running ∧
      ((next.phase = .waiting ∧ next.exited.length + 1 = parent.exited.length) ∨
        (next.phase = .waiting ∧ parent.running ≠ []) ∨
        (next.phase = .returning ∧ next.exited = [])) := by
  rcases step_cases called with
    ⟨_, other, _⟩ | ⟨_, other, _⟩ | ⟨other, _⟩ | ⟨_, collected, same, _, done, rfl⟩ | ⟨other, _⟩
  · cases other
  · cases other
  · cases other
  · obtain rfl := Event.wait.inj same
    rcases collect_cases done with
      ⟨pid, inside, rfl, rfl⟩ | ⟨nobody, rfl, ⟨rfl, alive⟩ | ⟨rfl, _⟩⟩
    · refine ⟨rfl, Or.inl ⟨by simp [exhaustive.again], ?_⟩⟩
      have fewer := List.length_erase_of_mem inside
      have some := List.length_pos_of_mem inside
      simp only [fewer]
      omega
    · exact ⟨rfl, Or.inr (Or.inl ⟨by simp [exhaustive.again], alive⟩)⟩
    · exact ⟨rfl, Or.inr (Or.inr ⟨by simp [exhaustive.again], nobody⟩)⟩
  · cases other

/-- A call always has a result, since it does not block, and with a running child it is not the
last one. -/
theorem call_result (exhaustive : Exhaustive handler) (waiting : parent.phase = .waiting) :
    ∃ result later, step handler parent (.wait result) = some later ∧
      (parent.running ≠ [] → later.phase = .waiting) := by
  cases exited : parent.exited with
  | cons pid others =>
    let later : Parent π := ⟨parent.running, parent.exited.erase pid, parent.pending, .waiting⟩
    refine ⟨.child pid, later, ?_, fun _ => rfl⟩
    simp [step, waiting, Parent.collect, exited, exhaustive.again, later]
  | nil =>
    by_cases alone : parent.running = []
    · refine ⟨.childless, { parent with phase := .returning }, ?_, fun some => absurd alone some⟩
      simp [step, waiting, Parent.collect, exited, alone, exhaustive.again]
    · refine ⟨.running, { parent with phase := .waiting }, ?_, fun _ => rfl⟩
      simp [step, waiting, Parent.collect, exited, alone, exhaustive.again, exhaustive.polls]

/-- Without running children each call but the last collects a child. -/
theorem calls_childless (exhaustive : Exhaustive handler) (alone : parent.running = [])
    (called : calls handler parent results = some next) :
    results.length ≤ parent.exited.length + 1 ∧
      (next.phase = .returning → parent.phase = .waiting → next.exited = []) := by
  refine calls_shrink (fun parent => parent.running = []) ?_ alone called
  intro parent next result alone called
  obtain ⟨same, ⟨waiting, fewer⟩ | ⟨_, alive⟩ | ⟨returning, nobody⟩⟩ := call_cases exhaustive called
  · exact ⟨same.trans alone, Or.inl ⟨waiting, fewer⟩⟩
  · exact absurd alone alive
  · exact ⟨same.trans alone, Or.inr ⟨returning, nobody⟩⟩

/-- With a running child the handler can go on calling, any number of times. -/
theorem calls_forever (exhaustive : Exhaustive handler) (waiting : parent.phase = .waiting)
    (alive : parent.running ≠ []) (count : Nat) :
    ∃ results next, calls handler parent results = some next ∧ results.length = count := by
  induction count generalizing parent with
  | zero => exact ⟨[], parent, rfl, rfl⟩
  | succ count inductionHypothesis =>
    obtain ⟨result, later, first, stays⟩ := call_result exhaustive waiting
    have same := (call_cases exhaustive first).1
    obtain ⟨results, next, rest, length⟩ := inductionHypothesis (stays alive) (same ▸ alive)
    exact ⟨result :: results, next, calls_cons.mpr ⟨later, first, rest⟩, by simp [length]⟩

/-- Such a handler returns exactly when no child is running: otherwise it can go on asking for any
number of times (`calls_forever`), and without running children each call takes one from those
that have exited. -/
theorem returns_iff (exhaustive : Exhaustive handler) (waiting : parent.phase = .waiting) :
    Returns handler parent ↔ parent.running = [] := by
  constructor
  · intro returns
    by_contra alive
    obtain ⟨bound, bounded⟩ := returns.bounded
    obtain ⟨results, next, called, length⟩ := calls_forever exhaustive waiting alive (bound + 1)
    have within := bounded results next called
    omega
  · intro alone
    exact
      { bounded := ⟨_, fun results next called => (calls_childless exhaustive alone called).1⟩
        proceeds := by
          intro results next _ waitingNow
          obtain ⟨result, later, called, _⟩ := call_result exhaustive waitingNow
          exact ⟨result, later, called⟩
        collects := by
          intro results next called returning
          exact (calls_childless exhaustive alone called).2 returning waiting }

end Exhausting

/-! ## Handlers that call until no child has exited -/

/-- The handler calls, without blocking, as long as it collects children, and stops for anything
else. -/
structure Thorough (handler : Handler π) : Prop where
  polls : handler.blocks = false
  again : ∀ result, handler.again result = true ↔ ∃ pid, result = .child pid

/-- If a child has exited and has not been collected, the parent will still call `wait`: a signal
is pending, or the handler is at it. -/
def Attended (parent : Parent π) : Prop :=
  parent.exited = [] ∨ parent.pending = true ∨ parent.phase = .waiting

/-- A step leaves no child behind. An exit makes the signal pending, and a thorough handler does
not leave before it has found nobody. -/
theorem step_attended (thorough : Thorough handler) {event : Event π} (attended : Attended parent)
    (stepped : step handler parent event = some next) : Attended next := by
  rcases step_cases stepped with
    ⟨child, rfl, _, rfl⟩ | ⟨child, rfl, _, rfl⟩ | ⟨rfl, _, _, rfl⟩ |
      ⟨result, collected, rfl, _, done, rfl⟩ | ⟨rfl, returning, rfl⟩
  · exact attended
  · exact Or.inr (Or.inl rfl)
  · exact Or.inr (Or.inr rfl)
  · rcases collect_cases done with ⟨pid, _, rfl, rfl⟩ | ⟨nobody, rfl, _⟩
    · exact Or.inr (Or.inr (if_pos ((thorough.again _).mpr ⟨pid, rfl⟩)))
    · exact Or.inl nobody
  · rcases attended with nobody | pending | waiting
    · exact Or.inl nobody
    · exact Or.inr (Or.inl pending)
    · rw [returning] at waiting
      contradiction

/-- How a step changes the number of children that have not been collected: a fork adds one, a
successful `wait` takes one away. -/
theorem step_children {event : Event π} (stepped : step handler parent event = some next) :
    (∃ child, event = .fork child ∧
      next.running.length + next.exited.length =
        parent.running.length + parent.exited.length + 1) ∨
    (∃ pid, event = .wait (.child pid) ∧
      next.running.length + next.exited.length + 1 =
        parent.running.length + parent.exited.length) ∨
    ((∀ child, event ≠ .fork child) ∧ (∀ pid, event ≠ .wait (.child pid)) ∧
      next.running.length + next.exited.length =
        parent.running.length + parent.exited.length) := by
  rcases step_cases stepped with
    ⟨child, rfl, _, rfl⟩ | ⟨child, rfl, alive, rfl⟩ | ⟨rfl, _, _, rfl⟩ |
      ⟨result, collected, rfl, _, done, rfl⟩ | ⟨rfl, _, rfl⟩
  · refine Or.inl ⟨child, rfl, ?_⟩
    simp only [List.length_append, List.length_singleton]
    omega
  · refine Or.inr (Or.inr ⟨by simp, by simp, ?_⟩)
    have fewer := List.length_erase_of_mem alive
    have some := List.length_pos_of_mem alive
    simp only [List.length_append, List.length_singleton, fewer]
    omega
  · exact Or.inr (Or.inr ⟨by simp, by simp, rfl⟩)
  · rcases collect_cases done with ⟨pid, inside, rfl, rfl⟩ | ⟨_, rfl, ⟨rfl, _⟩ | ⟨rfl, _⟩⟩
    · refine Or.inr (Or.inl ⟨pid, rfl, ?_⟩)
      have fewer := List.length_erase_of_mem inside
      have some := List.length_pos_of_mem inside
      simp only [fewer]
      omega
    · exact Or.inr (Or.inr ⟨by simp, by simp, rfl⟩)
    · exact Or.inr (Or.inr ⟨by simp, by simp, rfl⟩)
  · exact Or.inr (Or.inr ⟨by simp, by simp, rfl⟩)

section Collecting

variable {result : Waited π} {results : List (Waited π)}

/-- What a call of such a handler can do: collect a child and go on, or find none and come to its
end. -/
theorem collecting_cases (thorough : Thorough handler)
    (called : step handler parent (.wait result) = some next) :
    (next.phase = .waiting ∧ next.exited.length + 1 = parent.exited.length) ∨
      (next.phase = .returning ∧ next.exited = []) := by
  rcases step_cases called with
    ⟨_, other, _⟩ | ⟨_, other, _⟩ | ⟨other, _⟩ | ⟨_, collected, same, _, done, rfl⟩ | ⟨other, _⟩
  · cases other
  · cases other
  · cases other
  · obtain rfl := Event.wait.inj same
    rcases collect_cases done with ⟨pid, inside, rfl, rfl⟩ | ⟨nobody, rfl, last⟩
    · refine Or.inl ⟨if_pos ((thorough.again _).mpr ⟨pid, rfl⟩), ?_⟩
      have fewer := List.length_erase_of_mem inside
      have some := List.length_pos_of_mem inside
      simp only [fewer]
      omega
    · refine Or.inr ⟨if_neg fun again => ?_, nobody⟩
      obtain ⟨pid, rfl⟩ := (thorough.again _).mp again
      rcases last with ⟨other, _⟩ | ⟨other, _⟩
      · cases other
      · cases other
  · cases other

/-- A call always has a result, since it does not block. -/
theorem collecting_result (thorough : Thorough handler) (waiting : parent.phase = .waiting) :
    ∃ result later, step handler parent (.wait result) = some later := by
  cases exited : parent.exited with
  | cons pid others =>
    exact ⟨.child pid, _, by simp [step, waiting, Parent.collect, exited]; rfl⟩
  | nil =>
    by_cases alone : parent.running = []
    · exact ⟨.childless, _, by simp [step, waiting, Parent.collect, exited, alone]; rfl⟩
    · exact ⟨.running, _, by
        simp [step, waiting, Parent.collect, exited, alone, thorough.polls]; rfl⟩

/-- Each call but the last collects a child, so the handler ends, and at its end none is left. -/
theorem calls_collecting (thorough : Thorough handler)
    (called : calls handler parent results = some next) :
    results.length ≤ parent.exited.length + 1 ∧
      (next.phase = .returning → parent.phase = .waiting → next.exited = []) :=
  calls_shrink (fun _ => True)
    (fun _ _ _ _ called => ⟨trivial, collecting_cases thorough called⟩) trivial called

/-- Such a handler always returns, whether or not children are running. -/
theorem Thorough.returns (thorough : Thorough handler) (waiting : parent.phase = .waiting) :
    Returns handler parent where
  bounded := ⟨_, fun _ _ called => (calls_collecting thorough called).1⟩
  proceeds := fun _ _ _ waitingNow => collecting_result thorough waitingNow
  collects := fun _ _ called returning => (calls_collecting thorough called).2 returning waiting

end Collecting

end Foundations.ChildSignals
