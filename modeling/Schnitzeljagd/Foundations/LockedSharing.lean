import Mathlib.Logic.Function.Basic

/-!
# Processes that share data under a lock

Each process has data of its own beside the data that all of them share, for example a copy of
a part of it. A process works on the data between acquiring a lock and releasing it, and gives
up its copy when it releases the lock. Where one call after another answers as a component
without copies does, so do the calls of all processes together, in any order in which the lock
lets them in.
-/

namespace Foundations.LockedSharing

universe u
variable {π σ δ ν ο α : Type u}

/-- What one process does. -/
inductive Act (ο : Type u) where
  | acquire
  | call (op : ο)
  | release

/-- Calls on own and shared data, and what a process does with its own data at the release. -/
structure Component (σ δ ο α : Type u) where
  call : ο → σ → δ → Option (α × σ × δ)
  close : σ → σ

/-- The same calls on data of which there is one version only, and where they are in order. -/
structure Meaning (ν ο α : Type u) where
  call : ο → ν → α × ν
  close : ν → ν
  admits : ο → ν → Prop

/-- The own data of each process, and the shared data. -/
structure State (π σ δ : Type u) where
  own : π → σ
  shared : δ

/-! ## Schedules -/

/-- One process at a time gets the lock. -/
def Granted [DecidableEq π] : Option π → List (π × Act ο) → Prop
  | _, [] => True
  | holder, (party, act) :: schedule =>
    match act with
    | .acquire => holder = none ∧ Granted (some party) schedule
    | .call _ => Granted holder schedule
    | .release => Granted (if holder = some party then none else holder) schedule

/-- A process that has the lock or not calls only while it has the lock. -/
def Bracketed : Bool → List (Act ο) → Prop
  | _, [] => True
  | locked, act :: acts =>
    match act with
    | .acquire => locked = false ∧ Bracketed true acts
    | .call _ => locked = true ∧ Bracketed true acts
    | .release => locked = true ∧ Bracketed false acts

/-- What a process has done so far is in order if all that it does is. -/
theorem Bracketed.front {locked : Bool} {front acts : List (Act ο)} (prefixes : front <+: acts)
    (bracketed : Bracketed locked acts) : Bracketed locked front := by
  induction front generalizing locked acts with
  | nil => trivial
  | cons act front inductionHypothesis =>
    obtain ⟨rest, rfl⟩ := prefixes
    cases act with
    | acquire => exact ⟨bracketed.1, inductionHypothesis ⟨rest, rfl⟩ bracketed.2⟩
    | call op => exact ⟨bracketed.1, inductionHypothesis ⟨rest, rfl⟩ bracketed.2⟩
    | release => exact ⟨bracketed.1, inductionHypothesis ⟨rest, rfl⟩ bracketed.2⟩

/-- Calls between acquiring and whatever follows are in order. -/
theorem bracketed_calls (ops : List ο) {acts : List (Act ο)} (bracketed : Bracketed true acts) :
    Bracketed true (ops.map Act.call ++ acts) := by
  induction ops with
  | nil => exact bracketed
  | cons op ops inductionHypothesis => exact ⟨rfl, inductionHypothesis⟩

/-- What a process does in a schedule. -/
def actsOf [DecidableEq π] (party : π) (schedule : List (π × Act ο)) : List (Act ο) :=
  (schedule.filter fun entry => entry.1 = party).map Prod.snd

variable [DecidableEq π]

/-- An act of the process itself is one of its acts. -/
theorem actsOf_same (party : π) (act : Act ο) (schedule : List (π × Act ο)) :
    actsOf party ((party, act) :: schedule) = act :: actsOf party schedule := by
  simp [actsOf]

/-- Acts of others are not. -/
theorem actsOf_other {party other : π} (different : other ≠ party) (act : Act ο)
    (schedule : List (π × Act ο)) :
    actsOf party ((other, act) :: schedule) = actsOf party schedule := by
  simp [actsOf, different]

/-- Whoever acts in a schedule is the holder of the lock, or gets it. -/
def Excludes : Option π → List (π × Act ο) → Prop
  | _, [] => True
  | holder, (party, act) :: schedule =>
    match act with
    | .acquire => holder = none ∧ Excludes (some party) schedule
    | .call _ => holder = some party ∧ Excludes (some party) schedule
    | .release => holder = some party ∧ Excludes none schedule

/-- A lock keeps processes apart that call only while they have it.

By induction on the schedule, with the acts that are still to come for each process. The brackets
of a process are open exactly if it is the holder, and an act of one process leaves those of the
others as they are. -/
theorem excludes_of_bracketed (schedule : List (π × Act ο)) (holder : Option π)
    (granted : Granted holder schedule)
    (bracketed : ∀ party, Bracketed (holder = some party) (actsOf party schedule)) :
    Excludes holder schedule := by
  induction schedule generalizing holder with
  | nil => trivial
  | cons entry schedule inductionHypothesis =>
    obtain ⟨party, act⟩ := entry
    have here := bracketed party
    rw [actsOf_same] at here
    have others : ∀ other, other ≠ party →
        Bracketed (holder = some other) (actsOf other schedule) := by
      intro other different
      have acts := bracketed other
      rwa [actsOf_other (Ne.symm different)] at acts
    cases act with
    | acquire =>
      obtain ⟨free, granted'⟩ := granted
      refine ⟨free, inductionHypothesis _ granted' fun other => ?_⟩
      by_cases same : other = party
      · subst same
        simpa using here.2
      · have acts := others other same
        simpa [free, Ne.symm same] using acts
    | call op =>
      have holds : holder = some party := of_decide_eq_true here.1
      subst holds
      refine ⟨rfl, inductionHypothesis _ granted fun other => ?_⟩
      by_cases same : other = party
      · subst same
        simpa using here.2
      · exact others other same
    | release =>
      have holds : holder = some party := of_decide_eq_true here.1
      subst holds
      refine ⟨rfl, inductionHypothesis none (by simpa [Granted] using granted) fun other => ?_⟩
      by_cases same : other = party
      · subst same
        simpa using here.2
      · have acts := others other same
        simpa [Ne.symm same] using acts

/-! ## Runs -/

/-- What one process does to the state, and the answer to a call. -/
def Component.step (component : Component σ δ ο α) (state : State π σ δ) (party : π) :
    Act ο → Option (List (π × α) × State π σ δ)
  | .acquire => some ([], state)
  | .call op => do
    let (answer, own, shared) ← component.call op (state.own party) state.shared
    some ([(party, answer)], ⟨Function.update state.own party own, shared⟩)
  | .release =>
    some ([], ⟨Function.update state.own party (component.close (state.own party)), state.shared⟩)

/-- The answers of a schedule, each to the process that called, and the state behind it. -/
def Component.run (component : Component σ δ ο α) :
    List (π × Act ο) → State π σ δ → Option (List (π × α) × State π σ δ)
  | [], state => some ([], state)
  | (party, act) :: schedule, state => do
    let (answers, state) ← component.step state party act
    let (later, state) ← component.run schedule state
    some (answers ++ later, state)

/-- The answers of a schedule and the data behind it where there are no copies. -/
def Meaning.run (meaning : Meaning ν ο α) : List (π × Act ο) → ν → List (π × α) × ν
  | [], value => ([], value)
  | (party, act) :: schedule, value =>
    match act with
    | .acquire => meaning.run schedule value
    | .call op =>
      let (answer, value) := meaning.call op value
      let (later, value) := meaning.run schedule value
      ((party, answer) :: later, value)
    | .release => meaning.run schedule (meaning.close value)

/-- Every call of a schedule is in order where it is made. -/
def Meaning.Admits (meaning : Meaning ν ο α) : List (π × Act ο) → ν → Prop
  | [], _ => True
  | (_, act) :: schedule, value =>
    match act with
    | .acquire => meaning.Admits schedule value
    | .call op => meaning.admits op value ∧ meaning.Admits schedule (meaning.call op value).2
    | .release => meaning.Admits schedule (meaning.close value)

/-- The calls of one process after another answer as the meaning says: `Closed` is what the own
data is without the lock, `Shows` what the shared data stands for, and `Coherent` relates both
while the process has the lock. -/
structure Simulates (component : Component σ δ ο α) (meaning : Meaning ν ο α)
    (Closed : σ → Prop) (Shows : δ → ν → Prop) (Coherent : σ → δ → ν → Prop) : Prop where
  opened : ∀ own shared value, Closed own → Shows shared value → Coherent own shared value
  called : ∀ op own shared value, meaning.admits op value → Coherent own shared value →
    ∃ own' shared', component.call op own shared =
        some ((meaning.call op value).1, own', shared') ∧
      Coherent own' shared' (meaning.call op value).2
  closed : ∀ own shared value, Coherent own shared value →
    Closed (component.close own) ∧ Shows shared (meaning.close value)

/-- What holds between two acts: whoever does not have the lock has given up its copies. -/
def Holds (Closed : σ → Prop) (Shows : δ → ν → Prop) (Coherent : σ → δ → ν → Prop) :
    Option π → State π σ δ → ν → Prop
  | none, state, value => (∀ party, Closed (state.own party)) ∧ Shows state.shared value
  | some holder, state, value =>
    (∀ party, party ≠ holder → Closed (state.own party)) ∧
      Coherent (state.own holder) state.shared value

/-- Who has the lock behind a schedule. -/
def lastHolder : Option π → List (π × Act ο) → Option π
  | holder, [] => holder
  | holder, (party, act) :: schedule =>
    match act with
    | .acquire => lastHolder (some party) schedule
    | .call _ => lastHolder holder schedule
    | .release => lastHolder none schedule

variable {component : Component σ δ ο α} {meaning : Meaning ν ο α} {Closed : σ → Prop}
  {Shows : δ → ν → Prop} {Coherent : σ → δ → ν → Prop}

/-- The own data of the others stay as they were. -/
theorem others_closed {state : State π σ δ} {holder : π}
    (closed : ∀ party, party ≠ holder → Closed (state.own party)) (own : σ) (party : π)
    (different : party ≠ holder) : Closed (Function.update state.own holder own party) := by
  rw [Function.update_of_ne different]
  exact closed party different

/-- Under the lock all processes together are answered as by the component without copies.

By induction on the schedule. Whoever acquires the lock finds all copies closed and begins with
its own; a call keeps it coherent and does not touch those of the others; the release closes it
again. -/
theorem Simulates.run (simulates : Simulates component meaning Closed Shows Coherent)
    (schedule : List (π × Act ο)) (holder : Option π) (state : State π σ δ) (value : ν)
    (excludes : Excludes holder schedule) (admits : meaning.Admits schedule value)
    (holds : Holds Closed Shows Coherent holder state value) :
    ∃ state', component.run schedule state = some ((meaning.run schedule value).1, state') ∧
      Holds Closed Shows Coherent (lastHolder holder schedule) state'
        (meaning.run schedule value).2 := by
  induction schedule generalizing holder state value with
  | nil => exact ⟨state, rfl, holds⟩
  | cons entry schedule inductionHypothesis =>
    obtain ⟨party, act⟩ := entry
    cases act with
    | acquire =>
      obtain ⟨rfl, excludes'⟩ := excludes
      obtain ⟨closed, shows'⟩ := holds
      have opened := simulates.opened _ _ _ (closed party) shows'
      obtain ⟨state', ran, holds'⟩ := inductionHypothesis (some party) state value excludes' admits
        ⟨fun other _ => closed other, opened⟩
      refine ⟨state', ?_, holds'⟩
      simp only [Component.run, Component.step, Option.bind_eq_bind, Option.bind_some, ran,
        List.nil_append, Meaning.run]
    | call op =>
      obtain ⟨rfl, excludes'⟩ := excludes
      obtain ⟨closed, coherent⟩ := holds
      obtain ⟨admitted, admits'⟩ := admits
      obtain ⟨own, shared, answered, coherent'⟩ := simulates.called op _ _ value admitted coherent
      have coherent'' : Coherent (Function.update state.own party own party) shared
          (meaning.call op value).2 := by rwa [Function.update_self]
      obtain ⟨state', ran, holds'⟩ := inductionHypothesis (some party)
        ⟨Function.update state.own party own, shared⟩ (meaning.call op value).2 excludes' admits'
        ⟨others_closed closed own, coherent''⟩
      refine ⟨state', ?_, holds'⟩
      simp only [Component.run, Component.step, answered, Option.bind_eq_bind, Option.bind_some,
        ran]
      rfl
    | release =>
      obtain ⟨rfl, excludes'⟩ := excludes
      obtain ⟨closed, coherent⟩ := holds
      obtain ⟨closed', shows'⟩ := simulates.closed _ _ _ coherent
      have allClosed : ∀ other,
          Closed (Function.update state.own party (component.close (state.own party)) other) := by
        intro other
        by_cases same : other = party
        · subst same
          rwa [Function.update_self]
        · exact others_closed closed _ other same
      obtain ⟨state', ran, holds'⟩ := inductionHypothesis none
        ⟨Function.update state.own party (component.close (state.own party)), state.shared⟩
        (meaning.close value) excludes' admits ⟨allClosed, shows'⟩
      refine ⟨state', ?_, holds'⟩
      simp only [Component.run, Component.step, Option.bind_eq_bind, Option.bind_some, ran,
        List.nil_append, Meaning.run]

/-! ## Two components under one lock -/

/-- Calls of either component, each on its own part of the data. -/
def Component.both {σ' δ' ο' α' : Type u} (first : Component σ δ ο α)
    (second : Component σ' δ' ο' α') : Component (σ × σ') (δ × δ') (ο ⊕ ο') (α ⊕ α') where
  call
    | .inl op, own, shared => do
      let (answer, own', shared') ← first.call op own.1 shared.1
      some (.inl answer, (own', own.2), (shared', shared.2))
    | .inr op, own, shared => do
      let (answer, own', shared') ← second.call op own.2 shared.2
      some (.inr answer, (own.1, own'), (shared.1, shared'))
  close own := (first.close own.1, second.close own.2)

/-- The two meanings side by side, as one. -/
def Meaning.both {ν' ο' α' : Type u} (first : Meaning ν ο α) (second : Meaning ν' ο' α') :
    Meaning (ν × ν') (ο ⊕ ο') (α ⊕ α') where
  call
    | .inl op, value => (.inl (first.call op value.1).1, (first.call op value.1).2, value.2)
    | .inr op, value => (.inr (second.call op value.2).1, value.1, (second.call op value.2).2)
  close value := (first.close value.1, second.close value.2)
  admits
    | .inl op, value => first.admits op value.1
    | .inr op, value => second.admits op value.2

/-- Two components that answer as their meanings say do so together. -/
theorem Simulates.both {σ' δ' ν' ο' α' : Type u} {second : Component σ' δ' ο' α'}
    {meaning' : Meaning ν' ο' α'} {Closed' : σ' → Prop} {Shows' : δ' → ν' → Prop}
    {Coherent' : σ' → δ' → ν' → Prop}
    (simulates : Simulates component meaning Closed Shows Coherent)
    (simulates' : Simulates second meaning' Closed' Shows' Coherent') :
    Simulates (component.both second) (meaning.both meaning')
      (fun own => Closed own.1 ∧ Closed' own.2)
      (fun shared value => Shows shared.1 value.1 ∧ Shows' shared.2 value.2)
      (fun own shared value =>
        Coherent own.1 shared.1 value.1 ∧ Coherent' own.2 shared.2 value.2) where
  opened own shared value closed shows' :=
    ⟨simulates.opened _ _ _ closed.1 shows'.1, simulates'.opened _ _ _ closed.2 shows'.2⟩
  called op own shared value admitted coherent := by
    cases op with
    | inl op =>
      obtain ⟨own', shared', answered, coherent'⟩ :=
        simulates.called op _ _ _ admitted coherent.1
      refine ⟨(own', own.2), (shared', shared.2), ?_, coherent', coherent.2⟩
      simp only [Component.both, answered, Option.bind_eq_bind, Option.bind_some]
      rfl
    | inr op =>
      obtain ⟨own', shared', answered, coherent'⟩ :=
        simulates'.called op _ _ _ admitted coherent.2
      refine ⟨(own.1, own'), (shared.1, shared'), ?_, coherent.1, coherent'⟩
      simp only [Component.both, answered, Option.bind_eq_bind, Option.bind_some]
      rfl
  closed own shared value coherent :=
    ⟨⟨(simulates.closed _ _ _ coherent.1).1, (simulates'.closed _ _ _ coherent.2).1⟩,
      (simulates.closed _ _ _ coherent.1).2, (simulates'.closed _ _ _ coherent.2).2⟩

end Foundations.LockedSharing
