import Schnitzeljagd.Foundations.Loops
import Mathlib.Logic.Function.Basic

/-!
# Updates in three steps

Several parties update one store without a lock. An update reads the store and
prepares new contents from what it has read, then empties the store, then commits the
contents. The steps of different parties may come in any order.

Three results are given for schedules of such steps. What preparing, emptying and
committing keep is kept by every schedule. If no party empties the store between
another's emptying and committing, it is enough that committing to the empty store
keeps it. If no party reads between another's reading and committing, the schedule has
the result of the updates one after another, in the order of their commits.
-/

namespace Foundations.ThreeStepUpdate

open Foundations.Loops

universe u v w

/-- What the parties do to a store: what each of them makes of what it has read, what the store is
after emptying, and what committing puts into it. -/
structure Protocol (ι : Type u) (σ : Type v) (β : Type w) where
  prepare : ι → σ → β
  empty : σ
  commit : β → σ → σ

/-- One of the three steps, and the party that takes it. -/
inductive Action (ι : Type u) where
  | read (party : ι)
  | clear (party : ι)
  | commit (party : ι)
  deriving DecidableEq

/-- How far a party has come, and what it is going to commit. -/
inductive Phase (β : Type w) where
  | idle
  | prepared (contents : β)
  | cleared (contents : β)
  | done

/-- The store and the phases of all parties. A party that has not begun is idle. -/
structure State (ι : Type u) (σ : Type v) (β : Type w) where
  store : σ
  phase : ι → Phase β

variable {ι : Type u} {σ : Type v} {β : Type w}

/-- A whole update by one party, not disturbed by others: it reads the store, empties it and
commits. -/
def Protocol.update (protocol : Protocol ι σ β) (party : ι) (store : σ) : σ :=
  protocol.commit (protocol.prepare party store) protocol.empty

variable [DecidableEq ι]

/-- The state after a party has reached a phase, with the store it leaves. -/
def State.advance (state : State ι σ β) (store : σ) (party : ι) (phase : Phase β) :
    State ι σ β :=
  { store := store, phase := Function.update state.phase party phase }

/-- The next step of a party, if it is at the point for it. -/
def step (protocol : Protocol ι σ β) (state : State ι σ β) : Action ι → Option (State ι σ β)
  | .read party =>
    match state.phase party with
    | .idle =>
      some (state.advance state.store party (.prepared (protocol.prepare party state.store)))
    | _ => none
  | .clear party =>
    match state.phase party with
    | .prepared contents => some (state.advance protocol.empty party (.cleared contents))
    | _ => none
  | .commit party =>
    match state.phase party with
    | .cleared contents =>
      some (state.advance (protocol.commit contents state.store) party .done)
    | _ => none

/-- The state after the steps of a schedule, if each of them was possible where it came. -/
def interleave (protocol : Protocol ι σ β) (store : σ) (schedule : List (Action ι)) :
    Option (State ι σ β) :=
  schedule.foldlM (step protocol) { store := store, phase := fun _ => .idle }

/-- The parties that commit, in the order in which they do. -/
def committed (schedule : List (Action ι)) : List ι :=
  schedule.filterMap fun action =>
    match action with
    | .commit party => some party
    | _ => none

/-- No party reads between another's reading and committing. Updates may still overlap with
anything that is not an update. -/
def UpdatesApart (schedule : List (Action ι)) : Prop :=
  ∀ before party after, schedule = before ++ .read party :: after →
    ∀ other, .read other ∈ before → .commit other ∈ before

/-- No party empties the store between another's emptying and committing. This is less than
keeping updates apart. -/
def WritersApart (schedule : List (Action ι)) : Prop :=
  ∀ before party after, schedule = before ++ .clear party :: after →
    ∀ other, .clear other ∈ before → .commit other ∈ before

/-- Every update of the schedule is finished: whoever has read has committed. -/
def Finished (schedule : List (Action ι)) : Prop :=
  ∀ party, .read party ∈ schedule → .commit party ∈ schedule

variable {protocol : Protocol ι σ β} {store : σ} {schedule before : List (Action ι)}
variable {state next final : State ι σ β} {action : Action ι} {party : ι}

/-! ## One step -/

/-- A longer schedule is a schedule and one more step, and this step must be possible where the
others have led. -/
theorem run_concat : interleave protocol store (before ++ [action]) = some next ↔
    ∃ state, interleave protocol store before = some state ∧
      step protocol state action = some next :=
  foldlM_concat

/-- All that a step can do: read, empty or commit, each from the phase before it. -/
theorem step_cases (stepped : step protocol state action = some next) :
    (∃ party, action = .read party ∧ state.phase party = .idle ∧
      next = state.advance state.store party (.prepared (protocol.prepare party state.store))) ∨
    (∃ party contents, action = .clear party ∧ state.phase party = .prepared contents ∧
      next = state.advance protocol.empty party (.cleared contents)) ∨
    (∃ party contents, action = .commit party ∧ state.phase party = .cleared contents ∧
      next = state.advance (protocol.commit contents state.store) party .done) := by
  cases action with
  | read party =>
    rw [step] at stepped
    split at stepped
    · next idle => exact Or.inl ⟨party, rfl, idle, (Option.some.inj stepped).symm⟩
    · simp at stepped
  | clear party =>
    rw [step] at stepped
    split at stepped
    · next contents prepared =>
      exact Or.inr (Or.inl ⟨party, contents, rfl, prepared, (Option.some.inj stepped).symm⟩)
    · simp at stepped
  | commit party =>
    rw [step] at stepped
    split at stepped
    · next contents cleared =>
      exact Or.inr (Or.inr ⟨party, contents, rfl, cleared, (Option.some.inj stepped).symm⟩)
    · simp at stepped

/-- What the phase of a party says about the steps taken so far, so that phases can be replaced by
what a schedule has in it. -/
def Recorded (before : List (Action ι)) (party : ι) : Phase β → Prop
  | .idle => .commit party ∉ before
  | .prepared _ => .read party ∈ before ∧ .commit party ∉ before
  | .cleared _ => .read party ∈ before ∧ .clear party ∈ before ∧ .commit party ∉ before
  | .done => True

/-- The party that moves is in its new phase, whatever phase that is. -/
theorem advance_own (store : σ) (phase : Phase β) :
    (state.advance store party phase).phase party = phase := by
  simp [State.advance]

/-- No other party changes its phase when one of them moves. -/
theorem advance_other {other : ι} {store : σ} {phase : Phase β} (different : party ≠ other) :
    (state.advance store other phase).phase party = state.phase party := by
  simp [State.advance, different]

omit [DecidableEq ι] in
/-- A step of another party does not change what is recorded of this one. -/
theorem recorded_concat {phase : Phase β} (recorded : Recorded before party phase)
    (action : Action ι)
    (foreign : action ≠ .commit party) : Recorded (before ++ [action]) party phase := by
  have uncommitted (absent : .commit party ∉ before) : .commit party ∉ before ++ [action] := by
    simpa [absent] using Ne.symm foreign
  cases phase with
  | idle => exact uncommitted recorded
  | prepared contents =>
    exact ⟨List.mem_append_left _ recorded.1, uncommitted recorded.2⟩
  | cleared contents =>
    exact ⟨List.mem_append_left _ recorded.1, List.mem_append_left _ recorded.2.1,
      uncommitted recorded.2.2⟩
  | done => trivial

/-- A step of any party keeps the phase of a party in agreement with the steps taken, one case for
each kind of step. -/
theorem step_recorded (recorded : Recorded before party (state.phase party))
    (stepped : step protocol state action = some next) :
    Recorded (before ++ [action]) party (next.phase party) := by
  rcases step_cases stepped with
    ⟨actor, rfl, idle, rfl⟩ | ⟨actor, contents, rfl, prepared, rfl⟩ |
      ⟨actor, contents, rfl, cleared, rfl⟩
  · by_cases own : party = actor
    · subst own
      rw [idle] at recorded
      rw [advance_own]
      exact ⟨by simp, by simpa [Recorded] using recorded⟩
    · rw [advance_other own]
      exact recorded_concat recorded _ (by simp)
  · by_cases own : party = actor
    · subst own
      rw [prepared] at recorded
      rw [advance_own]
      exact ⟨by simp [recorded.1], by simp, by simp [recorded.2]⟩
    · rw [advance_other own]
      exact recorded_concat recorded _ (by simp)
  · by_cases own : party = actor
    · subst own
      rw [advance_own]
      trivial
    · rw [advance_other own]
      exact recorded_concat recorded _ (by simpa using Ne.symm own)

/-- The phases of all parties agree with the steps taken, since every step keeps them so. -/
theorem run_recorded (ran : interleave protocol store before = some state) (party : ι) :
    Recorded before party (state.phase party) := by
  apply foldlM_history (step protocol) _ (fun taken reached =>
    Recorded taken party (reached.phase party)) _ _ _ _ ran
  · exact List.not_mem_nil
  · intro earlier reached action later _ recorded stepped
    exact step_recorded recorded stepped

/-- A party is between reading and committing, so that what it holds may become the store. -/
def Active : Phase β → Prop
  | .prepared _ => True
  | .cleared _ => True
  | _ => False

/-- An active party has read and not yet committed, so an update is under way in the schedule. -/
theorem active_recorded (ran : interleave protocol store before = some state)
    (active : Active (state.phase party)) : .read party ∈ before ∧ .commit party ∉ before := by
  have recorded := run_recorded ran party
  cases phase : state.phase party with
  | idle => simp [phase, Active] at active
  | prepared contents =>
    rw [phase] at recorded
    exact recorded
  | cleared contents =>
    rw [phase] at recorded
    exact ⟨recorded.1, recorded.2.2⟩
  | done => simp [phase, Active] at active

/-! ## Properties of the store -/

/-- Every party that holds contents holds fine ones, whatever fine means for the store at hand. -/
def HoldsFine (fine : β → Prop) (state : State ι σ β) : Prop :=
  ∀ party contents, state.phase party = .prepared contents ∨ state.phase party = .cleared contents →
    fine contents

/-- A party that moves on keeps this, if what it holds then is fine. -/
theorem HoldsFine.advance {fine : β → Prop} (holds : HoldsFine fine state) (store : σ)
    (party : ι) (phase : Phase β)
    (own : ∀ contents, phase = .prepared contents ∨ phase = .cleared contents → fine contents) :
    HoldsFine fine (state.advance store party phase) := by
  intro other contents held
  by_cases same : other = party
  · subst same
    rw [advance_own] at held
    exact own contents held
  · rw [advance_other same] at held
    exact holds other contents held

/-- The contents that a step leaves with a party are fine if those read from the store
are. -/
theorem step_holdsFine {fine : β → Prop} (holds : HoldsFine fine state)
    (prepares : ∀ party, action = .read party → fine (protocol.prepare party state.store))
    (stepped : step protocol state action = some next) : HoldsFine fine next := by
  rcases step_cases stepped with
    ⟨actor, rfl, _, rfl⟩ | ⟨actor, contents, rfl, prepared, rfl⟩ | ⟨actor, contents, rfl, _, rfl⟩
  · apply holds.advance _ actor
    intro contents held
    rcases held with same | other
    · exact Phase.prepared.inj same ▸ prepares actor rfl
    · simp at other
  · apply holds.advance _ actor
    intro contents' held
    rcases held with other | same
    · simp at other
    · exact Phase.cleared.inj same ▸ holds actor contents (Or.inl prepared)
  · exact holds.advance _ actor _ fun contents held => by simp at held

omit [DecidableEq ι] in
/-- What holds for a schedule holds for its beginnings, as an induction needs it. -/
theorem WritersApart.front {after : List (Action ι)} (apart : WritersApart (before ++ after)) :
    WritersApart before := by
  intro earlier party rest shape other member
  exact apart earlier party (rest ++ after) (by simp [shape]) other member

omit [DecidableEq ι] in
/-- The same for whole updates that are kept apart. -/
theorem UpdatesApart.front {after : List (Action ι)} (apart : UpdatesApart (before ++ after)) :
    UpdatesApart before := by
  intro earlier party rest shape other member
  exact apart earlier party (rest ++ after) (by simp [shape]) other member

/-- At most one party is between emptying and committing, and then the store is empty. -/
def OneWriter (protocol : Protocol ι σ β) (state : State ι σ β) : Prop :=
  ∀ party contents, state.phase party = .cleared contents → state.store = protocol.empty ∧
    ∀ other, other ≠ party → ∀ contents', state.phase other ≠ .cleared contents'

/-- With writers kept apart there is never more than one of them between emptying and committing.

By induction on the schedule from the back. When a party empties the store, another one that was
writing would have emptied it before and not committed since, against the assumption. -/
theorem run_oneWriter (apart : WritersApart schedule)
    (ran : interleave protocol store schedule = some final) : OneWriter protocol final := by
  induction schedule using List.reverseRecOn generalizing final with
  | nil =>
    obtain rfl := Option.some.inj ran
    exact fun _ _ held => by simp at held
  | append_singleton before action inductionHypothesis =>
    obtain ⟨state, ranBefore, stepped⟩ := run_concat.mp ran
    have oneWriter := inductionHypothesis apart.front ranBefore
    rcases step_cases stepped with
      ⟨actor, rfl, _, rfl⟩ | ⟨actor, held, rfl, _, rfl⟩ | ⟨actor, held, rfl, cleared, rfl⟩
    · intro party contents writing
      have foreign : party ≠ actor := by
        rintro rfl
        simp [advance_own] at writing
      rw [advance_other foreign] at writing
      obtain ⟨empty, alone⟩ := oneWriter party contents writing
      refine ⟨empty, ?_⟩
      intro other different contents'
      by_cases same : other = actor
      · subst same
        simp [advance_own]
      · rw [advance_other same]
        exact alone other different contents'
    · -- A party that was writing already would have had to commit first.
      have nobody : ∀ other contents, state.phase other ≠ .cleared contents := by
        intro other contents writing
        have recorded := run_recorded ranBefore other
        rw [writing] at recorded
        exact recorded.2.2 (apart before actor [] rfl other recorded.2.1)
      intro party contents writing
      have own : party = actor := by
        by_contra foreign
        rw [advance_other foreign] at writing
        exact nobody party contents writing
      subst own
      refine ⟨rfl, ?_⟩
      intro other different contents'
      rw [advance_other different]
      exact nobody other contents'
    · intro party contents writing
      have foreign : party ≠ actor := by
        rintro rfl
        simp [advance_own] at writing
      rw [advance_other foreign] at writing
      exact absurd writing ((oneWriter actor held cleared).2 party foreign contents)

section Keeping

variable (good : σ → Prop) (fine : β → Prop)

/-- What holds of the store at every commit goes on to hold, if the preparation and the emptying
keep it. The hypothesis on commits may use the steps before them. -/
theorem run_keeps_commits
    (prepares : ∀ party, .read party ∈ schedule → ∀ store, good store →
      fine (protocol.prepare party store))
    (empties : good protocol.empty)
    (commits : ∀ before party after state contents, schedule = before ++ .commit party :: after →
      interleave protocol store before = some state → state.phase party = .cleared contents →
      fine contents → good state.store → good (protocol.commit contents state.store))
    (initially : good store) (ran : interleave protocol store schedule = some final) :
    good final.store ∧ HoldsFine fine final := by
  induction schedule using List.reverseRecOn generalizing final with
  | nil =>
    obtain rfl := Option.some.inj ran
    exact ⟨initially, fun _ _ held => by simp at held⟩
  | append_singleton before action inductionHypothesis =>
    obtain ⟨state, ranBefore, stepped⟩ := run_concat.mp ran
    obtain ⟨goodStore, holds⟩ := inductionHypothesis
      (fun party member => prepares party (List.mem_append_left _ member))
      (fun earlier party after state contents shape =>
        commits earlier party (after ++ [action]) state contents (by simp [shape])) ranBefore
    refine ⟨?_, step_holdsFine holds (fun party same => ?_) stepped⟩
    · rcases step_cases stepped with
        ⟨actor, _, _, rfl⟩ | ⟨actor, contents, _, _, rfl⟩ | ⟨actor, contents, rfl, cleared, rfl⟩
      · exact goodStore
      · exact empties
      · exact commits before actor [] state contents rfl ranBefore cleared
          (holds actor contents (Or.inr cleared)) goodStore
    · exact prepares party (by simp [same]) _ goodStore

/-- Every schedule keeps what preparing, emptying and any commit to a good store keep, however the
updates overlap. -/
theorem run_keeps
    (prepares : ∀ party, .read party ∈ schedule → ∀ store, good store →
      fine (protocol.prepare party store))
    (empties : good protocol.empty)
    (commits : ∀ contents store, fine contents → good store → good (protocol.commit contents store))
    (initially : good store) (ran : interleave protocol store schedule = some final) :
    good final.store :=
  (run_keeps_commits good fine prepares empties
    (fun _ _ _ state contents _ _ _ isFine isGood => commits contents state.store isFine isGood)
    initially ran).1

/-- A schedule whose writers are apart keeps what a commit to the empty store makes good, since no
commit finds anything else. -/
theorem run_keeps_apart
    (prepares : ∀ party, .read party ∈ schedule → ∀ store, good store →
      fine (protocol.prepare party store))
    (empties : good protocol.empty)
    (commits : ∀ contents, fine contents → good (protocol.commit contents protocol.empty))
    (initially : good store) (apart : WritersApart schedule)
    (ran : interleave protocol store schedule = some final) : good final.store := by
  refine (run_keeps_commits good fine prepares empties ?_ initially ran).1
  intro before party after state contents shape ranBefore cleared isFine _
  rw [shape] at apart
  rw [(run_oneWriter apart.front ranBefore party contents cleared).1]
  exact commits contents isFine

end Keeping

/-! ## Updates one after another -/

/-- The result of whole updates, one after another, on a store. -/
def serially (protocol : Protocol ι σ β) (store : σ) (order : List ι) : σ :=
  order.foldl (fun store party => protocol.update party store) store

omit [DecidableEq ι] in
/-- The last update is made on the result of the others, as if they had been one. -/
theorem serially_concat (protocol : Protocol ι σ β) (store : σ) (order : List ι) (party : ι) :
    serially protocol store (order ++ [party]) =
      protocol.update party (serially protocol store order) := by
  rw [serially, List.foldl_append, serially]
  rfl

/-- The state of a schedule whose updates are apart: no update is under way and the store is that
of the finished ones, or one update is under way and has read that store. -/
def Consistent (protocol : Protocol ι σ β) (state : State ι σ β) (serial : σ) : Prop :=
  (state.store = serial ∧ ∀ party, ¬Active (state.phase party)) ∨
    ∃ party, (∀ other, other ≠ party → ¬Active (state.phase other)) ∧
      ((state.phase party = .prepared (protocol.prepare party serial) ∧ state.store = serial) ∨
        (state.phase party = .cleared (protocol.prepare party serial) ∧
          state.store = protocol.empty))

omit [DecidableEq ι] in
/-- The parties that commit, step by step: a step adds the party if it is a commit. -/
theorem committed_concat : committed (before ++ [action]) =
    committed before ++ committed [action] :=
  List.filterMap_append

/-- The party that is under way is the only one, and has read the result of those that are
finished. -/
theorem Consistent.active {serial : σ} (consistent : Consistent protocol state serial)
    (active : Active (state.phase party)) :
    (∀ other, other ≠ party → ¬Active (state.phase other)) ∧
      ((state.phase party = .prepared (protocol.prepare party serial) ∧ state.store = serial) ∨
        (state.phase party = .cleared (protocol.prepare party serial) ∧
          state.store = protocol.empty)) := by
  rcases consistent with ⟨_, nobody⟩ | ⟨actor, alone, underWay⟩
  · exact absurd active (nobody party)
  · have own : party = actor := by
      by_contra foreign
      exact alone party foreign active
    subst own
    exact ⟨alone, underWay⟩

/-- The state stays as described, by induction on the schedule from the back. Every step finds one
of the two cases and leaves one of them. -/
theorem run_consistent (apart : UpdatesApart schedule)
    (ran : interleave protocol store schedule = some final) :
    Consistent protocol final (serially protocol store (committed schedule)) := by
  induction schedule using List.reverseRecOn generalizing final with
  | nil =>
    obtain rfl := Option.some.inj ran
    exact Or.inl ⟨rfl, fun _ active => active⟩
  | append_singleton before action inductionHypothesis =>
    obtain ⟨state, ranBefore, stepped⟩ := run_concat.mp ran
    have consistent := inductionHypothesis apart.front ranBefore
    rw [committed_concat]
    rcases step_cases stepped with
      ⟨actor, rfl, _, rfl⟩ | ⟨actor, contents, rfl, prepared, rfl⟩ |
        ⟨actor, contents, rfl, cleared, rfl⟩
    · -- Nobody is under way when a party reads.
      have nobody : ∀ other, ¬Active (state.phase other) := by
        intro other active
        obtain ⟨hasRead, uncommitted⟩ := active_recorded ranBefore active
        exact uncommitted (apart before actor [] rfl other hasRead)
      have settled : state.store = serially protocol store (committed before) := by
        rcases consistent with ⟨settled, _⟩ | ⟨party, _, ⟨underWay, _⟩ | ⟨underWay, _⟩⟩
        · exact settled
        · exact absurd (by rw [underWay]; trivial) (nobody party)
        · exact absurd (by rw [underWay]; trivial) (nobody party)
      refine Or.inr ⟨actor, fun other different => ?_, Or.inl ⟨?_, ?_⟩⟩
      · rw [advance_other different]
        exact nobody other
      · rw [advance_own, settled]
        simp [committed]
      · exact settled.trans (by simp [committed])
    · obtain ⟨alone, ⟨holds, _⟩ | ⟨holds, _⟩⟩ := consistent.active (by rw [prepared]; trivial)
      · obtain rfl := Phase.prepared.inj (prepared.symm.trans holds)
        refine Or.inr ⟨actor, fun other different => ?_, Or.inr ⟨?_, rfl⟩⟩
        · rw [advance_other different]
          exact alone other different
        · rw [advance_own]
          simp [committed]
      · rw [prepared] at holds
        simp at holds
    · obtain ⟨alone, ⟨holds, _⟩ | ⟨holds, empty⟩⟩ := consistent.active (by rw [cleared]; trivial)
      · rw [cleared] at holds
        simp at holds
      · obtain rfl := Phase.cleared.inj (cleared.symm.trans holds)
        refine Or.inl ⟨?_, ?_⟩
        · rw [State.advance, empty]
          exact (serially_concat protocol store (committed before) actor).symm
        · intro other active
          by_cases same : other = actor
          · subst same
            rw [advance_own] at active
            exact active
          · rw [advance_other same] at active
            exact alone other same active

/-- A finished schedule whose updates are apart has the result of the updates one after another,
in the order in which they commit. -/
theorem run_serial (apart : UpdatesApart schedule) (finished : Finished schedule)
    (ran : interleave protocol store schedule = some final) :
    final.store = serially protocol store (committed schedule) := by
  obtain ⟨settled, _⟩ | ⟨party, _, underWay⟩ := run_consistent apart ran
  · exact settled
  · have active : Active (final.phase party) := by
      rcases underWay with ⟨phase, _⟩ | ⟨phase, _⟩ <;> rw [phase] <;> trivial
    obtain ⟨hasRead, uncommitted⟩ := active_recorded ran active
    exact absurd (finished party hasRead) uncommitted

end Foundations.ThreeStepUpdate
