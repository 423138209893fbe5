import Schnitzeljagd.Foundations.ChildSignals
import Schnitzeljagd.Foundations.Loops
import Schnitzeljagd.Foundations.Traces

/-!
# The accept loops of the servers

`polsys.pl`, `diary.pl` and `bulld` accept one client after another, fork a process for
each and collect the processes that have exited in a handler of SIGCHLD. A run is any
sequence of connections, forks, exits, deliveries of the signal, and steps of the
handler that the state of the parent allows.

A signal that is delivered while the parent waits in `accept` interrupts the call: when
the handler has returned, `accept` gives no client. The loop of `bulld` then goes on,
and the condition of the Perl loops fails. Children and signals that the kernel takes
care of once the parent is gone are not modelled, and neither are the pauses of `bulld`
nor failures of `accept` for other reasons.
-/

namespace Schnitzeljagd.Servers

open Foundations.ChildSignals Foundations.Loops Foundations.Traces

/-- The number of a process. -/
abbrev Pid := Nat

/-- Where the loop of the parent stands: in `accept`, before `fork` with a client, behind
`fork` in the rest of the body, in an `accept` that has been interrupted, or behind the
loop. -/
inductive Spot where
  | accepting
  | accepted
  | forked
  | interrupted
  | left
  deriving DecidableEq

/-- What tells the three programs apart: their handler of SIGCHLD, and where the loop goes from an
`accept` without a client. -/
structure Program where
  reaper : Handler Pid
  /-- Where the loop goes from an `accept` without a client. -/
  refused : Spot

/-! ## The three programs -/

/-- `waitpid(-1, WNOHANG);`, once for each signal that arrives. -/
def polsysReaper : Handler Pid where
  blocks := false
  again := fun _ => false

/-- `1 until ( -1 == waitpid(-1, WNOHANG));`, until there is no child any more. -/
def diaryReaper : Handler Pid where
  blocks := false
  again := fun result => result ≠ .childless

/-- `int diedchild = wait(&status);`, which waits for one child even if none has exited. -/
def sigchild : Handler Pid where
  blocks := true
  again := fun _ => false

/-- `while ($client = $server->accept())`, which ends when `accept` returns nothing. -/
def polsys : Program := ⟨polsysReaper, .left⟩

/-- The same loop, with another handler. -/
def diary : Program := ⟨diaryReaper, .left⟩

/-- `if (csock == -1) { sleep(10); continue; }`, which goes on. -/
def bulld : Program := ⟨sigchild, .accepting⟩

/-! ## Runs of a server -/

/-- Where the loop stands, and what the parent has to do with its children. -/
structure Server where
  spot : Spot
  parent : Parent Pid

/-- A connection that `accept` returns, a `fork` that may fail, the rest of the body, the
exit of a client process, the delivery of a pending SIGCHLD, a `wait` call of the handler,
and the end of the handler. -/
inductive Label where
  | connect
  | fork (child : Option Pid)
  | next
  | exit (child : Pid)
  | deliver
  | wait (result : Waited Pid)
  | leave
  deriving DecidableEq

/-- What happens to the children and the signal. Steps of the loop itself have no part in this,
apart from `fork`. -/
def Label.event : Label → Option (Event Pid)
  | connect => none
  | fork child => child.map Event.fork
  | next => none
  | exit child => some (.exit child)
  | deliver => some .deliver
  | wait result => some (.wait result)
  | leave => some .leave

/-- The steps of the loop are taken in their order and not while the handler runs. Children and
signals come at any time until the loop is left. -/
def Server.ready (server : Server) : Label → Bool
  | .connect => server.spot = .accepting ∧ server.parent.phase = .outside
  | .fork _ => server.spot = .accepted ∧ server.parent.phase = .outside
  | .next => server.spot = .forked ∧ server.parent.phase = .outside
  | _ => server.spot ≠ .left

/-- Where the loop stands after a step: an `accept` that a signal has interrupted returns without
a client. -/
def nextSpot (program : Program) (spot : Spot) : Label → Spot
  | .connect => .accepted
  | .fork _ => .forked
  | .next => .accepting
  | .deliver => if spot = .accepting then .interrupted else spot
  | .leave => if spot = .interrupted then program.refused else spot
  | _ => spot

/-- A step of a server, if it is ready for it. -/
def serveStep (program : Program) (server : Server) (label : Label) : Option Server :=
  if server.ready label then
    match label.event with
    | none => some ⟨nextSpot program server.spot label, server.parent⟩
    | some event => (step program.reaper server.parent event).map fun parent =>
        ⟨nextSpot program server.spot label, parent⟩
  else none

/-- A server before its first client. -/
def listening : Server := ⟨.accepting, ⟨[], [], false, .outside⟩⟩

/-- A server after the steps of a schedule, if it was ready for each of them. -/
def serve (program : Program) (schedule : List Label) : Option Server :=
  schedule.foldlM (serveStep program) listening

variable {program : Program} {schedule : List Label} {server next final : Server} {label : Label}

/-- What a step of a server can be: it moves the loop, and either leaves the children alone or is
a step of theirs. -/
theorem serveStep_cases (stepped : serveStep program server label = some next) :
    server.ready label = true ∧ next.spot = nextSpot program server.spot label ∧
      ((label.event = none ∧ next.parent = server.parent) ∨
        ∃ event, label.event = some event ∧
          step program.reaper server.parent event = some next.parent) := by
  rw [serveStep] at stepped
  split at stepped
  · next ready =>
    refine ⟨ready, ?_⟩
    split at stepped
    · next nothing =>
      obtain rfl := Option.some.inj stepped
      exact ⟨rfl, Or.inl ⟨nothing, rfl⟩⟩
    · next event happens =>
      obtain ⟨parent, moved, rfl⟩ := Option.map_eq_some_iff.mp stepped
      exact ⟨rfl, Or.inr ⟨event, happens, moved⟩⟩
  · simp at stepped

/-! ## Leaving the loop -/

/-- No SIGCHLD has been delivered while the parent waited in `accept`. -/
def Undisturbed (program : Program) (schedule : List Label) : Prop :=
  GuardedBy (serve program) (fun label => label = .deliver)
    (fun server => server.spot ≠ .accepting) schedule

/-- A SIGCHLD has been delivered while the parent waited in `accept`, and its handler has
returned. -/
def Disturbed (program : Program) (schedule : List Label) : Prop :=
  ∃ before after server, schedule = before ++ .deliver :: after ∧
    serve program before = some server ∧ server.spot = .accepting ∧ .leave ∈ after

/-- One step more disturbs only if it delivers a signal to a waiting `accept`. -/
theorem undisturbed_concat (ran : serve program schedule = some server) :
    Undisturbed program (schedule ++ [label]) ↔
      Undisturbed program schedule ∧ (label = .deliver → server.spot ≠ .accepting) :=
  guardedBy_concat_iff ran label

/-- The disturbance is complete when the handler returns. -/
theorem disturbed_concat :
    Disturbed program (schedule ++ [label]) ↔
      Disturbed program schedule ∨ (label = .leave ∧ ¬Undisturbed program schedule) := by
  constructor
  · rintro ⟨before, after, server, shape, ran, accepting, left⟩
    obtain rfl | ⟨earlier, last, rfl⟩ := List.eq_nil_or_concat' after
    · exact absurd left List.not_mem_nil
    · rw [← List.cons_append, ← List.append_assoc] at shape
      obtain ⟨front, lasts⟩ := List.append_inj' shape rfl
      obtain rfl := List.singleton_inj.mp lasts
      obtain inside | final := List.mem_append.mp left
      · exact Or.inl ⟨before, earlier, server, front, ran, accepting, inside⟩
      · refine Or.inr ⟨(List.mem_singleton.mp final).symm, ?_⟩
        intro undisturbed
        exact undisturbed before .deliver earlier front rfl server ran accepting
  · rintro (⟨before, after, server, rfl, ran, accepting, left⟩ | ⟨rfl, disturbed⟩)
    · exact ⟨before, after ++ [label], server, by simp, ran, accepting,
        List.mem_append_left _ left⟩
    · simp only [Undisturbed, GuardedBy, Guarded, not_forall] at disturbed
      obtain ⟨before, _, after, rfl, rfl, server, ran, accepting⟩ := disturbed
      exact ⟨before, after ++ [.leave], server, by simp, ran, not_not.mp accepting,
        by simp⟩

/-- Where the loop of a Perl server stands says what has come to its `accept`. -/
structure Standing (program : Program) (schedule : List Label) (server : Server) : Prop where
  undisturbed : Undisturbed program schedule ↔ server.spot ≠ .interrupted ∧ server.spot ≠ .left
  disturbed : Disturbed program schedule ↔ server.spot = .left
  handling : server.spot = .interrupted → server.parent.phase ≠ .outside

/-- A step that is an event of the children is a step of theirs. -/
theorem serveStep_event {event : Event Pid} (stepped : serveStep program server label = some next)
    (happens : label.event = some event) :
    step program.reaper server.parent event = some next.parent := by
  obtain ⟨_, _, ⟨nothing, _⟩ | ⟨other, happensToo, moved⟩⟩ := serveStep_cases stepped
  · rw [happens] at nothing
    cases nothing
  · obtain rfl := Option.some.inj (happens.symm.trans happensToo)
    exact moved

/-- The cases in which a step moves the loop out of its order: a signal in `accept`, and the end
of its handler. -/
theorem serveStep_spot (stepped : serveStep program server label = some next) :
    server.spot ≠ .left ∧
      ((label = .deliver ∧ server.spot = .accepting ∧ next.spot = .interrupted ∧
          next.parent.phase ≠ .outside) ∨
        (label = .leave ∧ server.spot = .interrupted ∧ next.spot = program.refused) ∨
        (¬(label = .deliver ∧ server.spot = .accepting) ∧
          ¬(label = .leave ∧ server.spot = .interrupted) ∧ next.spot ≠ .left ∧
          (next.spot = .interrupted ↔ server.spot = .interrupted) ∧
          (server.spot = .interrupted → server.parent.phase ≠ .outside →
            next.parent.phase ≠ .outside))) := by
  obtain ⟨ready, moved, _⟩ := serveStep_cases stepped
  cases label with
  | connect =>
    simp only [Server.ready, decide_eq_true_eq] at ready
    simp [moved, nextSpot, ready.1]
  | fork child =>
    simp only [Server.ready, decide_eq_true_eq] at ready
    simp [moved, nextSpot, ready.1]
  | next =>
    simp only [Server.ready, decide_eq_true_eq] at ready
    simp [moved, nextSpot, ready.1]
  | exit child =>
    simp only [Server.ready, decide_eq_true_eq] at ready
    obtain ⟨other, _⟩ | ⟨other, _⟩ | ⟨_, _, phase⟩ := step_phase (serveStep_event stepped rfl)
    · cases other
    · cases other
    · simp [moved, nextSpot, ready, phase]
  | deliver =>
    simp only [Server.ready, decide_eq_true_eq] at ready
    obtain ⟨_, _, phase⟩ | ⟨other, _⟩ | ⟨other, _⟩ := step_phase (serveStep_event stepped rfl)
    · by_cases accepting : server.spot = .accepting
      · simp [moved, nextSpot, accepting, phase]
      · simp [moved, nextSpot, accepting, ready, phase]
    · cases other
    · exact absurd rfl other
  | wait result =>
    simp only [Server.ready, decide_eq_true_eq] at ready
    obtain ⟨other, _⟩ | ⟨other, _⟩ | ⟨_, _, phase⟩ := step_phase (serveStep_event stepped rfl)
    · cases other
    · cases other
    · simp [moved, nextSpot, ready, phase]
  | leave =>
    simp only [Server.ready, decide_eq_true_eq] at ready
    by_cases interrupted : server.spot = .interrupted
    · simp [moved, nextSpot, interrupted]
    · simp [moved, nextSpot, interrupted, ready]

/-- At the beginning the loop stands in `accept`, and nothing has come. -/
theorem standing_nil : Standing program [] listening where
  undisturbed := by
    constructor
    · intro _
      constructor <;> simp [listening]
    · intro _
      exact guarded_nil
  disturbed := by
    constructor
    · rintro ⟨before, after, server, shape, _⟩
      simp at shape
    · intro left
      simp [listening] at left
  handling := by
    intro interrupted
    simp [listening] at interrupted

/-- A step of a Perl server keeps this connection between the loop and the history.

Only two steps move the loop: a delivery while it is in `accept`, and the return of the handler
that follows, with which the condition of the loop fails. Every other step leaves it where it was.
-/
theorem standing_step (refused : program.refused = .left)
    (ran : serve program schedule = some server) (standing : Standing program schedule server)
    (stepped : serveStep program server label = some next) :
    Standing program (schedule ++ [label]) next := by
  obtain ⟨present, ⟨rfl, accepting, spot, phase⟩ | ⟨rfl, interrupted, spot⟩ |
    ⟨noDelivery, noReturn, inside, same, phase⟩⟩ := serveStep_spot stepped
  -- The delivery interrupts the call.
  · constructor
    · rw [undisturbed_concat ran]
      simp [accepting, spot]
    · rw [disturbed_concat, standing.disturbed]
      simp [present, spot]
    · intro _
      exact phase
  -- The call gives no client, and the condition of the loop fails.
  · constructor
    · rw [undisturbed_concat ran, standing.undisturbed]
      simp [interrupted, spot, refused]
    · rw [disturbed_concat, standing.undisturbed]
      simp [interrupted, spot, refused]
    · intro still
      rw [spot, refused] at still
      cases still
  · constructor
    · rw [undisturbed_concat ran, standing.undisturbed]
      constructor
      · rintro ⟨⟨elsewhere, _⟩, _⟩
        exact ⟨mt same.mp elsewhere, inside⟩
      · rintro ⟨elsewhere, _⟩
        exact ⟨⟨mt same.mpr elsewhere, present⟩,
          fun delivers accepting => noDelivery ⟨delivers, accepting⟩⟩
    · rw [disturbed_concat, standing.disturbed, standing.undisturbed]
      constructor
      · rintro (left | ⟨returns, came⟩)
        · exact absurd left present
        · refine absurd ⟨returns, ?_⟩ noReturn
          by_contra elsewhere
          exact came ⟨elsewhere, present⟩
      · intro left
        exact absurd left inside
    · intro interrupted
      have before := same.mp interrupted
      exact phase before (standing.handling before)

/-- So it holds after every schedule. -/
theorem serve_standing (refused : program.refused = .left)
    (ran : serve program schedule = some final) : Standing program schedule final := by
  apply foldlM_history (serveStep program) listening (Standing program) standing_nil _ _ _ ran
  intro earlier server label next ranEarlier standing stepped
  exact standing_step refused ranEarlier standing stepped

/-- A Perl server has left its loop exactly when a SIGCHLD was delivered while it waited in
`accept`, and the handler has returned.

The history of a run and the place of its loop are connected by `Standing`, which one step keeps:
the loop comes to be interrupted by such a delivery and in no other way, and from there it can
only leave. -/
theorem serving_iff (perl : program = polsys ∨ program = diary)
    (ran : serve program schedule = some final) :
    final.spot ≠ .left ↔ ¬Disturbed program schedule := by
  have refused : program.refused = .left := by
    rcases perl with rfl | rfl
    · rfl
    · rfl
  have standing := serve_standing refused ran
  exact not_congr standing.disturbed.symm

/-- A client that leaves before the parent is back in `accept` does no harm. -/
theorem serving_iff_early :
    ¬Disturbed polsys
      [.connect, .fork (some 1), .exit 1, .deliver, .wait (.child 1), .leave, .next, .connect] :=
  (serving_iff (Or.inl rfl) rfl).mp (by decide)

/-- When a single client has come and gone, both servers have left their loops. -/
theorem left_after_visit :
    (serve polsys [.connect, .fork (some 1), .next, .exit 1, .deliver, .wait (.child 1),
        .leave]).map Server.spot = some .left ∧
      (serve diary [.connect, .fork (some 1), .next, .exit 1, .deliver, .wait (.child 1),
        .wait .childless, .leave]).map Server.spot = some .left := by
  constructor
  · rfl
  · rfl

end Schnitzeljagd.Servers
