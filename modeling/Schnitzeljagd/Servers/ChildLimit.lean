import Schnitzeljagd.Foundations.ChildSignals
import Schnitzeljagd.Foundations.Loops

/-!
# The children of tcpserver

`tcpserver.c` starts the news server for one client after another. It lets SIGCHLD through only
while it waits, counts its children in `numchildren`, and waits for one of them to exit when
there are as many as the limit. The handler collects every child that has exited.

A run is any sequence of connections, forks, exits, deliveries of the signal and steps of the
handler that the state allows. An `accept` that a signal has interrupted, or that fails for
another reason, gives no client. Other signals are not modelled.
-/

namespace Schnitzeljagd.Servers.ChildLimit

open Foundations.ChildSignals Foundations.Loops

/-- Where the loop stands: at `while (numchildren >= limit)`, in `sig_pause`, between
`sig_unblock` and `sig_block`, or before `fork` with a client. -/
inductive Spot where
  | testing
  | pausing
  | accepting
  | accepted
  deriving DecidableEq

/-- Where the loop stands, the variable that counts, and what there is to be counted. -/
structure TcpServer where
  spot : Spot
  numchildren : Nat
  parent : Parent Nat

/-- `while ((pid = wait_nohang(&wstat)) > 0)`, which goes on as long as there are children that
have exited. -/
def sigchld : Handler Nat where
  blocks := false
  again
    | .child _ => true
    | _ => false

/-- The test of the inner loop, an `accept` without a client and one with a client, `fork`, which
may fail, the exit of a child, the delivery of a pending SIGCHLD, a `wait_nohang` of the handler,
and its end. -/
inductive Label where
  | test
  | refuse
  | connect
  | fork (child : Option Nat)
  | exit (child : Nat)
  | deliver
  | wait (result : Waited Nat)
  | leave
  deriving DecidableEq

/-- SIGCHLD is not blocked: the loop sleeps or waits for a client. -/
def TcpServer.unblocked (server : TcpServer) : Bool :=
  server.spot = .pausing || server.spot = .accepting

/-- `if (numchildren) --numchildren;` for a child that has been collected. -/
def counted (numchildren : Nat) : Waited Nat → Nat
  | .child _ => numchildren - 1
  | _ => numchildren

/-- The steps of the loop, of its children and of the handler, each if the server is ready for it.
-/
def serverStep (limit : Nat) (server : TcpServer) : Label → Option TcpServer
  | .test =>
    if server.spot = .testing then
      some { server with spot := if limit ≤ server.numchildren then .pausing else .accepting }
    else none
  | .refuse =>
    if server.spot = .accepting ∧ server.parent.phase = .outside then
      some { server with spot := .testing }
    else none
  | .connect =>
    if server.spot = .accepting ∧ server.parent.phase = .outside then
      some { server with spot := .accepted }
    else none
  | .fork none =>
    -- `++numchildren` before the call and `--numchildren` behind it.
    if server.spot = .accepted then some { server with spot := .testing } else none
  | .fork (some child) =>
    if server.spot = .accepted then
      (step sigchld server.parent (.fork child)).map fun parent =>
        ⟨.testing, server.numchildren + 1, parent⟩
    else none
  | .exit child =>
    (step sigchld server.parent (.exit child)).map fun parent => { server with parent := parent }
  | .deliver =>
    if server.unblocked then
      (step sigchld server.parent .deliver).map fun parent => { server with parent := parent }
    else none
  | .wait result =>
    (step sigchld server.parent (.wait result)).map fun parent =>
      { server with numchildren := counted server.numchildren result, parent := parent }
  | .leave =>
    -- `sig_pause` returns when the handler has returned.
    (step sigchld server.parent .leave).map fun parent =>
      { server with
        spot := if server.spot = .pausing then .testing else server.spot
        parent := parent }

/-- The server before its first client. -/
def started : TcpServer := ⟨.testing, 0, ⟨[], [], false, .outside⟩⟩

/-- The server after the steps of a schedule. -/
def run (limit : Nat) (schedule : List Label) : Option TcpServer :=
  schedule.foldlM (serverStep limit) started

/-- The children that the parent has forked and not collected yet. -/
def TcpServer.children (server : TcpServer) : Nat :=
  server.parent.running.length + server.parent.exited.length

/-- The handler goes on until nobody is left to collect, so no child is forgotten. -/
theorem thorough_sigchld : Thorough sigchld where
  polls := rfl
  again result := by cases result <;> simp [sigchld]

/-- What holds at every step: the variable counts the children, which are never more than the
limit, and the loop has looked at it where it relies on it. -/
structure Orderly (limit : Nat) (server : TcpServer) : Prop where
  number : server.numchildren = server.children
  bound : server.numchildren ≤ limit
  room : server.spot = .accepting ∨ server.spot = .accepted → server.numchildren < limit
  full : server.spot = .pausing → server.parent.phase = .outside → limit ≤ server.numchildren
  handles : server.parent.phase ≠ .outside → server.unblocked = true
  attended : Attended server.parent

variable {limit : Nat} {server next : TcpServer} {parent : Parent Nat} {label : Label}

/-- Without children nothing is wrong. -/
theorem orderly_started (limit : Nat) : Orderly limit started where
  number := rfl
  bound := Nat.zero_le _
  room := by simp [started]
  full := by simp [started]
  handles := by simp [started]
  attended := Or.inl rfl

/-- The loop goes on without the children. -/
theorem Orderly.moves (orderly : Orderly limit server) {spot : Spot}
    (room : spot = .accepting ∨ spot = .accepted → server.numchildren < limit)
    (full : spot = .pausing → server.parent.phase = .outside → limit ≤ server.numchildren)
    (outside : server.parent.phase = .outside) : Orderly limit { server with spot := spot } where
  number := orderly.number
  bound := orderly.bound
  room := room
  full := full
  handles inside := absurd outside inside
  attended := orderly.attended

/-- While the signal is blocked no handler runs. -/
theorem Orderly.outside (orderly : Orderly limit server) (blocked : server.unblocked = false) :
    server.parent.phase = .outside := by
  by_contra inside
  rw [orderly.handles inside] at blocked
  contradiction

/-- Something happens to the children that is not counted: one exits, or a signal arrives. -/
theorem Orderly.uncounted (orderly : Orderly limit server)
    (same : parent.running.length + parent.exited.length = server.children)
    (attended : Attended parent)
    (phase : parent.phase = .outside → server.parent.phase = .outside)
    (handles : parent.phase ≠ .outside → server.unblocked = true) :
    Orderly limit { server with parent := parent } where
  number := orderly.number.trans same.symm
  bound := orderly.bound
  room := orderly.room
  full pausing outside := orderly.full pausing (phase outside)
  handles := handles
  attended := attended

/-- A child more, and one more is counted. -/
theorem Orderly.forked (orderly : Orderly limit server) (room : server.numchildren < limit)
    (more : parent.running.length + parent.exited.length = server.children + 1)
    (attended : Attended parent) (outside : parent.phase = .outside) :
    Orderly limit ⟨.testing, server.numchildren + 1, parent⟩ where
  number := (congrArg (· + 1) orderly.number).trans more.symm
  bound := room
  room := by simp
  full := by simp
  handles inside := absurd outside inside
  attended := attended

/-- The handler has collected a child, which is counted down. -/
theorem Orderly.collected (orderly : Orderly limit server)
    (fewer : parent.running.length + parent.exited.length + 1 = server.children)
    (attended : Attended parent) (inside : parent.phase ≠ .outside)
    (unblocked : server.unblocked = true) :
    Orderly limit { server with numchildren := server.numchildren - 1, parent := parent } where
  number := by
    have number := orderly.number
    show server.numchildren - 1 = parent.running.length + parent.exited.length
    omega
  bound := Nat.le_trans (Nat.sub_le _ _) orderly.bound
  room spot := Nat.lt_of_le_of_lt (Nat.sub_le _ _) (orderly.room spot)
  full _ outside := absurd outside inside
  handles _ := unblocked
  attended := attended

/-- The handler returns, and wakes the loop if it slept. -/
theorem Orderly.resumes (orderly : Orderly limit server)
    (same : parent.running.length + parent.exited.length = server.children)
    (attended : Attended parent) (outside : parent.phase = .outside) :
    Orderly limit { server with
      spot := if server.spot = .pausing then .testing else server.spot, parent := parent } where
  number := orderly.number.trans same.symm
  bound := orderly.bound
  room spot := by
    by_cases pausing : server.spot = .pausing
    · simp [pausing] at spot
    · exact orderly.room (by simpa [pausing] using spot)
  full spot := by
    by_cases pausing : server.spot = .pausing
    · simp [pausing] at spot
    · simp [pausing] at spot
  handles inside := absurd outside inside
  attended := attended

/-- The test leads to `sig_pause` if there are as many children as the limit, and otherwise to an
`accept` with room for one more. -/
theorem Orderly.test (orderly : Orderly limit server)
    (stepped : serverStep limit server .test = some next) : Orderly limit next := by
  obtain ⟨testing, same⟩ := Option.ite_none_right_eq_some.mp stepped
  obtain rfl := Option.some.inj same
  have outside := orderly.outside (by simp [TcpServer.unblocked, testing])
  by_cases many : limit ≤ server.numchildren
  · rw [if_pos many]
    exact orderly.moves (by simp) (fun _ _ => many) outside
  · rw [if_neg many]
    exact orderly.moves (fun _ => Nat.lt_of_not_le many) (by simp) outside

/-- A client comes while there is room for its child. -/
theorem Orderly.connect (orderly : Orderly limit server)
    (stepped : serverStep limit server .connect = some next) : Orderly limit next := by
  obtain ⟨⟨accepting, outside⟩, same⟩ := Option.ite_none_right_eq_some.mp stepped
  obtain rfl := Option.some.inj same
  exact orderly.moves (fun _ => orderly.room (Or.inl accepting)) (by simp) outside

/-- An `accept` without a client leads back to the test. -/
theorem Orderly.refuse (orderly : Orderly limit server)
    (stepped : serverStep limit server .refuse = some next) : Orderly limit next := by
  obtain ⟨⟨_, outside⟩, same⟩ := Option.ite_none_right_eq_some.mp stepped
  obtain rfl := Option.some.inj same
  exact orderly.moves (by simp) (by simp) outside

/-- A `fork` that fails leaves the number as it was. -/
theorem Orderly.unforked (orderly : Orderly limit server)
    (stepped : serverStep limit server (.fork none) = some next) : Orderly limit next := by
  obtain ⟨accepted, same⟩ := Option.ite_none_right_eq_some.mp stepped
  obtain rfl := Option.some.inj same
  have outside := orderly.outside (by simp [TcpServer.unblocked, accepted])
  exact orderly.moves (by simp) (by simp) outside

/-- A `fork` takes the room that the test has found, and no handler runs meanwhile: the signal is
blocked. -/
theorem Orderly.fork (orderly : Orderly limit server) {child : Nat}
    (stepped : serverStep limit server (.fork (some child)) = some next) : Orderly limit next := by
  obtain ⟨accepted, forked⟩ := Option.ite_none_right_eq_some.mp stepped
  obtain ⟨parent, done, rfl⟩ := Option.map_eq_some_iff.mp forked
  have outside := orderly.outside (by simp [TcpServer.unblocked, accepted])
  have room := orderly.room (Or.inr accepted)
  rcases step_children done with ⟨_, _, more⟩ | ⟨_, other, _⟩ | ⟨other, _⟩
  · rcases step_phase done with ⟨other, _⟩ | ⟨other, _⟩ | ⟨_, _, phase⟩
    · cases other
    · cases other
    · exact orderly.forked room more (step_attended thorough_sigchld orderly.attended done)
        (phase.mpr outside)
  · cases other
  · exact absurd rfl (other child)

/-- A child that exits is still one that has not been collected. -/
theorem Orderly.exit (orderly : Orderly limit server) {child : Nat}
    (stepped : serverStep limit server (.exit child) = some next) : Orderly limit next := by
  obtain ⟨parent, done, rfl⟩ := Option.map_eq_some_iff.mp stepped
  have attended := step_attended thorough_sigchld orderly.attended done
  rcases step_children done with ⟨_, other, _⟩ | ⟨_, other, _⟩ | ⟨_, _, same⟩
  · cases other
  · cases other
  · rcases step_phase done with ⟨other, _⟩ | ⟨other, _⟩ | ⟨_, _, phase⟩
    · cases other
    · cases other
    · exact orderly.uncounted same attended phase.mp
        fun inside => orderly.handles fun outside => inside (phase.mpr outside)

/-- The signal is delivered only where it is let through. -/
theorem Orderly.deliver (orderly : Orderly limit server)
    (stepped : serverStep limit server .deliver = some next) : Orderly limit next := by
  obtain ⟨unblocked, delivered⟩ := Option.ite_none_right_eq_some.mp stepped
  obtain ⟨parent, done, rfl⟩ := Option.map_eq_some_iff.mp delivered
  have attended := step_attended thorough_sigchld orderly.attended done
  rcases step_children done with ⟨_, other, _⟩ | ⟨_, other, _⟩ | ⟨_, _, same⟩
  · cases other
  · cases other
  · rcases step_phase done with ⟨_, outside, _⟩ | ⟨other, _⟩ | ⟨other, _⟩
    · exact orderly.uncounted same attended (fun _ => outside) fun _ => unblocked
    · cases other
    · exact absurd rfl other

/-- The handler counts the children that it collects, and only those. -/
theorem Orderly.wait (orderly : Orderly limit server) {result : Waited Nat}
    (stepped : serverStep limit server (.wait result) = some next) : Orderly limit next := by
  obtain ⟨parent, done, rfl⟩ := Option.map_eq_some_iff.mp stepped
  have attended := step_attended thorough_sigchld orderly.attended done
  rcases step_phase done with ⟨other, _⟩ | ⟨other, _⟩ | ⟨_, _, phase⟩
  · cases other
  · cases other
  · rcases step_children done with ⟨_, other, _⟩ | ⟨pid, called, fewer⟩ | ⟨_, noChild, same⟩
    · cases other
    · obtain rfl := Event.wait.inj called
      have waiting : server.parent.phase ≠ .outside := by
        rcases step_cases done with
          ⟨_, other, _⟩ | ⟨_, other, _⟩ | ⟨other, _⟩ | ⟨_, _, _, waiting, _⟩ | ⟨other, _⟩
        · cases other
        · cases other
        · cases other
        · rw [waiting]
          decide
        · cases other
      exact orderly.collected fewer attended (fun outside => waiting (phase.mp outside))
        (orderly.handles waiting)
    · have unchanged : counted server.numchildren result = server.numchildren := by
        cases result with
        | child pid => exact absurd rfl (noChild pid)
        | running => rfl
        | childless => rfl
      rw [unchanged]
      exact orderly.uncounted same attended phase.mp
        fun inside => orderly.handles fun outside => inside (phase.mpr outside)

/-- The handler leaves when nobody is left to collect. -/
theorem Orderly.leave (orderly : Orderly limit server)
    (stepped : serverStep limit server .leave = some next) : Orderly limit next := by
  obtain ⟨parent, done, rfl⟩ := Option.map_eq_some_iff.mp stepped
  have attended := step_attended thorough_sigchld orderly.attended done
  rcases step_children done with ⟨_, other, _⟩ | ⟨_, other, _⟩ | ⟨_, _, same⟩
  · cases other
  · cases other
  · rcases step_phase done with ⟨other, _⟩ | ⟨_, outside⟩ | ⟨_, other, _⟩
    · cases other
    · exact orderly.resumes same attended outside
    · exact absurd rfl other

/-- One step keeps the children in order, whichever step it is. -/
theorem serverStep_orderly (orderly : Orderly limit server)
    (stepped : serverStep limit server label = some next) : Orderly limit next := by
  cases label with
  | test => exact orderly.test stepped
  | refuse => exact orderly.refuse stepped
  | connect => exact orderly.connect stepped
  | fork child =>
    cases child with
    | none => exact orderly.unforked stepped
    | some child => exact orderly.fork stepped
  | exit child => exact orderly.exit stepped
  | deliver => exact orderly.deliver stepped
  | wait result => exact orderly.wait stepped
  | leave => exact orderly.leave stepped

/-- So it holds after every schedule. -/
theorem run_orderly {schedule : List Label} (ran : run limit schedule = some server) :
    Orderly limit server :=
  foldlM_invariant (serverStep limit) (Orderly limit) schedule
    (fun _ _ _ _ orderly stepped => serverStep_orderly orderly stepped) started server
    (orderly_started limit) ran

/-- In every state of every run `numchildren` is the number of the children, which is never above
the limit. Whenever the parent waits without a signal pending it has collected every child that
has exited. If it sleeps, a child is running or a signal is pending, and a handler that has been
called returns and has collected them all.

The invariant is `Orderly`. Between the test of the loop and the `fork` no child can be added, and
only a handler can collect one, which counts it down; so there is still room when the child is
made. The parent goes to sleep only when all places are taken, and the signal is let through from
that moment on. -/
theorem children_limited (limit : Nat) (schedule : List Label) (server : TcpServer)
    (ran : run limit schedule = some server) :
    server.numchildren = server.children ∧ server.children ≤ limit ∧
    (server.parent.phase = .outside → server.parent.pending = false →
      server.parent.exited = []) ∧
    (0 < limit → server.spot = .pausing → server.parent.phase = .outside →
      server.parent.pending = true ∨ server.parent.running ≠ []) ∧
    (server.parent.phase = .waiting → Returns sigchld server.parent) := by
  have orderly := run_orderly ran
  have number := orderly.number
  have collected : server.parent.phase = .outside → server.parent.pending = false →
      server.parent.exited = [] := by
    intro outside quiet
    rcases orderly.attended with nobody | pending | waiting
    · exact nobody
    · rw [quiet] at pending
      contradiction
    · rw [outside] at waiting
      contradiction
  refine ⟨number, number ▸ orderly.bound, collected, ?_, thorough_sigchld.returns⟩
  intro positive pausing outside
  cases pending : server.parent.pending with
  | true => exact Or.inl rfl
  | false =>
    right
    intro alone
    have full := orderly.full pausing outside
    rw [number, TcpServer.children, collected outside pending, alone] at full
    exact absurd full (by simp; omega)

/-- The only child allowed exits while the parent sleeps. -/
theorem children_limited_one : ∃ server,
    run 1 [.test, .connect, .fork (some 7), .test, .exit 7, .deliver, .wait (.child 7)] =
      some server ∧ server.numchildren = server.children ∧ server.children ≤ 1 := by
  refine ⟨⟨.pausing, 0, ⟨[], [], false, .waiting⟩⟩, rfl, ?_⟩
  have limited := children_limited 1
    [.test, .connect, .fork (some 7), .test, .exit 7, .deliver, .wait (.child 7)]
    ⟨.pausing, 0, ⟨[], [], false, .waiting⟩⟩ rfl
  exact ⟨limited.1, limited.2.1⟩

end Schnitzeljagd.Servers.ChildLimit
