import Schnitzeljagd.Servers.AcceptLoop

/-!
# The exited children of the servers

The handlers of `polsys.pl` and `bulld` make one `wait` call for a SIGCHLD, which may stand
for several exits. A child stays behind exactly when its exit finds a SIGCHLD pending.

The handler of `diary.pl` calls until there are no children. It comes to that only when no
child is running: with one, `waitpid` returns 0 as often as it is called.
-/

namespace Schnitzeljagd.Servers

open Foundations.ChildSignals Foundations.Loops Foundations.Traces

variable {program : Program} {schedule : List Label} {server next final : Server} {label : Label}

/-! ## One call for each signal -/

/-- No child has exited while a SIGCHLD was pending. -/
def ExitsApart (program : Program) (schedule : List Label) : Prop :=
  GuardedBy (serve program) (fun label => ∃ child, label = .exit child)
    (fun server => server.parent.pending = false) schedule

/-- A label more keeps the exits apart unless it is an exit while a signal is pending. -/
theorem exitsApart_concat (ran : serve program schedule = some server) :
    ExitsApart program (schedule ++ [label]) ↔ ExitsApart program schedule ∧
      ((∃ child, label = .exit child) → server.parent.pending = false) :=
  guardedBy_concat_iff ran label

/-- Only the exit of a child is seen as one by the parent. -/
theorem event_exit {child : Pid} : label.event = some (.exit child) ↔ label = .exit child := by
  cases label with
  | fork forked => cases forked <;> simp [Label.event]
  | connect => simp [Label.event]
  | next => simp [Label.event]
  | exit other => simp [Label.event]
  | deliver => simp [Label.event]
  | wait result => simp [Label.event]
  | leave => simp [Label.event]

/-- A step of a server whose handler calls once. An exit while a signal is pending leaves one more
child behind, and no other step does. -/
theorem serveStep_leftBehind {lost : Nat} (once : ∀ result, program.reaper.again result = false)
    (ran : serve program schedule = some server) (balance : LeftBehind lost server.parent)
    (apart : lost = 0 ↔ ExitsApart program schedule)
    (stepped : serveStep program server label = some next) :
    ∃ lost, LeftBehind lost next.parent ∧
      (lost = 0 ↔ ExitsApart program (schedule ++ [label])) := by
  obtain ⟨_, _, ⟨nothing, same⟩ | ⟨event, happens, moved⟩⟩ := serveStep_cases stepped
  · refine ⟨lost, same ▸ balance, ?_⟩
    rw [exitsApart_concat ran, apart]
    constructor
    · intro before
      refine ⟨before, ?_⟩
      rintro ⟨child, rfl⟩
      cases nothing
    · exact And.left
  · obtain ⟨⟨pending, child, rfl⟩, later⟩ | ⟨separate, later⟩ := step_leftBehind once balance moved
    · refine ⟨lost + 1, later, ?_⟩
      rw [exitsApart_concat ran]
      constructor
      · intro none
        exact absurd none (Nat.succ_ne_zero lost)
      · rintro ⟨_, found⟩
        have clear := found ⟨child, event_exit.mp happens⟩
        rw [pending] at clear
        cases clear
    · refine ⟨lost, later, ?_⟩
      rw [exitsApart_concat ran, apart]
      constructor
      · intro before
        refine ⟨before, ?_⟩
        rintro ⟨child, rfl⟩
        obtain rfl := Option.some.inj happens
        by_contra pending
        exact separate ⟨Bool.of_not_eq_false pending, child, rfl⟩
      · exact And.left

/-- How many children a server with such a handler has left behind. -/
theorem serve_leftBehind (once : ∀ result, program.reaper.again result = false)
    (ran : serve program schedule = some final) :
    ∃ lost, LeftBehind lost final.parent ∧ (lost = 0 ↔ ExitsApart program schedule) := by
  apply foldlM_history (serveStep program) listening (fun schedule server =>
    ∃ lost, LeftBehind lost server.parent ∧ (lost = 0 ↔ ExitsApart program schedule)) _ _ _ _ ran
  · refine ⟨0, rfl, ?_⟩
    constructor
    · intro _
      exact guarded_nil
    · intro _
      rfl
  · rintro earlier server label next ranEarlier ⟨lost, balance, apart⟩ stepped
    exact serveStep_leftBehind once ranEarlier balance apart stepped

/-- When no SIGCHLD is pending and no handler runs, all exited children have been collected
exactly when each of them exited while no SIGCHLD was pending.

The handler of these two servers collects one child for each signal it gets. The proof counts the
exits whose signal was swallowed by one already pending, and this number stays the difference
between the exited children and the signals still to be served. At a quiet point it is the number
of exited children. -/
theorem children_collected_iff (program_eq : program = polsys ∨ program = bulld)
    (ran : serve program schedule = some final) (quiet : final.parent.pending = false)
    (outside : final.parent.phase = .outside) :
    final.parent.exited = [] ↔ ExitsApart program schedule := by
  have once : ∀ result, program.reaper.again result = false := by
    rcases program_eq with rfl | rfl
    · intro result
      rfl
    · intro result
      rfl
  obtain ⟨lost, balance, apart⟩ := serve_leftBehind once ran
  have count := leftBehind_rest balance quiet outside
  rw [← List.length_eq_zero_iff, count, apart]

/-- Two clients that leave one after the other. -/
theorem children_collected_iff_apart :
    ExitsApart polsys
      [.connect, .fork (some 1), .next, .connect, .fork (some 2), .exit 1, .deliver,
        .wait (.child 1), .exit 2, .leave, .deliver, .wait (.child 2), .leave] :=
  (children_collected_iff (Or.inl rfl) rfl rfl rfl).mp rfl

/-- Of two children that exit before the signal is delivered one stays behind. -/
theorem second_exit_stays :
    (serve polsys [.connect, .fork (some 1), .next, .connect, .fork (some 2), .exit 1, .exit 2,
        .deliver, .wait (.child 1), .leave]).map Server.parent =
      some ⟨[], [2], false, .outside⟩ ∧
    (serve bulld [.connect, .fork (some 1), .next, .connect, .fork (some 2), .exit 1, .exit 2,
        .deliver, .wait (.child 1), .leave]).map Server.parent =
      some ⟨[], [2], false, .outside⟩ := by
  constructor
  · rfl
  · rfl

/-! ## Calls until there are no children -/

/-- The handler of the diary server calls `waitpid` with `WNOHANG`, and goes on until there is no
child left to wait for. -/
theorem diaryReaper_exhaustive : Exhaustive diaryReaper where
  polls := rfl
  again := fun _ => rfl

/-- The handler of the diary server returns, having collected the exited clients and without
waiting for another one, exactly when no client is running.

It calls `waitpid` until that fails, and as long as a client is running it does not fail. -/
theorem reaper_returns_iff (running exited : List Pid) (pending : Bool) :
    Returns diaryReaper ⟨running, exited, pending, .waiting⟩ ↔ running = [] :=
  returns_iff diaryReaper_exhaustive rfl

/-- One client leaves and another one stays. -/
theorem reaper_spins : ¬Returns diaryReaper ⟨[2], [1], false, .waiting⟩ := by
  intro returns
  have alone := (returns_iff diaryReaper_exhaustive rfl).mp returns
  simp at alone

end Schnitzeljagd.Servers
