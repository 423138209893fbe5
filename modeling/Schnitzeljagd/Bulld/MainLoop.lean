import Schnitzeljagd.Foundations.Loops

/-!
# The sockets that the main loop of bulld holds

`mainloop` accepts a client and forks a process for it. The child serves the client and
exits; the parent closes its copy of the socket and goes on. When `fork` fails the parent
goes on as well, but with the socket open: nothing closes it any more.

The results of `accept` and `fork` come from outside. The loop is seen from the process
that entered it, and a descriptor that `accept` returns was not open before.
-/

namespace Schnitzeljagd.Bulld

open Foundations.Loops

/-- What `fork` returns. -/
inductive Forked where
  | failed
  | child
  | parent (cpid : Nat)
  deriving DecidableEq

/-- The results of the calls of one turn: `accept` returns -1, or a socket and then `fork`
something. -/
inductive Outcome where
  | refused
  | accepted (csock : Nat) (forked : Forked)
  deriving DecidableEq

/-- A process at the top of the loop with its open descriptors, or a child that has served
its client and exited. -/
inductive Process where
  | top (descriptors : Finset Nat)
  | exited
  deriving DecidableEq

/-- The body of the loop. -/
def turn : Process → Outcome → Option Process
  | .exited, _ => none
  | .top descriptors, .refused => some (.top descriptors)
  | .top descriptors, .accepted csock forked =>
    if csock ∈ descriptors then none
    else
      let descriptors := insert csock descriptors
      match forked with
      -- `perror("fork"); break;`
      | .failed => some (.top descriptors)
      -- `close(csock); exit(0);`
      | .child => some .exited
      -- `close(csock); sleep(1); break;`
      | .parent _ => some (.top (descriptors.erase csock))

/-- `mainloop`, entered with some open descriptors. -/
def mainloop (descriptors : Finset Nat) (outcomes : List Outcome) : Option Process :=
  outcomes.foldlM turn (.top descriptors)

/-- `fork` fails for a client that has been accepted. -/
def Outcome.leaks : Outcome → Bool
  | accepted _ .failed => true
  | _ => false

variable {descriptors later initial final : Finset Nat} {outcome : Outcome}
variable {outcomes : List Outcome}

/-- What a turn does to the descriptors of the parent: one more of them is a leak if `fork`
fails. -/
theorem turn_top {process : Process} (turned : turn process outcome = some (.top later)) :
    ∃ descriptors, process = .top descriptors ∧ ∀ leaks, Account descriptors initial leaks →
      Account later initial (leaks + if outcome.leaks then 1 else 0) := by
  cases process with
  | exited => simp [turn] at turned
  | top descriptors =>
    refine ⟨descriptors, rfl, ?_⟩
    intro leaks account
    cases outcome with
    | refused =>
      obtain rfl := Process.top.inj (Option.some.inj turned)
      exact account
    | accepted csock forked =>
      rw [turn] at turned
      split at turned
      · simp at turned
      · next fresh =>
        cases forked with
        | failed =>
          obtain rfl := Process.top.inj (Option.some.inj turned)
          exact account.leak fresh
        | child => simp at turned
        | parent cpid =>
          obtain rfl := Process.top.inj (Option.some.inj turned)
          rw [Finset.erase_insert fresh]
          exact account

/-- At the top of the loop the parent has the descriptors it came with, and one for every
client whose `fork` failed. -/
theorem mainloop_account (ran : mainloop initial outcomes = some (.top final)) :
    Account final initial (outcomes.countP Outcome.leaks) := by
  have held := foldlM_history turn (.top initial) (fun outcomes process =>
    ∀ reached, process = .top reached → Account reached initial (outcomes.countP Outcome.leaks))
    ?_ ?_ outcomes (.top final) ran
  · exact held final rfl
  · intro reached same
    obtain rfl := Process.top.inj same
    exact Account.refl initial
  · rintro earlier process outcome next _ holds turned reached rfl
    obtain ⟨descriptors, rfl, entered⟩ := turn_top turned
    rw [List.countP_append, List.countP_singleton]
    exact entered _ (holds descriptors rfl)

/-- Whenever the parent is at the top of the loop, its open descriptors are those it entered the
loop with, exactly if `fork` has not failed for a client.

The proof keeps an account of the descriptors. The parent closes the socket of a client it has
forked a child for, and a failed `accept` opens none, so that every turn without a failed `fork`
balances and every other one leaves one descriptor behind. The account is balanced when no turn of
the run is of the second kind. -/
theorem sockets_closed_iff (ran : mainloop initial outcomes = some (.top final)) :
    final = initial ↔ ∀ csock, .accepted csock .failed ∉ outcomes := by
  rw [(mainloop_account ran).balanced_iff, List.countP_eq_zero]
  constructor
  · intro sound csock member
    exact sound _ member rfl
  · intro sound outcome member leaks
    cases outcome with
    | refused => cases leaks
    | accepted csock forked =>
      cases forked with
      | failed => exact sound csock member
      | child => cases leaks
      | parent cpid => cases leaks

/-- Two clients and an `accept` that fails. -/
theorem sockets_closed_iff_two : ({3} : Finset Nat) = {3} ↔
    ∀ csock, Outcome.accepted csock .failed ∉
      [.accepted 4 (.parent 100), .refused, .accepted 4 (.parent 101)] := by
  have ran : mainloop {3} [.accepted 4 (.parent 100), .refused, .accepted 4 (.parent 101)] =
      some (.top {3}) := rfl
  exact sockets_closed_iff ran

/-- A client whose `fork` fails leaves its socket open in the parent. -/
theorem failed_fork_leaks :
    mainloop {3} [.accepted 4 .failed, .accepted 5 .failed] = some (.top {5, 4, 3}) ∧
      ({5, 4, 3} : Finset Nat) ≠ {3} := by
  constructor
  · rfl
  · decide

end Schnitzeljagd.Bulld
