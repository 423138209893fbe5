import Mathlib.Data.List.Basic
import Mathlib.Data.List.Induction

/-!
# Challenges and the draws behind them

A party that issues challenges and judges answers holds one random number at a time.
It starts with a number drawn beforehand, draws a new one when it is asked for a
challenge, and draws another one after it has judged an answer. The ledger of such a
party is a function of the requests it received: it records by the position of its
draw which number is held, and whether the other party has been told it.

A challenge is live when the party was asked for one and has judged no answer since. No
draw outlives an answer: the number held afterwards comes from a draw made since.
-/

namespace Foundations.ChallengeLedger

/-- What a received message means to the party that issues challenges. -/
inductive Request (Answer : Type) where
  | ask
  | answer (given : Answer)
  | other

/-- The number held: the one drawn beforehand, one issued as a challenge, or one drawn after an
answer was judged. Each names the draw it comes from. -/
inductive Held where
  | initial
  | issued (draw : Nat)
  | spent (draw : Nat)

/-- What can be said of the numbers from the requests alone: the number held, and how many have
been drawn. -/
structure Ledger where
  held : Held
  /-- The number of draws made, the one made beforehand included. -/
  drawn : Nat

variable {Answer : Type}

/-- What a request does to the ledger. Asking and answering draw a number each, and anything else
leaves it as it is. -/
def Ledger.enter (ledger : Ledger) : Request Answer → Ledger
  | .ask => ⟨.issued ledger.drawn, ledger.drawn + 1⟩
  | .answer _ => ⟨.spent ledger.drawn, ledger.drawn + 1⟩
  | .other => ledger

/-- The ledger after a sequence of requests, beginning with the number drawn beforehand. -/
def ledger (requests : List (Request Answer)) : Ledger :=
  requests.foldl Ledger.enter ⟨.initial, 1⟩

/-- A challenge was asked for and no answer has been judged since. -/
def Live (requests : List (Request Answer)) : Prop :=
  ∃ before after, requests = before ++ Request.ask :: after ∧
    ∀ given, Request.answer given ∉ after

/-- The last request is entered into the ledger of those before it. -/
theorem ledger_concat (requests : List (Request Answer)) (request : Request Answer) :
    ledger (requests ++ [request]) = (ledger requests).enter request := by
  rw [ledger, List.foldl_append, ledger]
  rfl

/-- At the beginning there is no challenge. -/
theorem not_live_nil : ¬Live ([] : List (Request Answer)) := by
  rintro ⟨before, after, shape, _⟩
  simp at shape

/-! ## Draws and answers -/

/-- The position of the draw behind the number held, among all draws that are made. -/
def Held.draw : Held → Nat
  | initial => 0
  | issued draw => draw
  | spent draw => draw

/-- The number held comes from a draw that has been made. -/
theorem draw_lt_drawn (requests : List (Request Answer)) :
    (ledger requests).held.draw < (ledger requests).drawn := by
  induction requests using List.reverseRecOn with
  | nil => exact Nat.zero_lt_one
  | append_singleton requests request inductionHypothesis =>
    rw [ledger_concat]
    cases request with
    | ask => exact Nat.lt_succ_self _
    | answer given => exact Nat.lt_succ_self _
    | other => exact inductionHypothesis

/-- Requests that neither ask nor answer leave the ledger as it is. -/
theorem ledger_append_other (requests after : List (Request Answer))
    (quiet : ∀ request ∈ after, request = .other) : ledger (requests ++ after) = ledger requests := by
  induction after using List.reverseRecOn with
  | nil => rw [List.append_nil]
  | append_singleton after request inductionHypothesis =>
    rw [← List.append_assoc, ledger_concat, quiet request (by simp)]
    apply inductionHypothesis
    intro earlier member
    exact quiet earlier (List.mem_append_left _ member)

/-- After an answer the number held comes from a draw that had not been made when the
answer was judged. -/
theorem drawn_le_draw (before after : List (Request Answer)) (given : Answer) :
    (ledger before).drawn ≤ (ledger (before ++ .answer given :: after)).held.draw := by
  have drawn (requests : List (Request Answer)) :
      (ledger before).drawn ≤ (ledger (before ++ requests)).drawn := by
    induction requests using List.reverseRecOn with
    | nil => simp
    | append_singleton requests request inductionHypothesis =>
      rw [← List.append_assoc, ledger_concat]
      cases request with
      | ask => exact Nat.le_succ_of_le inductionHypothesis
      | answer other => exact Nat.le_succ_of_le inductionHypothesis
      | other => exact inductionHypothesis
  induction after using List.reverseRecOn with
  | nil =>
    rw [ledger_concat]
    exact Nat.le_refl _
  | append_singleton after request inductionHypothesis =>
    rw [← List.cons_append, ← List.append_assoc, ledger_concat]
    cases request with
    | ask => exact drawn (.answer given :: after)
    | answer other => exact drawn (.answer given :: after)
    | other => exact inductionHypothesis

end Foundations.ChallengeLedger
