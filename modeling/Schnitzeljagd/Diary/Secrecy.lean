import Schnitzeljagd.Diary.Answers

/-!
# What an unauthenticated client learns of the entries

Two servers with the same draws and different entries are compared. Before a session
is authenticated no handler looks at the entries, and a session is authenticated only
by an acknowledged answer. So the two servers reply alike up to and including the
first acknowledgement.
-/

namespace Schnitzeljagd.Diary

open Foundations.PerlText

section TwoServers

variable (perl : Perl) (draws : Nat → perl.Draw) (entries entries' : List Text)
variable (sends : Nat → Bool)

/-- No handler reads the entries for a session that is not authenticated. -/
theorem call_blind (handler : Handler) (args : List Text) (session : Session perl)
    (unauthenticated : session.authenticated = false) :
    handler.call ⟨perl, draws, entries⟩ sends args session =
      handler.call ⟨perl, draws, entries'⟩ sends args session := by
  cases handler with
  | response => cases args <;> rfl
  | list => simp only [Handler.call, diaryList, unauthenticated]; rfl
  | get => simp only [Handler.call, diaryGet, unauthenticated]; rfl
  | _ => rfl

/-- A session that has not been authenticated takes the same turn over any entries, with the same
reply. The handlers that read entries refuse before they come to them. -/
theorem turn_blind (session : Session perl) (message : Option Text)
    (unauthenticated : session.authenticated = false) :
    turn ⟨perl, draws, entries⟩ sends session message =
      turn ⟨perl, draws, entries'⟩ sends session message := by
  cases fields : words message with
  | nil =>
    exact (turn_blank ⟨perl, draws, entries⟩ sends session message fields).trans
      (turn_blank ⟨perl, draws, entries'⟩ sends session message fields).symm
  | cons cmd args =>
    rw [turn_words ⟨perl, draws, entries⟩ sends session message cmd args fields,
      turn_words ⟨perl, draws, entries'⟩ sends session message cmd args fields, dispatch, dispatch]
    by_cases quit : cmd = latin1 "QUIT"
    · rw [if_pos quit, if_pos quit]
    · rw [if_neg quit, if_neg quit]
      cases diaryHandlers.lookup cmd with
      | none => rfl
      | some handler =>
        exact call_blind perl draws entries entries' sends handler args session unauthenticated

/-- As long as no message but the last is an acknowledged answer, the replies and the state of the
session do not depend on the entries.

By induction on the messages, the last one first. A session that has not been authenticated takes
the same turn over any entries, because the handlers that read them refuse to before they do, and
a session is authenticated only by an acknowledged answer, which by assumption is not among the
messages before the last. -/
theorem diary_blind (received : List (Option Text))
    (unaccepted : ∀ before message after, received = before ++ message :: after → after ≠ [] →
      ¬Acknowledged ⟨perl, draws, entries⟩ sends before message) :
    diary ⟨perl, draws, entries⟩ sends received = diary ⟨perl, draws, entries'⟩ sends received := by
  induction received using List.reverseRecOn with
  | nil => rfl
  | append_singleton received message inductionHypothesis =>
    have earlier : diary ⟨perl, draws, entries⟩ sends received =
        diary ⟨perl, draws, entries'⟩ sends received := by
      apply inductionHypothesis
      intro before other after shape _
      exact unaccepted before other (after ++ [message]) (by simp [shape]) (by simp)
    rw [diary_concat, diary_concat, ← earlier]
    cases opened : diary ⟨perl, draws, entries⟩ sends received with
    | error session => rfl
    | ok session =>
      have unauthenticated : session.authenticated = false := by
        by_contra authenticated
        obtain ⟨before, accepted, after, rfl, acknowledged⟩ :=
          authenticated_acknowledged _ sends received session opened (by simpa using authenticated)
        exact unaccepted before accepted (after ++ [message]) (by simp) (by simp) acknowledged
      exact turn_blind perl draws entries entries' sends session message unauthenticated

end TwoServers

/-- A client that lists the diary before it is accepted. -/
theorem diary_blind_list :
    diary ⟨wholeDraws, exampleServer.draws, []⟩ (fun _ => true)
        [some (latin1 "LIST\n"), some (latin1 "AUTH MzkwNjI2\n")] =
      diary ⟨wholeDraws, exampleServer.draws, [latin1 "Gestern\nBedroht.\n"]⟩ (fun _ => true)
        [some (latin1 "LIST\n"), some (latin1 "AUTH MzkwNjI2\n")] := by
  apply diary_blind wholeDraws exampleServer.draws [] _ _ _
  rintro before message after shape notLast ⟨session, next, resp, _, asked, _⟩
  match before with
  | [] =>
    obtain ⟨rfl, -⟩ := List.cons.inj shape
    exact absurd (show request (some (latin1 "LIST\n")) = .other from rfl) (by simp [asked])
  | [_] => simp_all
  | _ :: _ :: _ => simp_all

end Schnitzeljagd.Diary
