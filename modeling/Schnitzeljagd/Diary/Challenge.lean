import Schnitzeljagd.Diary.Server
import Schnitzeljagd.Foundations.ChallengeLedger
import Schnitzeljagd.Foundations.Loops

/-!
# Challenges and answers of a diary session

A session keeps a ledger: which draw its challenge variable comes from is determined
by the commands it received. From this follows when an answer is acknowledged. The
session never asks whether the number it judges against has been issued, so it also
judges against the number drawn at start-up and against the one drawn after an answer.
Both are the same in all sessions of a server with the same ledger.
-/

namespace Schnitzeljagd.Diary

open Foundations.PerlText Foundations.LineFile Foundations.Base64 Foundations.ChallengeLedger
open Foundations.Loops

/-- The command and arguments of a received message. -/
def words : Option Text → List Text
  | none => []
  | some str => split (chomp str)

/-- What a received message means for the challenge: a new one, an answer to it, or nothing. -/
def request (message : Option Text) : Request Text :=
  match words message with
  | [] => .other
  | cmd :: args =>
    if cmd = latin1 "CHALLENGE" then .ask
    else if cmd = latin1 "RESPONSE" ∨ cmd = latin1 "AUTH" then
      match args with
      | [] => .other
      | resp :: _ => .answer resp
    else .other

/-- The value of the challenge variable that a ledger stands for. -/
def Server.number (server : Server) : Held → Number server.perl
  | .initial => .integer (server.perl.int (server.draws 0))
  | .issued draw => .integer (challengeValue server.perl (server.draws draw))
  | .spent draw => .fraction (server.draws draw)

/-- The session has the number and the draws of the ledger, so the ledger says what a later answer
is judged against. -/
def Follows (server : Server) (session : Session server.perl) (ledger : Ledger) : Prop :=
  session.challenge = server.number ledger.held ∧ session.drawn = ledger.drawn

/-- The next session differs from this one at most in what it has sent. This is what all other
commands do. -/
def Kept {perl : Perl} (session next : Session perl) : Prop :=
  next.authenticated = session.authenticated ∧ next.challenge = session.challenge ∧
    next.drawn = session.drawn

/-! ## What one message does -/

section Sending

variable {perl : Perl} (sends : Nat → Bool)

/-- Doing nothing keeps everything. -/
theorem Kept.refl (session : Session perl) : Kept session session := ⟨rfl, rfl, rfl⟩

/-- One command after the other keeps what both keep. -/
theorem Kept.trans {first second third : Session perl} (before : Kept first second)
    (after : Kept second third) : Kept first third :=
  ⟨after.1.trans before.1, after.2.1.trans before.2.1, after.2.2.trans before.2.2⟩

/-- A message that can be sent is added to what was sent, and nothing else happens. -/
theorem send_ok (text : Text) (session next : Session perl) :
    send sends text session = .ok next ↔
      sends session.sent.length = true ∧
        next = { session with sent := session.sent ++ [text] } := by
  rw [send]
  by_cases works : sends session.sent.length = true
  · rw [if_pos works]
    simp [works, eq_comm]
  · rw [if_neg works]
    simp [works]

/-- Sending keeps the challenge. -/
theorem send_kept (text : Text) (session next : Session perl)
    (sent : send sends text session = .ok next) : Kept session next := by
  obtain ⟨_, rfl⟩ := (send_ok sends text session next).mp sent
  exact ⟨rfl, rfl, rfl⟩

end Sending

section Turn

variable (server : Server) (sends : Nat → Bool)

/-- So does sending a whole list. -/
theorem diaryList_kept (session next : Session server.perl)
    (listed : diaryList server sends session = .ok next) : Kept session next := by
  rw [diaryList] at listed
  split at listed
  · exact send_kept sends _ _ _ listed
  · refine foldlM_keeps _ (Kept session) ?_ _ _ _ (Kept.refl session) listed
    rintro state ⟨msg, i⟩ next kept sent
    exact kept.trans (send_kept sends _ _ _ sent)

/-- So does sending an entry or a complaint. -/
theorem diaryGet_kept (args : List Text) (session next : Session server.perl)
    (got : diaryGet server sends args session = .ok next) : Kept session next := by
  unfold diaryGet at got
  split at got
  · exact send_kept sends _ _ _ got
  · split at got
    · exact send_kept sends _ _ _ got
    · split at got <;> exact send_kept sends _ _ _ got

/-- A judged answer is acknowledged if it is the expected one and refused otherwise,
and the number is replaced in both cases. -/
theorem diaryResponse_cons (resp : Text) (rest : List Text) (session : Session server.perl) :
    diaryResponse server sends (resp :: rest) session =
      if sends session.sent.length then
        .ok { authenticated := session.authenticated || expected session.challenge = resp
              challenge := .fraction (server.draws session.drawn)
              drawn := session.drawn + 1
              sent := session.sent ++
                [if expected session.challenge = resp then ackText (latin1 "RESPONSE " ++ resp)
                  else nackText (latin1 "RESPONSE " ++ expected session.challenge)] }
      else .error session := by
  rw [diaryResponse]
  by_cases right : expected session.challenge = resp
  · subst right
    by_cases works : sends session.sent.length = true
    · simp [ack, send, works, Except.map, bind, Except.bind, pure, Except.pure]
    · simp [ack, send, works, Except.map, bind, Except.bind]
  · by_cases works : sends session.sent.length = true
    · simp [nack, send, works, right, bind, Except.bind, pure, Except.pure]
    · simp [nack, send, works, right, bind, Except.bind]

/-- A handler other than those for challenges and answers keeps the challenge, and so does that
for answers without an answer. -/
theorem call_kept (handler : Handler) (args : List Text) (session next : Session server.perl)
    (notChallenge : handler ≠ .challenge) (noAnswer : handler = .response → args = [])
    (called : handler.call server sends args session = .ok next) : Kept session next := by
  cases handler with
  | help => exact send_kept sends _ _ _ called
  | challenge => exact absurd rfl notChallenge
  | response =>
    rw [noAnswer rfl] at called
    exact send_kept sends _ _ _ called
  | list => exact diaryList_kept server sends _ _ called
  | get => exact diaryGet_kept server sends args _ _ called
  | entropia => exact send_kept sends _ _ _ called
  | system => exact send_kept sends _ _ _ called
  | gehsterben => exact send_kept sends _ _ _ called

/-- Nothing has no fields. -/
theorem split_nil : split [] = [] := by
  simp [split, allFields, List.rdropWhile]

/-- A message with words in it is dispatched by its first word. -/
theorem turn_words (session : Session server.perl) (message : Option Text) (cmd : Text)
    (args : List Text) (fields : words message = cmd :: args) :
    turn server sends session message = dispatch server sends session (cmd :: args) := by
  match message with
  | none => simp [words] at fields
  | some [] => simp [words, chomp, split_nil] at fields
  | some (byte :: str) => rw [turn, if_neg (by simp), ← fields, words]

/-- A message without words does nothing or ends the session: the latter if nothing was received
at all. -/
theorem turn_blank (session : Session server.perl) (message : Option Text)
    (blank : words message = []) :
    turn server sends session message =
      if message = none ∨ message = some [] then .error session else .ok session := by
  match message with
  | none => rfl
  | some [] => rfl
  | some (byte :: str) =>
    rw [words] at blank
    rw [turn, if_neg (by simp), blank, if_neg (by simp)]
    rfl

/-- A message that asks for a challenge is handled by the handler for challenges. -/
theorem turn_ask (session : Session server.perl) (message : Option Text)
    (asked : request message = .ask) :
    turn server sends session message = diaryChallenge server sends session := by
  unfold request at asked
  split at asked
  · simp at asked
  · next cmd args fields =>
    split at asked
    · next same =>
      rw [turn_words server sends session message cmd args fields, same]
      rfl
    · split at asked
      · cases args <;> simp at asked
      · simp at asked

/-- A message with an answer is handled by the handler for answers. -/
theorem turn_answer (session : Session server.perl) (message : Option Text) (resp : Text)
    (asked : request message = .answer resp) :
    turn server sends session message = diaryResponse server sends [resp] session := by
  unfold request at asked
  split at asked
  · simp at asked
  · next cmd args fields =>
    split at asked
    · simp at asked
    · split at asked
      · next either =>
        cases args with
        | nil => simp at asked
        | cons given rest =>
          obtain rfl : given = resp := Request.answer.inj asked
          rw [turn_words server sends session message cmd _ fields]
          rcases either with rfl | rfl <;> rfl
      · simp at asked

/-- The table leads from the words of the protocol to their handlers. -/
theorem lookup_cases (cmd : Text) (handler : Handler)
    (found : diaryHandlers.lookup cmd = some handler) :
    (handler = .challenge → cmd = latin1 "CHALLENGE") ∧
      (handler = .response → cmd = latin1 "RESPONSE" ∨ cmd = latin1 "AUTH") := by
  have table : ∀ entry ∈ diaryHandlers,
      (entry.2 = .challenge → entry.1 = latin1 "CHALLENGE") ∧
        (entry.2 = .response → entry.1 = latin1 "RESPONSE" ∨ entry.1 = latin1 "AUTH") := by
    decide
  obtain ⟨before, after, whole, _⟩ := List.lookup_eq_some_iff.mp found
  exact table (cmd, handler) (by rw [whole]; exact List.mem_append_right _ List.mem_cons_self)

/-- Any other message keeps the challenge. -/
theorem turn_other (session next : Session server.perl) (message : Option Text)
    (unrelated : request message = .other)
    (turned : turn server sends session message = .ok next) : Kept session next := by
  cases fields : words message with
  | nil =>
    rw [turn_blank server sends session message fields] at turned
    split at turned
    · simp at turned
    · obtain rfl := Except.ok.inj turned
      exact Kept.refl session
  | cons cmd args =>
    rw [turn_words server sends session message cmd args fields, dispatch] at turned
    unfold request at unrelated
    rw [fields] at unrelated
    split at turned
    · simp at turned
    · split at turned
      · next handler found =>
        obtain ⟨challenge, response⟩ := lookup_cases cmd handler found
        refine call_kept server sends handler args session next ?_ ?_ turned
        · intro same
          simp [challenge same] at unrelated
        · intro same
          by_cases ask : cmd = latin1 "CHALLENGE"
          · simp [ask] at unrelated
          · simp only [if_neg ask, if_pos (response same)] at unrelated
            cases args with
            | nil => rfl
            | cons resp rest => simp at unrelated
      · exact send_kept sends _ _ _ turned

end Turn

/-! ## What a run does -/

section Run

variable (server : Server) (sends : Nat → Bool)

/-- A session that receives one message more takes one turn more. -/
theorem diary_concat (received : List (Option Text)) (message : Option Text) :
    diary server sends (received ++ [message]) =
      diary server sends received >>= fun session => turn server sends session message := by
  simp only [diary, List.foldlM_append, List.foldlM_cons, List.foldlM_nil, bind_pure, bind_assoc]

/-- An open session was open before its last message, since nothing opens a session again. -/
theorem diary_open (received : List (Option Text)) (message : Option Text)
    (next : Session server.perl) :
    diary server sends (received ++ [message]) = .ok next ↔
      ∃ session, diary server sends received = .ok session ∧
        turn server sends session message = .ok next := by
  rw [diary_concat, bind_ok]

/-- One turn follows the ledger, one case for each kind of request. -/
theorem turn_follows (session next : Session server.perl) (message : Option Text)
    (ledger : Ledger) (follows : Follows server session ledger)
    (turned : turn server sends session message = .ok next) :
    Follows server next (ledger.enter (request message)) := by
  obtain ⟨sameNumber, sameDraws⟩ := follows
  cases asked : request message with
  | ask =>
    rw [turn_ask server sends session message asked, diaryChallenge] at turned
    obtain ⟨_, challenge, drawn⟩ := send_kept sends _ _ _ turned
    exact ⟨by rw [challenge, sameDraws]; rfl, by rw [drawn, sameDraws]; rfl⟩
  | answer resp =>
    rw [turn_answer server sends session message resp asked, diaryResponse_cons] at turned
    split at turned
    · obtain rfl := Except.ok.inj turned
      exact ⟨by rw [sameDraws]; rfl, by rw [sameDraws]; rfl⟩
    · simp at turned
  | other =>
    obtain ⟨_, challenge, drawn⟩ := turn_other server sends session next message asked turned
    exact ⟨challenge.trans sameNumber, drawn.trans sameDraws⟩

/-- The number an open session holds is the one its ledger says, after any messages. By induction
on the messages from the back. -/
theorem diary_follows (received : List (Option Text)) (session : Session server.perl)
    (opened : diary server sends received = .ok session) :
    Follows server session (ledger (received.map request)) := by
  induction received using List.reverseRecOn generalizing session with
  | nil =>
    simp only [diary, List.foldlM_nil, bind_pure] at opened
    obtain ⟨_, challenge, drawn⟩ := send_kept sends _ _ _ opened
    exact ⟨challenge, drawn⟩
  | append_singleton received message inductionHypothesis =>
    obtain ⟨before, openedBefore, turned⟩ := (diary_open server sends _ _ _).mp opened
    rw [List.map_append, List.map_singleton, ledger_concat]
    exact turn_follows server sends before session message _
      (inductionHypothesis before openedBefore) turned

end Run

end Schnitzeljagd.Diary
