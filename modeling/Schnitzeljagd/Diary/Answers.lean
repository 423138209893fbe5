import Schnitzeljagd.Diary.Challenge

/-!
# Which answers a diary session acknowledges

An answer is acknowledged when it is the expected one for the number the session
holds, whether that number has been issued as a challenge or not. The first result
says for whole runs when no answer is acknowledged without a live challenge. The
second compares two sessions of one server: a response that one of them reveals in a
refusal is good in the other exactly when the two hold numbers with the same text.
-/

namespace Schnitzeljagd.Diary

open Foundations.PerlText Foundations.Base64 Foundations.ChallengeLedger

variable (server : Server) (sends : Nat → Bool)

/-- The answer in a message that follows the messages `before` is acknowledged, and the session is
authenticated from then on. -/
def Acknowledged (before : List (Option Text)) (message : Option Text) : Prop :=
  ∃ session next resp, diary server sends before = .ok session ∧
    request message = .answer resp ∧ turn server sends session message = .ok next ∧
    next.sent = session.sent ++ [ackText (latin1 "RESPONSE " ++ resp)] ∧
    next.authenticated = true

/-- The answer in a message is refused with a reply that names the right one. Such a reply is what
a client may take to another session. -/
def Reveals (before : List (Option Text)) (message : Option Text) (text : Text) : Prop :=
  ∃ session next resp, diary server sends before = .ok session ∧
    request message = .answer resp ∧ turn server sends session message = .ok next ∧
    next.sent = session.sent ++ [nackText (latin1 "RESPONSE " ++ text)] ∧
    next.authenticated = session.authenticated

/-- The answer in a message has no effect on the authentication: it is refused, or the
reply cannot be sent and the session ends as it is. -/
def Refused (before : List (Option Text)) (message : Option Text) : Prop :=
  (∃ text, Reveals server sends before message text) ∨
    ∃ session, diary server sends before = .ok session ∧
      turn server sends session message = .error session

/-- An answer that an open session receives is acknowledged to a live challenge or
refused. -/
def Lawful (before : List (Option Text)) (message : Option Text) : Prop :=
  ∀ session resp, diary server sends before = .ok session → request message = .answer resp →
    (Acknowledged server sends before message ∧ Live (before.map request)) ∨
      Refused server sends before message

/-- A refusal is never taken for an acknowledgement, since the two begin with different bytes. -/
theorem nackText_ne_ackText (text text' : Text) : nackText text ≠ ackText text' := by
  intro same
  exact absurd (List.cons.inj same).1 (by decide)

/-- Refusals with different texts are different. -/
theorem nackText_injective : Function.Injective nackText := by
  intro text text' same
  exact List.append_cancel_left (List.append_cancel_right same)

/-- So are acknowledgements. -/
theorem ackText_injective : Function.Injective ackText := by
  intro text text' same
  exact List.append_cancel_left (List.append_cancel_right same)

/-- What an open session expects as the answer: the Base64 text of the number it holds, as the
ledger of its requests tells it. -/
def expectedAfter (before : List (Option Text)) : Text :=
  expected (server.number (ledger (before.map request)).held)

variable {server sends}
variable {before : List (Option Text)} {message : Option Text} {session : Session server.perl}
variable {resp : Text}

/-- The turn of a session that judges an answer. It replies with the expected text in any case,
draws the next number, and is over if the reply cannot be sent. -/
theorem turn_judges (opened : diary server sends before = .ok session)
    (asked : request message = .answer resp) :
    turn server sends session message =
      if sends session.sent.length then
        .ok { authenticated := session.authenticated || expectedAfter server before = resp
              challenge := .fraction (server.draws session.drawn)
              drawn := session.drawn + 1
              sent := session.sent ++
                [if expectedAfter server before = resp then ackText (latin1 "RESPONSE " ++ resp)
                  else nackText (latin1 "RESPONSE " ++ expectedAfter server before)] }
      else .error session := by
  rw [turn_answer server sends session message resp asked, diaryResponse_cons,
    (diary_follows server sends before session opened).1]
  rfl

/-- An answer is acknowledged exactly when it is the expected one and the
acknowledgement can be sent. -/
theorem acknowledged_iff (opened : diary server sends before = .ok session)
    (asked : request message = .answer resp) :
    Acknowledged server sends before message ↔
      resp = expectedAfter server before ∧ sends session.sent.length = true := by
  constructor
  · rintro ⟨session', next, resp', opened', asked', turned, replied, _⟩
    obtain rfl : session = session' := Except.ok.inj (opened.symm.trans opened')
    obtain rfl : resp = resp' := Request.answer.inj (asked.symm.trans asked')
    rw [turn_judges opened asked] at turned
    split at turned
    · next works =>
      obtain rfl := Except.ok.inj turned
      have reply := List.singleton_inj.mp (List.append_cancel_left replied)
      split at reply
      · next right => exact ⟨right.symm, works⟩
      · exact absurd reply (nackText_ne_ackText _ _)
    · simp at turned
  · rintro ⟨right, works⟩
    have turned := turn_judges opened asked
    rw [if_pos works] at turned
    exact ⟨session, _, resp, opened, asked, turned, by simp [right], by simp [right]⟩

/-- An answer other than the expected one is refused. -/
theorem refused_of_wrong (opened : diary server sends before = .ok session)
    (asked : request message = .answer resp) (wrong : resp ≠ expectedAfter server before) :
    Refused server sends before message := by
  have turned := turn_judges opened asked
  by_cases works : sends session.sent.length = true
  · rw [if_pos works] at turned
    exact Or.inl ⟨expectedAfter server before, session, _, resp, opened, asked, turned,
      by simp [wrong.symm], by simp [wrong.symm]⟩
  · rw [if_neg works] at turned
    exact Or.inr ⟨session, opened, turned⟩

/-- The response named in a refusal is the one the session expected. -/
theorem reveals_expected {text : Text} (revealed : Reveals server sends before message text) :
    text = expectedAfter server before := by
  obtain ⟨session, next, resp, opened, asked, turned, replied, _⟩ := revealed
  rw [turn_judges opened asked] at turned
  split at turned
  · obtain rfl := Except.ok.inj turned
    have reply := List.singleton_inj.mp (List.append_cancel_left replied)
    split at reply
    · exact absurd reply.symm (nackText_ne_ackText _ _)
    · exact (List.append_cancel_left (nackText_injective reply)).symm
  · simp at turned

/-- Acknowledging and refusing exclude each other. -/
theorem not_acknowledged_of_refused (refused : Refused server sends before message) :
    ¬Acknowledged server sends before message := by
  rintro ⟨session, next, resp, opened, _, turned, replied, _⟩
  rcases refused with ⟨text, session', next', _, opened', _, turned', replied', _⟩ |
    ⟨session', opened', left⟩
  · obtain rfl : session = session' := Except.ok.inj (opened.symm.trans opened')
    obtain rfl : next = next' := Except.ok.inj (turned.symm.trans turned')
    have reply := List.singleton_inj.mp (List.append_cancel_left (replied'.symm.trans replied))
    exact nackText_ne_ackText _ _ reply
  · obtain rfl : session = session' := Except.ok.inj (opened.symm.trans opened')
    simp [left] at turned

/-- One turn authenticates a session only by acknowledging an answer. -/
theorem turn_authenticates {next : Session server.perl}
    (opened : diary server sends before = .ok session)
    (turned : turn server sends session message = .ok next)
    (authenticated : next.authenticated = true) :
    session.authenticated = true ∨ Acknowledged server sends before message := by
  cases asked : request message with
  | ask =>
    rw [turn_ask server sends session message asked, diaryChallenge] at turned
    exact Or.inl ((send_kept sends _ _ _ turned).1.symm.trans authenticated)
  | answer resp =>
    by_cases right : resp = expectedAfter server before
    · rw [turn_judges opened asked] at turned
      split at turned
      · next works => exact Or.inr ((acknowledged_iff opened asked).mpr ⟨right, works⟩)
      · simp at turned
    · rw [turn_judges opened asked] at turned
      split at turned
      · obtain rfl := Except.ok.inj turned
        exact Or.inl (by simpa [Ne.symm right] using authenticated)
      · simp at turned
  | other =>
    have kept := turn_other server sends session next message asked turned
    exact Or.inl (kept.1.symm.trans authenticated)

/-- An open session is authenticated only if one of its messages was acknowledged. Induction over
the messages: the turn that authenticates it first is the one. -/
theorem authenticated_acknowledged (server : Server) (sends : Nat → Bool)
    (received : List (Option Text)) (session : Session server.perl)
    (opened : diary server sends received = .ok session)
    (authenticated : session.authenticated = true) :
    ∃ before message after, received = before ++ message :: after ∧
      Acknowledged server sends before message := by
  induction received using List.reverseRecOn generalizing session with
  | nil =>
    simp only [diary, List.foldlM_nil, bind_pure] at opened
    have fresh := (send_kept sends _ _ _ opened).1
    rw [authenticated] at fresh
    exact absurd fresh.symm Bool.false_ne_true
  | append_singleton received message inductionHypothesis =>
    obtain ⟨earlier, openedEarlier, turned⟩ := (diary_open server sends _ _ _).mp opened
    obtain already | acknowledged := turn_authenticates openedEarlier turned authenticated
    · obtain ⟨before, accepted, after, rfl, acknowledged⟩ :=
        inductionHypothesis earlier openedEarlier already
      exact ⟨before, accepted, after ++ [message], by simp, acknowledged⟩
    · exact ⟨received, message, [], rfl, acknowledged⟩

/-! ## Answers without a challenge -/

/-- In a run, every answer is acknowledged to a live challenge or refused exactly when no answer
given without a live challenge is the right one for the number the session holds then, be it the
one drawn at start-up or the one drawn after the last answer.

The session always holds a number, and the ledger of the requests says which draw it comes from.
An answer is acknowledged exactly if it is the right one for that number and the acknowledgement
can be sent, whether a challenge is live or not. What remains is to compare the two cases with
what the law allows. -/
theorem answers_lawful_iff (server : Server) (sends : Nat → Bool) (received : List (Option Text)) :
    (∀ before message, before ++ [message] <+: received → Lawful server sends before message) ↔
      ∀ before message session resp, before ++ [message] <+: received →
        diary server sends before = .ok session → request message = .answer resp →
        ¬Live (before.map request) →
        resp ≠ expected (server.number (ledger (before.map request)).held) ∨
          sends session.sent.length = false := by
  constructor
  · intro lawful before message session resp inside opened asked unasked
    by_contra! escape
    obtain ⟨right, works⟩ := escape
    have acknowledged : Acknowledged server sends before message :=
      (acknowledged_iff opened asked).mpr ⟨right, by simpa using works⟩
    obtain ⟨_, live⟩ | refused := lawful before message inside session resp opened asked
    · exact unasked live
    · exact not_acknowledged_of_refused refused acknowledged
  · intro unguessed before message inside session resp opened asked
    by_cases right : resp = expectedAfter server before
    · by_cases works : sends session.sent.length = true
      · refine Or.inl ⟨(acknowledged_iff opened asked).mpr ⟨right, works⟩, ?_⟩
        by_contra unasked
        obtain wrong | fails := unguessed before message session resp inside opened asked unasked
        · exact wrong right
        · simp [works] at fails
      · have turned := turn_judges opened asked
        rw [if_neg works] at turned
        exact Or.inr (Or.inr ⟨session, opened, turned⟩)
    · exact Or.inr (refused_of_wrong opened asked right)

/-- A Perl with 64-bit integers whose draws happen to be whole numbers. -/
def wholeDraws : Perl where
  Draw := Fin 100000000
  int draw := draw
  int_lt := Fin.isLt
  succText draw := decimal (draw + 1)
  uvBits := 64
  uvBits_eq := Or.inr rfl

/-- A server without entries that drew 390625 at start-up. -/
def exampleServer : Server where
  perl := wholeDraws
  draws index := Fin.ofNat _ (390625 * (index + 1))
  entries := []

/-- The example server expects the Base64 text of 390626 from its first message on. -/
theorem exampleServer_expects : latin1 "MzkwNjI2" = expectedAfter exampleServer [] := by
  decide +kernel

/-- The start-up answer is acknowledged in a fresh session, which has asked for nothing. -/
theorem exampleServer_acknowledges :
    Acknowledged exampleServer (fun _ => true) [] (some (latin1 "RESPONSE MzkwNjI2\n")) := by
  have asked : request (some (latin1 "RESPONSE MzkwNjI2\n")) = .answer (latin1 "MzkwNjI2") := rfl
  exact (acknowledged_iff rfl asked).mpr ⟨exampleServer_expects, rfl⟩

/-- The first message of a session is acknowledged though no challenge was issued. -/
theorem start_up_answer_acknowledged :
    Acknowledged exampleServer (fun _ => true) [] (some (latin1 "RESPONSE MzkwNjI2\n")) ∧
      ¬Live (([] : List (Option Text)).map request) ∧
      ¬Lawful exampleServer (fun _ => true) [] (some (latin1 "RESPONSE MzkwNjI2\n")) := by
  refine ⟨exampleServer_acknowledges, not_live_nil, ?_⟩
  intro lawful
  obtain ⟨_, live⟩ | refused := lawful _ (latin1 "MzkwNjI2") rfl rfl
  · exact not_live_nil live
  · exact not_acknowledged_of_refused refused exampleServer_acknowledges

/-! ## What another session has revealed -/

/-- A response that one session of a server reveals is refused by another session of the same
server exactly when the texts of the two numbers differ or the acknowledgement cannot be sent.

What is revealed is the expected answer of the first session, and an answer is acknowledged if it
is the one expected by the second. Since Base64 without its last newline can be read back, the two
are equal exactly if the texts of the successors are. -/
theorem replay_refused_iff (server : Server) (sends sends' : Nat → Bool)
    (before before' : List (Option Text)) (message message' : Option Text) (text : Text)
    (session' : Session server.perl) (revealed : Reveals server sends before message text)
    (opened : diary server sends' before' = .ok session')
    (replayed : request message' = .answer text) :
    ¬Acknowledged server sends' before' message' ↔
      (server.number (ledger (before.map request)).held).succText ≠
          (server.number (ledger (before'.map request)).held).succText ∨
        sends' session'.sent.length = false := by
  have sameAnswer : text = expectedAfter server before' ↔
      (server.number (ledger (before.map request)).held).succText =
        (server.number (ledger (before'.map request)).held).succText := by
    rw [reveals_expected revealed]
    exact chomp_encodeBase64_injective.eq_iff
  rw [acknowledged_iff opened replayed, sameAnswer, not_and_or, Bool.not_eq_true]

/-- A wrong answer makes the example server name the one it expected. -/
theorem exampleServer_reveals :
    Reveals exampleServer (fun _ => true) [] (some (latin1 "RESPONSE x\n"))
      (latin1 "MzkwNjI2") := by
  have asked : request (some (latin1 "RESPONSE x\n")) = .answer (latin1 "x") := rfl
  obtain ⟨session, opened⟩ : ∃ session, diary exampleServer (fun _ => true) [] = .ok session :=
    ⟨_, rfl⟩
  have wrong : expectedAfter exampleServer [] ≠ latin1 "x" := by decide +kernel
  exact ⟨session, _, latin1 "x", opened, asked, turn_judges opened asked,
    by rw [if_neg wrong, ← exampleServer_expects], by simp [wrong]⟩

/-- A response revealed at start-up, sent again after a challenge. The second session holds
another number by then, and refuses it. -/
theorem replay_refused_after_challenge :
    ∃ session', diary exampleServer (fun _ => true) [some (latin1 "CHALLENGE\n")] = .ok session' ∧
      (¬Acknowledged exampleServer (fun _ => true) [some (latin1 "CHALLENGE\n")]
          (some (latin1 "AUTH MzkwNjI2\n")) ↔
        decimal 390626 ≠ decimal 200000001 ∨ true = false) :=
  ⟨_, rfl, replay_refused_iff exampleServer _ _ [] _ _ _ _ _ exampleServer_reveals rfl rfl⟩

/-- The start-up answer, refused and revealed in one session, opens another one. -/
theorem start_up_answer_replayed :
    Reveals exampleServer (fun _ => true) [] (some (latin1 "RESPONSE x\n")) (latin1 "MzkwNjI2") ∧
      Acknowledged exampleServer (fun _ => true) [] (some (latin1 "RESPONSE MzkwNjI2\n")) :=
  ⟨exampleServer_reveals, exampleServer_acknowledges⟩

end Schnitzeljagd.Diary
