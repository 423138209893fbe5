import Schnitzeljagd.Diary.Answers

/-!
# Attempts at an answer

Two results about the answers that clients send. A client that follows the recipe in
the source works from the printed text of its challenge, and the server from the number
behind it; the answer is acknowledged all the same, whatever other commands came in
between. And every attempt is judged against a number of its own: the draw behind it
was made after the attempt before.
-/

namespace Schnitzeljagd.Diary

open Foundations.PerlText Foundations.LineFile Foundations.Base64 Foundations.ChallengeLedger

/-! ## The recipe -/

/-- The recipe for a printed number, `chomp; print encode_base64($_ + 1)`, with the
newline at the end left out. -/
def recipe (printed : Text) : Text :=
  chomp (encodeBase64 (decimal (numify (chomp printed) + 1).num.toNat))

example : recipe (latin1 "390625") = latin1 "MzkwNjI2" := by decide +kernel

/-- A text without a newline has none to lose. -/
theorem chomp_self (text : Text) (oneLine : newline ∉ text) : chomp text = text := by
  rw [chomp, if_neg]
  intro last
  exact oneLine (List.mem_of_getLast? last)

/-- The recipe gives what the source means by it. -/
theorem recipe_decimal (number : Nat) :
    recipe (decimal number) = chomp (encodeBase64 (decimal (number + 1))) := by
  have oneLine : newline ∉ decimal number := by
    intro member
    exact absurd (decimal_isDigit number newline member) (by decide)
  have successor : ((number : Rat) + 1).num = ((number + 1 : Nat) : Int) := by
    rw [← Nat.cast_succ]
    exact Rat.num_natCast (number + 1)
  rw [recipe, chomp_self _ oneLine, numify_decimal, successor, Int.toNat_natCast]

/-- The answer to a number that is not too long is a word. -/
theorem recipe_word (number : Nat) (short : number + 1 < 10 ^ 57) :
    recipe (decimal number) ≠ [] ∧ ∀ byte ∈ recipe (decimal number), isSpace byte = false := by
  have nonempty := decimal_nonempty (number + 1)
  rw [recipe_decimal,
    chomp_encodeBase64_line _ nonempty (decimal_length _ 57 (by decide) short)]
  exact ⟨plain_nonempty _ nonempty, plain_notSpace _⟩

/-- A challenge has few enough digits for its successor to be encoded in one line of Base64. -/
theorem challengeValue_short (perl : Perl) (draw : perl.Draw) :
    challengeValue perl draw + 1 < 10 ^ 57 := by
  have drawn := perl.int_lt draw
  have wrapped : challengeValue perl draw ≤ perl.int draw * 256 := Nat.mod_le _ _
  omega

/-- A message of the word `RESPONSE` or `AUTH` and the recipe's answer, with any white
space between and behind. -/
theorem request_recipe (cmd gap tail : Text) (number : Nat) (short : number + 1 < 10 ^ 57)
    (answers : cmd = latin1 "RESPONSE" ∨ cmd = latin1 "AUTH") (apart : gap ≠ [])
    (spaces : ∀ byte ∈ gap, isSpace byte = true) (spaces' : ∀ byte ∈ tail, isSpace byte = true) :
    request (some (cmd ++ gap ++ recipe (decimal number) ++ tail)) =
      .answer (recipe (decimal number)) := by
  obtain ⟨nonempty, real'⟩ := recipe_word number short
  have real : ∀ byte ∈ cmd, isSpace byte = false := by
    rcases answers with rfl | rfl <;> decide
  have fields : words (some (cmd ++ gap ++ recipe (decimal number) ++ tail)) =
      [cmd, recipe (decimal number)] := by
    rw [words, split_chomp]
    exact split_two_words cmd _ gap tail nonempty apart real real' spaces spaces'
  have notAsk : cmd ≠ latin1 "CHALLENGE" := by
    rcases answers with rfl | rfl <;> decide
  rw [request, fields]
  simp only [if_neg notAsk, if_pos answers]

section Issued

variable {server : Server} {sends : Nat → Bool} {earlier after : List (Option Text)}
variable {asking : Option Text} {asked session : Session server.perl} {number : Nat}

/-- The number in the reply to a challenge is the one from the next draw. -/
theorem challenge_number (asks : request asking = .ask)
    (opened : diary server sends (earlier ++ [asking]) = .ok asked)
    (replied : asked.sent.getLast? = some (ackText (latin1 "CHALLENGE " ++ decimal number))) :
    number = challengeValue server.perl (server.draws (ledger (earlier.map request)).drawn) := by
  obtain ⟨before, openedBefore, turned⟩ := (diary_open server sends _ _ _).mp opened
  have drawn := (diary_follows server sends earlier before openedBefore).2
  rw [turn_ask server sends before asking asks, diaryChallenge] at turned
  obtain ⟨_, rfl⟩ := (send_ok sends _ _ _).mp turned
  rw [List.getLast?_concat] at replied
  have texts := List.append_cancel_left (ackText_injective (Option.some.inj replied))
  rw [← decimal_injective texts, drawn]

/-- As long as no challenge and no answer follows, the session expects the answer to
that number. -/
theorem expectedAfter_challenge (asks : request asking = .ask)
    (quiet : ∀ message ∈ after, request message = .other) :
    expectedAfter server (earlier ++ asking :: after) =
      expected (.integer (challengeValue server.perl
        (server.draws (ledger (earlier.map request)).drawn)) : Number server.perl) := by
  have quietRequests : ∀ entry ∈ after.map request, entry = .other := List.forall_mem_map.mpr quiet
  rw [expectedAfter, List.append_cons, List.map_append,
    ledger_append_other _ _ quietRequests, List.map_append, List.map_singleton, asks, ledger_concat]
  rfl

end Issued

/-- A client that has got a challenge and has neither asked for another one nor had an answer
judged since is let in with the answer of the recipe.

The reply to the challenge shows the number that the session has drawn. Requests of any other kind
leave it in place, whatever their replies are, so that the number is still held when the answer
comes. The answer of the recipe is one word without white space, so that the split of the message
gives it back unchanged, and it is the text that the server compares it with. -/
theorem recipe_acknowledged (server : Server) (sends : Nat → Bool)
    (earlier after : List (Option Text)) (asking : Option Text)
    (asked session : Session server.perl) (number : Nat) (cmd gap tail : Text)
    (asks : request asking = .ask)
    (opened : diary server sends (earlier ++ [asking]) = .ok asked)
    (replied : asked.sent.getLast? = some (ackText (latin1 "CHALLENGE " ++ decimal number)))
    (quiet : ∀ message ∈ after, request message = .other)
    (still : diary server sends (earlier ++ asking :: after) = .ok session)
    (works : sends session.sent.length = true)
    (answers : cmd = latin1 "RESPONSE" ∨ cmd = latin1 "AUTH") (apart : gap ≠ [])
    (spaces : ∀ byte ∈ gap, isSpace byte = true) (spaces' : ∀ byte ∈ tail, isSpace byte = true) :
    recipe (decimal number) = chomp (encodeBase64 (decimal (number + 1))) ∧
      ∃ next, turn server sends session
          (some (cmd ++ gap ++ recipe (decimal number) ++ tail)) = .ok next ∧
        next.sent =
          session.sent ++ [ackText (latin1 "RESPONSE " ++ recipe (decimal number))] ∧
        next.authenticated = true := by
  have value := challenge_number asks opened replied
  have short : number + 1 < 10 ^ 57 := by
    rw [value]
    exact challengeValue_short server.perl _
  have answer := request_recipe cmd gap tail number short answers apart spaces spaces'
  have right : expectedAfter server (earlier ++ asking :: after) = recipe (decimal number) := by
    rw [expectedAfter_challenge asks quiet, ← value, recipe_decimal]
    rfl
  have turned := turn_judges still answer
  rw [if_pos works] at turned
  refine ⟨recipe_decimal number, _, turned, ?_, ?_⟩
  · rw [if_pos right]
  · simp [right]

/-- After a challenge, a request for help and a response without an argument. -/
theorem recipe_acknowledged_auth :
    recipe (decimal 200000000) = chomp (encodeBase64 (decimal (200000000 + 1))) ∧
      ∃ session, diary exampleServer (fun _ => true)
          ([] ++ some (latin1 "CHALLENGE\n") ::
            [some (latin1 "HELP\n"), some (latin1 "RESPONSE\n")]) = .ok session ∧
        ∃ next, turn exampleServer (fun _ => true) session
            (some (latin1 "AUTH" ++ latin1 " " ++ recipe (decimal 200000000) ++ latin1 "\r\n")) =
              .ok next ∧
          next.sent =
            session.sent ++ [ackText (latin1 "RESPONSE " ++ recipe (decimal 200000000))] ∧
          next.authenticated = true := by
  have quiet : ∀ message ∈ [some (latin1 "HELP\n"), some (latin1 "RESPONSE\n")],
      request message = .other := by
    intro message member
    simp only [List.mem_cons, List.not_mem_nil, or_false] at member
    rcases member with rfl | rfl <;> rfl
  have acknowledged := recipe_acknowledged exampleServer (fun _ => true) []
    [some (latin1 "HELP\n"), some (latin1 "RESPONSE\n")] (some (latin1 "CHALLENGE\n")) _ _ 200000000
    (latin1 "AUTH") (latin1 " ") (latin1 "\r\n") rfl rfl (by decide +kernel) quiet rfl rfl
    (Or.inr rfl) (by decide) (by decide) (by decide)
  exact ⟨acknowledged.1, _, rfl, acknowledged.2⟩

/-! ## One draw for each attempt -/

/-- What a session holds when the next message arrives. -/
def heldAfter (before : List (Option Text)) : Held := (ledger (before.map request)).held

/-- The number held is made from one draw, whatever the others are. -/
theorem number_draw (server : Server) (draws : Nat → server.perl.Draw) (held : Held)
    (same : draws held.draw = server.draws held.draw) :
    Server.number { server with draws := draws } held = server.number held := by
  cases held with
  | initial => exact congrArg (fun draw => Number.integer (server.perl.int draw)) same
  | issued draw => exact congrArg (fun draw => Number.integer (challengeValue server.perl draw)) same
  | spent draw => exact congrArg Number.fraction same

/-- An attempt at an answer and a later one in the same session are judged against numbers that
come from one draw each, and from different ones: that of the later attempt had not been made when
the first one was judged. What a refusal of the first attempt reveals is acknowledged later only
if the later draw gives a number with the same text.

The code never compares numbers, it compares what it prints for a number plus one. Two draws whose
successors are printed alike therefore count as the same number here, which for whole numbers is
the same as being equal. The proof follows which draw the session holds after each history
(`heldAfter`): only a challenge or a judged answer replaces it, and always by the next draw. -/
theorem draws_judge_once (server : Server) (sends : Nat → Bool)
    (before between : List (Option Text)) (attempt attempt' : Option Text) (resp resp' : Text)
    (session session' : Session server.perl) (opened : diary server sends before = .ok session)
    (asked : request attempt = .answer resp)
    (opened' : diary server sends (before ++ attempt :: between) = .ok session')
    (asked' : request attempt' = .answer resp') :
    session.challenge = server.number (heldAfter before) ∧
      session'.challenge = server.number (heldAfter (before ++ attempt :: between)) ∧
      (∀ (draws : Nat → server.perl.Draw) (held : Held), draws held.draw = server.draws held.draw →
        Server.number { server with draws := draws } held = server.number held) ∧
      (heldAfter before).draw < session.drawn ∧
      session.drawn ≤ (heldAfter (before ++ attempt :: between)).draw ∧
      ((∀ message ∈ before, request message = .other) → heldAfter before = .initial) ∧
      (Acknowledged server sends (before ++ attempt :: between) attempt' →
        resp' = expected session'.challenge) ∧
      (Reveals server sends before attempt resp' →
        Acknowledged server sends (before ++ attempt :: between) attempt' →
          session'.challenge.succText = session.challenge.succText) := by
  obtain ⟨held, drawn⟩ := diary_follows server sends _ session opened
  obtain ⟨held', _⟩ := diary_follows server sends _ session' opened'
  refine ⟨held, held', number_draw server, ?_, ?_, ?_, ?_, ?_⟩
  · rw [drawn]
    exact draw_lt_drawn _
  · rw [drawn, heldAfter, List.map_append, List.map_cons, asked]
    exact drawn_le_draw _ _ resp
  · intro quiet
    have unchanged := ledger_append_other ([] : List (Request Text)) (before.map request)
      (List.forall_mem_map.mpr quiet)
    rw [heldAfter, ← List.nil_append (before.map request), unchanged]
    rfl
  · intro acknowledged
    rw [held']
    exact ((acknowledged_iff opened' asked').mp acknowledged).1
  · intro revealed acknowledged
    have right := ((acknowledged_iff opened' asked').mp acknowledged).1
    rw [reveals_expected revealed, expectedAfter, ← held, expectedAfter, ← held'] at right
    exact (chomp_encodeBase64_injective right).symm

/-- A wrong answer, then the one that the refusal revealed. -/
theorem draws_judge_once_refused :
    ∃ session session', diary exampleServer (fun _ => true) [] = .ok session ∧
      diary exampleServer (fun _ => true) ([] ++ some (latin1 "AUTH x\n") :: []) = .ok session' ∧
      (heldAfter []).draw < session.drawn ∧
      session.drawn ≤ (heldAfter ([] ++ some (latin1 "AUTH x\n") :: [])).draw := by
  refine ⟨_, _, rfl, rfl, ?_⟩
  have judged := draws_judge_once exampleServer (fun _ => true) [] [] (some (latin1 "AUTH x\n"))
    (some (latin1 "AUTH MzkwNjI2\n")) (latin1 "x") (latin1 "MzkwNjI2") _ _ rfl rfl rfl rfl
  exact ⟨judged.2.2.2.1, judged.2.2.2.2.1⟩

end Schnitzeljagd.Diary
