import Schnitzeljagd.Foundations.Base64
import Schnitzeljagd.Foundations.LineFile

/-!
# The diary server

`diary.pl` loads the diary entries, draws a first challenge and forks one process for
each client. A session is the state of such a process, and each handler is a function
on sessions.

The random numbers, the text of a number that is not whole, and the width of Perl's
unsigned integers are parameters. `fork` copies the generator with everything else, so
all sessions of a server see the same draws; draw 0 is made at start-up. Whether the
messages to the client can be sent is a parameter of a session. The lines printed on
the server's own output, the accept loop and the handler of SIGCHLD are not modelled
here.
-/

namespace Schnitzeljagd.Diary

open Foundations.PerlText Foundations.LineFile Foundations.Base64 Foundations.Binary64

/-- What the program leaves to its Perl. A draw is a result of `rand $diary_exp`, of which only
its whole part and the text of its successor are ever used. -/
structure Perl where
  Draw : Type
  /-- `int` of a draw. -/
  int : Draw → Nat
  int_lt : ∀ draw, int draw < 100000000
  /-- The text of a draw plus one. -/
  succText : Draw → Text
  /-- The width of the unsigned integers on which `<<` works. -/
  uvBits : Nat
  uvBits_eq : uvBits = 32 ∨ uvBits = 64

/-- A running server: its Perl, the draws from start-up on, and the contents of the
files `entries/1`, `entries/2`, ... up to the first number without a file. -/
structure Server where
  perl : Perl
  draws : Nat → perl.Draw
  entries : List Text

/-- The values of `$client_challenge`: whole after start-up and after `CHALLENGE`, and a draw as
it is after every judged answer. -/
inductive Number (perl : Perl) where
  | integer (value : Nat)
  | fraction (draw : perl.Draw)

/-- The text of `$client_challenge + 1`. -/
def Number.succText {perl : Perl} : Number perl → Text
  | integer value => decimal (value + 1)
  | fraction draw => perl.succText draw

/-- The variables of one child process, and what it has sent. Nothing that one client does is seen
by another. -/
structure Session (perl : Perl) where
  authenticated : Bool
  challenge : Number perl
  /-- The number of draws made, that at start-up included. -/
  drawn : Nat
  sent : List Text

/-- A session that goes on, or one whose process has closed the connection and left. -/
abbrev Outcome (perl : Perl) := Except (Session perl) (Session perl)

/-- The loop over the entry files. A file without a line has no title but a body. -/
def load (entries : List Text) : List Text × List Text :=
  entries.foldl (fun (titles, msgs) entry =>
    match readLine entry with
    | some (line, rest) => (titles ++ [chomp line], msgs ++ [rest])
    | none => (titles, msgs ++ [[]])) ([], [])

/-- The titles that `LIST` shows, one for each file with a first line. -/
def Server.diaryTitles (server : Server) : List Text := (load server.entries).1

/-- The bodies that `GET` shows, one for each file. -/
def Server.diaryMsgs (server : Server) : List Text := (load server.entries).2

/-! ## Messages to the client -/

variable {perl : Perl}

/-- `$client->send`, and the exit when it fails. `sends` tells for each message whether
it can be sent. -/
def send (sends : Nat → Bool) (text : Text) (session : Session perl) : Outcome perl :=
  if sends session.sent.length then .ok { session with sent := session.sent ++ [text] }
  else .error session

/-- The line of a positive answer, with a newline at its end. -/
def ackText (text : Text) : Text := latin1 "ACK: " ++ text ++ [newline]

/-- The line of a negative answer, which differs from a positive one in its first word. -/
def nackText (text : Text) : Text := latin1 "NACK: " ++ text ++ [newline]

/-- `ack`, which exits when the line cannot be sent. -/
def ack (sends : Nat → Bool) (text : Text) (session : Session perl) : Outcome perl :=
  send sends (ackText text) session

/-- `nack`, which exits when the line cannot be sent. -/
def nack (sends : Nat → Bool) (text : Text) (session : Session perl) : Outcome perl :=
  send sends (nackText text) session

/-! ## The handlers -/

/-- `diary_banner`, sent before anything is received, whoever the client is. -/
def diaryBanner (sends : Nat → Bool) (session : Session perl) : Outcome perl :=
  ack sends (latin1 "DIARY PROTOCOL SERVER (1.0) ready (try HELP)") session

/-- `diary_help`, with the list of the commands, which any client may see. -/
def diaryHelp (sends : Nat → Bool) (session : Session perl) : Outcome perl :=
  ack sends (latin1 "HELP CHALLENGE RESPONSE LIST GET QUIT AUTH") session

/-- `int(rand $diary_exp) << 8` for a given draw, which wraps around at the width of Perl's
integers. -/
def challengeValue (perl : Perl) (draw : perl.Draw) : Nat := perl.int draw * 256 % 2 ^ perl.uvBits

/-- `diary_challenge`, which draws a number and sends it. The number drawn before is forgotten. -/
def diaryChallenge (server : Server) (sends : Nat → Bool) (session : Session server.perl) :
    Outcome server.perl :=
  let value := challengeValue server.perl (server.draws session.drawn)
  ack sends (latin1 "CHALLENGE " ++ decimal value)
    { session with challenge := .integer value, drawn := session.drawn + 1 }

/-- The answer that is judged right for a number: base64 of the successor's text, without a
newline at the end. -/
def expected (number : Number perl) : Text := chomp (encodeBase64 number.succText)

/-- `diary_response`, which judges an answer against the number held and then draws the next one,
whatever the outcome. A wrong answer is told what would have been right. -/
def diaryResponse (server : Server) (sends : Nat → Bool) :
    List Text → Session server.perl → Outcome server.perl
  | [], session => nack sends (latin1 "RESPONSE response") session
  | resp :: _, session => do
    let str := expected session.challenge
    let judged ←
      if str ≠ resp then nack sends (latin1 "RESPONSE " ++ str) session
      else (ack sends (latin1 "RESPONSE " ++ str) session).map fun acknowledged =>
        { acknowledged with authenticated := true }
    return { judged with
      challenge := .fraction (server.draws judged.drawn), drawn := judged.drawn + 1 }

/-- `diary_list`, one line for each title, for clients that have answered right. -/
def diaryList (server : Server) (sends : Nat → Bool) (session : Session server.perl) :
    Outcome server.perl :=
  if !session.authenticated then nack sends (latin1 "!AUTH") session
  else
    (server.diaryTitles.zipIdx 1).foldlM (fun session (msg, i) =>
      ack sends (latin1 "LIST " ++ decimal i ++ latin1 " " ++ msg) session) session

/-- An element of a Perl array. An index is cut off towards zero, a negative one counts from the
end, and an element that does not exist is printed as nothing. -/
def element (array : List Text) (index : Rat) : Text :=
  let position := truncate index
  if 0 ≤ position then array.getD position.toNat []
  else if 0 ≤ position + array.length then array.getD (position + array.length).toNat []
  else []

/-- `diary_get`, where the argument is compared with the number of entries as a number and echoed
as a text. -/
def diaryGet (server : Server) (sends : Nat → Bool) (args : List Text)
    (session : Session server.perl) : Outcome server.perl :=
  if !session.authenticated then nack sends (latin1 "!AUTH") session
  else match args with
    | [] => nack sends (latin1 "GET num") session
    | num :: _ =>
      if numify num ≤ server.diaryMsgs.length ∧ 0 < numify num then
        ack sends (latin1 "GET " ++ num ++ [newline] ++
          element server.diaryMsgs (minus (numify num) 1)) session
      else ack sends (latin1 "GET <> !") session

/-- `diary_entropia`, which has no part in the protocol. -/
def diaryEntropia (sends : Nat → Bool) (session : Session perl) : Outcome perl :=
  ack sends (latin1 "entr0pia (c) 2002 dividuum manuel") session

/-- `diary_system`, which has no part in it either. -/
def diarySystem (sends : Nat → Bool) (session : Session perl) : Outcome perl :=
  ack sends (latin1 "HEILIGER SCHEDULER") session

/-- `diary_gehsterben`, another answer to a word that the protocol does not know. -/
def diaryGehsterben (sends : Nat → Bool) (session : Session perl) : Outcome perl :=
  ack sends (latin1 "hi neingeist") session

/-! ## The command loop -/

/-- The subroutines in the table of commands, under which a client reaches them. -/
inductive Handler where
  | help
  | challenge
  | response
  | list
  | get
  | entropia
  | system
  | gehsterben
  deriving DecidableEq

/-- The table `%diary_handlers`, where `AUTH` is another name for `RESPONSE`. -/
def diaryHandlers : List (Text × Handler) :=
  [(latin1 "HELP", .help), (latin1 "CHALLENGE", .challenge), (latin1 "RESPONSE", .response),
    (latin1 "AUTH", .response), (latin1 "LIST", .list), (latin1 "GET", .get),
    (latin1 "entr0pia", .entropia), (latin1 "SYSTEM", .system),
    (latin1 "GEHSTERBEN", .gehsterben)]

/-- The subroutine an entry of the table refers to, called with the arguments. -/
def Handler.call (server : Server) (sends : Nat → Bool) (args : List Text)
    (session : Session server.perl) : Handler → Outcome server.perl
  | help => diaryHelp sends session
  | challenge => diaryChallenge server sends session
  | response => diaryResponse server sends args session
  | list => diaryList server sends session
  | get => diaryGet server sends args session
  | entropia => diaryEntropia sends session
  | system => diarySystem sends session
  | gehsterben => diaryGehsterben sends session

/-- The command loop from the split on. `QUIT` leaves the loop, after which the process shuts the
connection down and exits. A command that is not in the table is refused, and nothing at all is
answered to an empty line. -/
def dispatch (server : Server) (sends : Nat → Bool) (session : Session server.perl) :
    List Text → Outcome server.perl
  | [] => .ok session
  | cmd :: args =>
    if cmd = latin1 "QUIT" then .error session
    else match diaryHandlers.lookup cmd with
      | some handler => handler.call server sends args session
      | none => send sends (latin1 "NACK PROTOCOL MISMATCH\n") session

/-- One turn of the command loop. `none` is a `recv` that fails, and the empty string
the end of the input. -/
def turn (server : Server) (sends : Nat → Bool) (session : Session server.perl) :
    Option Text → Outcome server.perl
  | none => .error session
  | some str =>
    if str.length = 0 then .error session
    else dispatch server sends session (split (chomp str))

/-- The variables of a child right after the fork: not authenticated, and with the number that was
drawn at start-up. -/
def Server.fork (server : Server) : Session server.perl :=
  { authenticated := false
    challenge := .integer (server.perl.int (server.draws 0))
    drawn := 1
    sent := [] }

/-- A session that has received the given results of `recv`, from the greeting on. -/
def diary (server : Server) (sends : Nat → Bool) (received : List (Option Text)) :
    Outcome server.perl := do
  let session ← diaryBanner sends server.fork
  received.foldlM (turn server sends) session

end Schnitzeljagd.Diary
