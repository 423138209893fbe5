import Schnitzeljagd.Police.HintFile

/-!
# The police terminal

`polsys.pl` runs one process for each client. The process goes through the states of
the table `%config`: it shows the output of a state, and where the state has a list of
inputs it receives a string and follows the first rule that matches. A session is a
sequence of steps, and a step is either the part of the loop up to `recv` or the part
from `recv` on.

The names of the states are the strings of the source, since the loop dies on a name
that is not in the table. Whether `polsys.txt` can be opened is given for each step.
The pauses, the result of `send`, which the program ignores, and the lines printed on
the server's own output are left out, as are the accept loop and the handler of
SIGCHLD.
-/

namespace Schnitzeljagd.Police

open Foundations.PerlText Foundations.LineFile

/-! ## The table of states -/

/-- The pattern of a rule. It is matched between `^` and `$`, so it has to cover the whole line.
-/
inductive Regex where
  | literal (text : Text)
  | anything

/-- The pattern matches the whole string. The dot does not match a newline. -/
def Regex.accepts (str : Text) : Regex → Bool
  | literal text => str = text
  | anything => newline ∉ str

/-- `$str =~ /^...$/`, where `$` also matches before a newline at the end. -/
def Regex.fits (regex : Regex) (str : Text) : Bool :=
  regex.accepts str || (str.getLast? = some newline && regex.accepts str.dropLast)

/-- The functions that a rule for input can call, each of them with what was received. -/
inductive InputFunc where
  | gpf
  | saveentry
  | handlepasswd

/-- The functions that a state can call for its output, behind its text. -/
inductive OutputFunc where
  | readentries
  | drinmsg

/-- One way to go on from a prompt: the pattern that a string must match, the state to go to, and
what is done before. -/
structure Rule where
  regex : Regex
  next : Option String := none
  func : Option InputFunc := none

/-- What the table has for a state. A state without a list of rules does not ask for input. -/
structure Entry where
  text : Option Text := none
  outputFunc : Option OutputFunc := none
  input : Option (List Rule) := none
  next : Option String := none

/-- The greeting, which leads straight to the main menu. -/
def start : Entry where
  text := latin1 "Willkommen auf dem Polizeisystem [version 0.1/nicht buggeprüft]\n\n"
  next := "main"

/-- The main menu. Whatever is none of its four choices crashes the terminal, as it is meant to
look, and ends the session. -/
def main : Entry where
  text := latin1 ("Hauptmenü\n" ++ "\n" ++ "1 - Hinweise Eintragen\n" ++ "2 - Hinweise lesen\n" ++
    "3 - Login\n" ++ "4 - Beenden\n")
  input := some [
    { regex := .literal (latin1 "1"), next := "input" },
    { regex := .literal (latin1 "2"), next := "read" },
    { regex := .literal (latin1 "3"), next := "login" },
    { regex := .literal (latin1 "4"), next := "quit" },
    { regex := .anything, next := "quit", func := some .gpf }]

/-- The prompt for a hint, which takes any line. -/
def input : Entry where
  text := latin1 "Hinweis eintragen:\n\nHinweis:\n\n"
  input := some [{ regex := .anything, next := "main", func := some .saveentry }]

/-- The list of the hints, which leads back to the main menu without asking for anything. -/
def read : Entry where
  outputFunc := some .readentries
  next := "main"

/-- The farewell, which leads to the name at which the loop ends. -/
def quit : Entry where
  text := latin1 "Vielen Dank für ihre Kooperation\n"
  next := "finished"

/-- The prompt for the password. Its rule names no next state, since the function of the rule sets
it. -/
def login : Entry where
  text := latin1 "Login:\n\nBitte Zugangspasswort eingeben:\n\n"
  input := some [{ regex := .anything, func := some .handlepasswd }]

/-- The confidential message, which leads on to the inner menu. -/
def inside : Entry where
  outputFunc := some .drinmsg
  next := "insidemenu"

/-- The inner menu, where the message can be asked for again. -/
def insidemenu : Entry where
  text := latin1 ("Informationsystem Hauptmenü\n" ++ "\n" ++ "1 - MOTD wiederholen\n" ++
    "4 - Abmelden\n")
  input := some [
    { regex := .literal (latin1 "1"), next := "inside" },
    { regex := .literal (latin1 "4"), next := "main" },
    { regex := .anything, next := "main", func := some .gpf }]

/-- The table `%config`, whose keys are the names of the states. -/
def config : List (String × Entry) :=
  [("start", start), ("main", main), ("input", input), ("read", read), ("quit", quit),
    ("login", login), ("inside", inside), ("insidemenu", insidemenu)]

/-! ## The state of a session -/

/-- What passes between the terminal and the client. A received string is noted with
the state in which it was received. -/
inductive Event where
  | shows (text : Text)
  | hears (state : String) (str : Text)

/-- Where the loop of `run` stands: at its test, in `recv` with the entry `%cs`, after
the loop, or dead. -/
inductive Point where
  | top
  | prompt (cs : Entry)
  | left
  | died

/-- The state name `$state`, the file `polsys.txt`, and all that has been sent and received since
the client connected. -/
structure Terminal where
  state : String
  point : Point
  file : Text
  transcript : List Event

/-- Whether `polsys.txt` can be opened for reading and for writing. The functions give up silently
where it cannot. -/
structure Files where
  readable : Bool
  writable : Bool

/-- `cout`, whose text counts as shown whether or not `send` succeeds. -/
def cout (text : Text) (terminal : Terminal) : Terminal :=
  { terminal with transcript := terminal.transcript ++ [.shows text] }

/-! ## The functions of the table -/

/-- `gpf`, the imitation of a crash, which is only a text that is sent. -/
def gpf (terminal : Terminal) : Terminal :=
  cout (latin1 "\n  POLIZEI.EXE caused a fatal exception. \n" ++
    latin1 "  0E at memory address: 645A:74C9.\n\n" ++
    latin1 "  Possible reasons: Overflow, Underflow.\n\n" ++
    latin1 "  I will now try to recover.\n\n") terminal

/-- The confidential message, with the address the server was started with. -/
def motd (address : Text) : Text :=
  latin1 "\n   MOTD:\n" ++
    latin1 "   --------------------------------------\n" ++
    latin1 "   Wir haben wie bereits gestern angekündigt\n" ++
    latin1 "   auf das neue Polizeisystem umgestellt.\n" ++
    latin1 "   Mit dem alten System ist nur noch beschränkter\n" ++
    latin1 "   Zugriff auf Informationen möglich.\n\n" ++
    latin1 "   Das Neue System befindet sich auf:\n" ++
    latin1 "   telnet://" ++ address ++ latin1 ":55988/\n\n" ++
    latin1 "   Sourcecode befindet sich auf:\n" ++
    latin1 "   http://" ++ address ++ latin1 "/dev/\n\n" ++
    latin1 "   --------------------------------------\n\n"

/-- `drinmsg` shows the message, and does not look at who asks for it. -/
def drinmsg (address : Text) (terminal : Terminal) : Terminal := cout (motd address) terminal

/-- `saveentry` with the first and the second argument that the loop passes, of which it changes
the first to name the main menu. A file that cannot be opened ends it early. -/
def saveentry (files : Files) (str : Text) (terminal : Terminal) : Terminal :=
  let asked := cout (latin1 "Gespeicherte Einträge\n") terminal
  if !files.readable then asked
  else
    let hinweise := insertHint (chompedLines asked.file) (chomp str)
    if !files.writable then asked
    else
      let stored := { asked with file := written hinweise }
      { cout (latin1 "'" ++ chomp str ++ latin1 "' wurde gespeichert\n\n")
          (cout (latin1 "\n") stored) with state := "main" }

/-- `readentries`, which shows the lines of the file, each behind a dash. -/
def readentries (files : Files) (terminal : Terminal) : Terminal :=
  let asked := cout (latin1 "Gespeicherte Einträge\n") terminal
  if !files.readable then asked
  else (chompedLines asked.file).foldl
    (fun terminal eintrag => cout (latin1 " - " ++ eintrag ++ latin1 "\n") terminal) asked

/-- `handlepasswd`, which looks at the length of the password only, and sets the next state. -/
def handlepasswd (str : Text) (terminal : Terminal) : Terminal :=
  let checked := cout (latin1 "Überprüfe Passwort\n") terminal
  if 10 < str.length then { gpf checked with state := "inside" }
  else
    { cout (latin1 "Anmeldung fehlgeschlagen\n\n") (cout (latin1 "\n") checked) with
      state := "main" }

/-- The call of an output function, by its name in the table. -/
def OutputFunc.call (address : Text) (files : Files) (terminal : Terminal) :
    OutputFunc → Terminal
  | readentries => Police.readentries files terminal
  | drinmsg => Police.drinmsg address terminal

/-- The call of an input function, with the string that was received, stripped. -/
def InputFunc.call (files : Files) (str : Text) (terminal : Terminal) : InputFunc → Terminal
  | gpf => Police.gpf terminal
  | saveentry => Police.saveentry files str terminal
  | handlepasswd => Police.handlepasswd str terminal

/-! ## The loop of run -/

/-- The output of a state: its text first, and then its function, where it has them. -/
def output (address : Text) (files : Files) (cs : Entry) (terminal : Terminal) : Terminal :=
  let shown := match cs.text with
    | some text => cout text terminal
    | none => terminal
  match cs.outputFunc with
  | some func => func.call address files shown
  | none => shown

/-- The end of the loop body: the entry's own next state, if it names one. -/
def endTurn (cs : Entry) (terminal : Terminal) : Terminal :=
  { terminal with state := cs.next.getD terminal.state, point := .top }

/-- From the test of the loop to `recv`, or through the whole body if the state takes
no input. -/
def beginTurn (address : Text) (files : Files) (terminal : Terminal) : Terminal :=
  if terminal.state = "finished" then { terminal with point := .left }
  else match config.lookup terminal.state with
    | none => { terminal with point := .died }
    | some cs =>
      let shown := output address files cs terminal
      if cs.input.isSome then { cout (latin1 "> ") shown with point := .prompt cs }
      else endTurn cs shown

/-- What the first matching rule does. The function of the rule comes before its next
state. -/
def follow (files : Files) (str : Text) (rule : Rule) (terminal : Terminal) : Terminal :=
  let called := match rule.func with
    | some func => func.call files str terminal
    | none => terminal
  { called with state := rule.next.getD called.state }

/-- From `recv` to the end of the loop body. A failed `recv` leaves the loop. -/
def answer (files : Files) (cs : Entry) (received : Option Text) (terminal : Terminal) :
    Terminal :=
  match received with
  | none => { terminal with point := .left }
  | some line =>
    let heard :=
      { terminal with transcript := terminal.transcript ++ [.hears terminal.state line] }
    let str := stripTrailing line
    match (cs.input.getD []).find? fun rule => rule.regex.fits str with
    | some rule => endTurn cs (follow files str rule heard)
    | none => endTurn cs heard

/-- What happens in a step besides the terminal's own doing: how the file can be opened, and what
the client sends. -/
inductive Label where
  | output (files : Files)
  | input (files : Files) (received : Option Text)

/-- A step that the loop is ready for. A label at the wrong point is no step. -/
def step (address : Text) (terminal : Terminal) : Label → Option Terminal
  | .output files =>
    match terminal.point with
    | .top => some (beginTurn address files terminal)
    | _ => none
  | .input files received =>
    match terminal.point with
    | .prompt cs => some (answer files cs received terminal)
    | _ => none

/-- A session at the beginning of `run`, with the file as it is found. -/
def connect (file : Text) : Terminal :=
  { state := "start", point := .top, file := file, transcript := [] }

/-- A session after some steps of `run`, if the loop was ready for each of them. Every finite
session is of this kind. -/
def run (address file : Text) (labels : List Label) : Option Terminal :=
  labels.foldlM (step address) (connect file)

end Schnitzeljagd.Police
