import Schnitzeljagd.Foundations.FormatString
import Schnitzeljagd.Foundations.Loops
import Schnitzeljagd.Foundations.PerlText

/-!
# The session of a bulld client

`handleclient` reads each command to the beginning of the array `in` and puts a NUL behind
it. Only then it looks at the length. A command that it does not know is copied to the
array `out`, by a call of `sprintf` that takes the command for its format.

A read of more bytes than the array has, and a NUL behind its end, are stores outside of
it, and there is no session after them. A read that returns nothing, at the end of the
connection or with an error, is one without bytes. The results of `write` are ignored by
the program and left out here: what is sent counts as written.
-/

namespace Schnitzeljagd.Bulld

open Foundations.CArithmetic Foundations.CString Foundations.FormatString Foundations.Loops
open Foundations.PerlText (latin1)

/-- `sizeof(in)`, and the size of `out` too. The NUL behind what is read needs a place among
these. -/
def sizeofIn : Nat := 256

/-- The arrays `in` and `out` and the bytes sent to the client. -/
structure Client where
  input : List Byte
  out : List Byte
  sent : List Byte

/-- A session that reads on or one that has returned and reads nothing more. -/
inductive Session where
  | running (client : Client)
  | returned (client : Client)

/-- The bytes that a call of `read` returns, and the machine that chooses the text of the
directives among them. -/
structure Read where
  chunk : List Byte
  machine : Machine

/-- Sends a text to the client, without looking at whether it arrives. -/
def Client.write (client : Client) (text : List Byte) : Client :=
  { client with sent := client.sent ++ text }

/-- The greeting of a new session, which is sent before the first command is read. -/
def welcome : List Byte :=
  latin1 ("> Willkommen im neuen Polizeisystem\n" ++
    "> -------------------------------------------------\n" ++
    "> Achtung: Dies ist eine Alphaversion von Polsys II\n" ++
    "> -------------------------------------------------\n" ++
    "> HELP zeigt Hilfe an.\n")

/-- What is sent when a command is too long, before the session ends. -/
def warn : List Byte := latin1 "> Befehl zu lang\n"

/-- The answer to `help`, which refers the client to a manual. -/
def help : List Byte :=
  latin1 ("> Das Hilfesystem ist noch nicht implementiert.\n" ++
    "> Bitte schlagen sie die vorhandenen Polsysbefehle\n" ++
    "> in ihrem Polsys II Bedienungshandbuch nach.\n")

/-- The farewell, the last thing a session sends. -/
def quit : List Byte := latin1 "> Polsys II beendet\n"

/-- What is sent when a command has been carried out, which none is so far. -/
def cmdok : List Byte := latin1 "> Success\n"

/-- What is sent in front of a command that is not known. The answer itself follows in a call of
its own. -/
def unkn : List Byte := latin1 "> Unknown command: "

/-- One of the words that a command may begin with, in small letters or capital ones. -/
def helpWord : List Byte := latin1 "help"

/-- The word that ends a session, in small letters or capital ones. -/
def quitWord : List Byte := latin1 "quit"

/-- No command is known yet, whatever the input. -/
def polsyshandlecmd (_input : List Byte) : Int := 0

/-- `read(fd, inptr, 1000000)`, which may return more than the array has room for. Then there is
no result. -/
def readInto (array chunk : List Byte) : Option (List Byte) :=
  if chunk.length ≤ array.length then some (chunk ++ array.drop chunk.length) else none

/-- The last branch: `sprintf(out, in)` and what it leaves in `out`. The text of the client is
used as the format. -/
def unknown (machine : Machine) (client : Client) : Option Client := do
  let client := client.write unkn
  let command ← stringAt client.input 0
  let out ← machine.sprintf client.out command
  let text ← stringAt out 0
  pure ({ client with out }.write text)

/-- The branches for a command of some length. The length is tested after the command has been
read. -/
def handle (machine : Machine) (client : Client) (len : Nat) : Option Session := do
  -- A positive `len` is the same number as a `size_t`.
  if len > sizeofIn then
    return .returned (client.write warn)
  if (← strncasecmp client.input (helpWord ++ [0]) 4) = 0 then
    return .running (client.write help)
  if (← strncasecmp client.input (quitWord ++ [0]) 4) = 0 then
    return .returned (client.write quit)
  if polsyshandlecmd client.input ≠ 0 then
    return .running (client.write cmdok)
  return .running (← unknown machine client)

/-- A turn of the loop: read, put a NUL behind what was read, and handle the command. Outside the
array there is no result. -/
def handleRead : Session → Read → Option Session
  | .returned _, _ => none
  | .running client, ⟨chunk, machine⟩ => do
    if chunk = [] then
      return .returned client
    let input ← readInto client.input chunk
    let input ← store input chunk.length 0
    handle machine { client with input } chunk.length

/-- Both arrays are zero, and the client has been welcomed. -/
def initial : Client := ⟨List.replicate sizeofIn 0, List.replicate sizeofIn 0, welcome⟩

/-- `handleclient` up to the last of some reads, if everything stayed inside the arrays. -/
def handleclient (reads : List Read) : Option Session :=
  reads.foldlM handleRead (.running initial)

/-! ## One turn -/

/-- The arrays have their sizes, which nothing in a session changes. -/
structure Sized (client : Client) : Prop where
  input : client.input.length = sizeofIn
  out : client.out.length = sizeofIn

/-- They have them at the beginning, before anything is read. -/
theorem initial_sized : Sized initial := ⟨List.length_replicate, List.length_replicate⟩

/-- A session of one read is one turn of the loop. -/
theorem handleclient_single (read : Read) :
    handleclient [read] = handleRead (.running initial) read := by
  simp [handleclient]

section Turn

variable {client next : Client} {machine : Machine} {chunk : List Byte} {session : Session}

/-- The array `in` behind a read that leaves room for the NUL. Behind the NUL it is as it was. -/
def received (client : Client) (chunk : List Byte) : Client :=
  { client with input := chunk ++ 0 :: client.input.drop (chunk.length + 1) }

/-- A read leaves the sizes as they are, if it leaves room for the NUL. -/
theorem received_sized (sized : Sized client) (room : chunk.length < sizeofIn) :
    Sized (received client chunk) := by
  refine ⟨?_, sized.out⟩
  simp only [received, List.length_append, List.length_cons, List.length_drop, sized.input]
  omega

/-- A read that leaves room for the NUL is handled by the branches for commands, with the array it
has filled. -/
theorem handleRead_room (sized : Sized client) (nonempty : chunk ≠ [])
    (room : chunk.length < sizeofIn) :
    handleRead (.running client) ⟨chunk, machine⟩ =
      handle machine (received client chunk) chunk.length := by
  have inside : chunk.length < client.input.length := sized.input ▸ room
  have stored : store (chunk ++ client.input.drop chunk.length) chunk.length 0 =
      some (chunk ++ 0 :: client.input.drop (chunk.length + 1)) := by
    rw [List.drop_eq_getElem_cons inside]
    exact store_append _ _ _ 0 _ rfl
  rw [handleRead, if_neg nonempty, readInto, if_pos (Nat.le_of_lt inside)]
  simp only [Option.bind_eq_bind, Option.bind_some, stored]
  rfl

/-- There is no session after a read that leaves none: at 256 bytes the NUL already goes behind
the array. -/
theorem handleRead_full (sized : Sized client) (full : sizeofIn ≤ chunk.length) :
    handleRead (.running client) ⟨chunk, machine⟩ = none := by
  have nonempty : chunk ≠ [] := by
    rintro rfl
    simp [sizeofIn] at full
  rw [handleRead, if_neg nonempty, readInto, sized.input]
  by_cases fits : chunk.length ≤ sizeofIn
  · have outside : ¬((0 : Int) ≤ (chunk.length : Nat) ∧ (chunk.length : Int).toNat <
        (chunk ++ client.input.drop chunk.length).length) := by
      rw [List.length_append, List.length_drop, sized.input]
      omega
    simp only [if_pos fits, Option.bind_eq_bind, Option.bind_some, store, if_neg outside,
      Option.bind_none]
  · rw [if_neg fits]
    rfl

/-- There is no NUL in this word, so that comparing it goes over all four letters. -/
theorem helpWord_clean : ∀ byte ∈ helpWord, byte ≠ 0 := by decide

/-- Nor in this one. -/
theorem quitWord_clean : ∀ byte ∈ quitWord, byte ≠ 0 := by decide

/-- Comparing the array with a word of four letters finds out whether the command begins with it,
whatever is left in the array behind it. -/
theorem compare_received (sized : Sized (received client chunk)) (word : List Byte)
    (length : word.length = 4) (clean : ∀ byte ∈ word, byte ≠ 0) :
    ∃ difference, strncasecmp (received client chunk).input (word ++ [0]) 4 = some difference ∧
      (difference = 0 ↔ beginsWith word chunk = true) := by
  have room : word.length ≤ (received client chunk).input.length := by
    rw [length, sized.input, sizeofIn]
    omega
  obtain ⟨difference, compared, zero⟩ := strncasecmp_word _ word [0] room clean
  rw [length] at compared
  refine ⟨difference, compared, zero.trans ?_⟩
  rw [received, beginsWith_terminated word chunk _ clean]

/-- What becomes of a command that leaves room for the NUL, branch by branch. The test of the
length never applies then. -/
theorem handle_cases (sized : Sized client) (room : chunk.length < sizeofIn) :
    handle machine (received client chunk) chunk.length =
      if beginsWith helpWord chunk then some (.running ((received client chunk).write help))
      else if beginsWith quitWord chunk then some (.returned ((received client chunk).write quit))
      else (unknown machine (received client chunk)).map .running := by
  have sizes := received_sized sized room
  obtain ⟨difference, compared, zero⟩ := compare_received sizes helpWord rfl helpWord_clean
  obtain ⟨difference', compared', zero'⟩ := compare_received sizes quitWord rfl quitWord_clean
  rw [handle, if_neg (by omega), compared, compared']
  simp only [Option.bind_eq_bind, Option.bind_some, Option.pure_def, zero, zero', polsyshandlecmd,
    ne_eq, not_true_eq_false, if_false, Option.map_eq_bind]
  rfl

/-- What the branch for unknown commands does, given what `sprintf` leaves: the text in `out` is
sent up to its NUL. -/
theorem unknown_text {out : List Byte}
    (printed : machine.sprintf client.out (untilNul chunk) = some out) :
    unknown machine (received client chunk) =
      (stringAt out 0).map fun text =>
        { received client chunk with out, sent := client.sent ++ unkn ++ text } := by
  have command : stringAt ((received client chunk).write unkn).input 0 = some (untilNul chunk) :=
    stringAt_terminated chunk _
  have same : ((received client chunk).write unkn).out = client.out := rfl
  simp only [unknown, Option.bind_eq_bind, command, Option.bind_some, same, printed,
    Option.map_eq_bind]
  rfl

end Turn

end Schnitzeljagd.Bulld
