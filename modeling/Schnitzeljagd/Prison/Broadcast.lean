import Schnitzeljagd.Foundations.CString

/-!
# The prison-to-prison broadcaster

`main` of `p2p.c` from the reading of the message file to the datagram of one turn
of its send loop. The message file is what `fread` delivers of it, the previous
contents of `buf` are arbitrary, and `messages` holds offsets into `buf`. A step
that leaves the buffer, or a remainder by zero, has no value.

The set-up of the socket is not part of this module: it neither reads nor writes
the buffer.
-/

namespace Schnitzeljagd.Prison

open Foundations.CArithmetic Foundations.CString

/-- `#define MAXMESSAGES 100`, the length of the array of messages -/
def MAXMESSAGES : Nat := 100

/-- `sizeof(buf)`, of which one byte is kept for the NUL. -/
def bufSize : Nat := 10000

/-- The uninitialised array `buf`, which may hold anything. -/
structure Buf where
  bytes : List Byte
  full : bytes.length = bufSize

/-- `"Muahaha"`, with its NUL, which `strlen` needs to find its end. -/
def password : List Byte := [0x4d, 0x75, 0x61, 0x68, 0x61, 0x68, 0x61, 0x00]

/-- `"\n"`, the delimiter of `strtok`, so that empty lines are no messages. -/
def newline : Byte := 0x0a

/-- The buffer after `fread(buf, 1, sizeof(buf) - 1, msgfile)` and `buf[buflen] = '\0'`. -/
def readMessages (buf : Buf) (file : List Byte) : Option (List Byte) :=
  let read := file.take (bufSize - 1)
  let buflen := read.length
  store (read ++ buf.bytes.drop buflen) buflen 0

/-- The loop that collects the tokens. `room` is `MAXMESSAGES - nummessages`, and the
`strtok` of the loop header has already been made. -/
def collect : Nat → Token → List Nat → Option (List Byte × List Nat)
  | 0, token, messages => some (token.memory, messages)
  | room + 1, token, messages =>
    match token.found with
    | none => some (token.memory, messages)
    | some bufptr => do
      let next ← strtok newline token.memory token.saved
      collect room next (messages ++ [bufptr])

/-- The inner encoding loop from index `j`. Its bound `strlen(messages[i])` is
computed again before each turn, from the text as encoded so far. -/
def encodeMessage (message : Nat) : Nat → List Byte → Nat → Option (List Byte)
  | 0, _, _ => none
  | fuel + 1, buf, j => do
    let bound ← strlen buf message
    if j < bound then
      let byte ← load buf (message + j : Nat)
      let period ← strlen password 0
      let key ← load password (j % period : Nat)
      let buf ← store buf (message + j : Nat) (byte ^^^ key)
      encodeMessage message fuel buf (j + 1)
    else
      some buf

/-- The buffer and the messages when the send loop is reached. A message is the place where it
begins. -/
structure Prepared where
  buf : List Byte
  messages : List Nat

/-- Reading, splitting and encoding. The inner loop ends within as many turns as the
buffer has bytes, plus the one that finds it ended. -/
def prepare (buf : Buf) (file : List Byte) : Option Prepared := do
  let buf ← readMessages buf file
  let token ← strtok newline buf 0
  let (buf, messages) ← collect MAXMESSAGES token []
  let buf ← messages.foldlM (fun buf message => encodeMessage message (buf.length + 1) buf 0) buf
  pure ⟨buf, messages⟩

/-- The bytes that one turn of the send loop hands to `send` for a result of `rand`, the NUL not
among them. Without messages the turn divides by zero. -/
def Prepared.datagram (prepared : Prepared) (rand : Nat) : Option (List Byte) := do
  let nummessages := prepared.messages.length
  if nummessages = 0 then
    none
  else
    let message ← prepared.messages[rand % nummessages]?
    let length ← strlen prepared.buf message
    pure ((prepared.buf.drop message).take length)

/-- The datagram that is sent for a message file and a result of `rand`. -/
def broadcast (buf : Buf) (file : List Byte) (rand : Nat) : Option (List Byte) := do
  let prepared ← prepare buf file
  prepared.datagram rand

end Schnitzeljagd.Prison
