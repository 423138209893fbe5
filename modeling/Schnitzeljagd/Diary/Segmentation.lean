import Schnitzeljagd.Diary.Answers

/-!
# Command lines and received chunks

A client writes command lines, and the network hands their bytes to `recv` in chunks
of its own choosing. The command loop takes a chunk for a command. What it makes of a
row of chunks is their script: the commands of the chunks that are not blank, each with
the arguments its handler reads, up to the first `QUIT`. Two rows of chunks with one
script have one outcome, so a cut of the command lines is harmless when each chunk has
the command of one line, blank chunks and blank lines aside. A chunk with two lines in
it is one command, and a line cut inside is two.
-/

namespace Schnitzeljagd.Diary

open Foundations.PerlText Foundations.Loops

/-- What the command loop can be told to do. -/
inductive Command where
  | quit
  | mismatch
  | call (handler : Handler) (args : List Text)

/-- The arguments that a handler reads. -/
def Handler.reads (args : List Text) : Handler → List Text
  | response => args.take 1
  | get => args.take 1
  | _ => []

/-- The command in the words of a chunk. A first word that is not in the table of handlers is a
mismatch, whatever follows it. -/
def command (cmd : Text) (args : List Text) : Command :=
  if cmd = latin1 "QUIT" then .quit
  else match diaryHandlers.lookup cmd with
    | some handler => .call handler (handler.reads args)
    | none => .mismatch

/-- What the command loop does about a command, with the client that `send` may fail to reach.
`QUIT` ends the session and leaves it as it is. -/
def Command.perform (server : Server) (sends : Nat → Bool) (session : Session server.perl) :
    Command → Outcome server.perl
  | quit => .error session
  | mismatch => send sends (latin1 "NACK PROTOCOL MISMATCH\n") session
  | call handler args => handler.call server sends args session

/-- The commands that the loop sees in a row of chunks. A chunk without words is no command, and
nothing is read after `QUIT`. -/
def script : List Text → List Command
  | [] => []
  | chunk :: rest =>
    match split (chomp chunk) with
    | [] => script rest
    | cmd :: args =>
      if cmd = latin1 "QUIT" then [.quit] else command cmd args :: script rest

/-- The messages that a client sends, one command line each. -/
def sentLines (lines : List Text) : List Text := lines.map fun line => line ++ [newline]

/-- The chunks that successive calls of `recv` return for the command lines. -/
structure Segmentation (lines : List Text) where
  chunks : List Text
  nonempty : ∀ chunk ∈ chunks, chunk ≠ []
  short : ∀ chunk ∈ chunks, chunk.length ≤ 512
  whole : chunks.flatten = (sentLines lines).flatten

section Script

variable (server : Server) (sends : Nat → Bool)

/-- A handler does the same if it is called with the arguments it reads and no others, so that
what follows them in a chunk does not matter. -/
theorem call_reads (handler : Handler) (args : List Text) (session : Session server.perl) :
    handler.call server sends (handler.reads args) session =
      handler.call server sends args session := by
  cases handler with
  | response => cases args <;> rfl
  | get => cases args <;> rfl
  | _ => rfl

/-- The loop performs the command in the words it has split off. -/
theorem dispatch_command (session : Session server.perl) (cmd : Text) (args : List Text) :
    dispatch server sends session (cmd :: args) =
      (command cmd args).perform server sends session := by
  rw [dispatch, command]
  by_cases quit : cmd = latin1 "QUIT"
  · rw [if_pos quit, if_pos quit]
    rfl
  · rw [if_neg quit, if_neg quit]
    cases diaryHandlers.lookup cmd with
    | none => rfl
    | some handler => exact (call_reads server sends handler args session).symm

/-- The command loop runs the script of its chunks.

Induction over the chunks. A blank chunk is skipped on both sides, and after a `QUIT`
neither side goes on. -/
theorem chunks_script (chunks : List Text) (nonempty : ∀ chunk ∈ chunks, chunk ≠ [])
    (session : Session server.perl) :
    (chunks.map some).foldlM (turn server sends) session =
      (script chunks).foldlM (fun session command => command.perform server sends session)
        session := by
  induction chunks generalizing session with
  | nil => rfl
  | cons chunk rest inductionHypothesis =>
    have received : chunk ≠ [] := nonempty chunk List.mem_cons_self
    have later := inductionHypothesis fun other member =>
      nonempty other (List.mem_cons_of_mem _ member)
    rw [List.map_cons, List.foldlM_cons]
    cases fields : words (some chunk) with
    | nil =>
      have skipped : script (chunk :: rest) = script rest := by
        rw [script, show split (chomp chunk) = [] from fields]
      rw [turn_blank server sends session _ fields, if_neg (by simp [received]), skipped]
      exact later session
    | cons cmd args =>
      rw [turn_words server sends session _ cmd args fields, dispatch_command, script,
        show split (chomp chunk) = cmd :: args from fields]
      by_cases quit : cmd = latin1 "QUIT"
      · rw [command, if_pos quit]
        simp only [if_pos quit, List.foldlM_cons]
        rfl
      · simp only [if_neg quit, List.foldlM_cons]
        exact bind_congr later

/-- Rows of chunks with one script have one outcome, since the loop runs the script of its chunks.
-/
theorem diary_script (chunks chunks' : List Text) (nonempty : ∀ chunk ∈ chunks, chunk ≠ [])
    (nonempty' : ∀ chunk ∈ chunks', chunk ≠ []) (same : script chunks = script chunks') :
    diary server sends (chunks.map some) = diary server sends (chunks'.map some) := by
  rw [diary, diary]
  apply bind_congr
  intro session
  rw [chunks_script server sends chunks nonempty, same,
    chunks_script server sends chunks' nonempty']

end Script

/-! ## White space at the end of a chunk -/

/-- Neither blank chunks nor white space at the end of a chunk appear in the script. -/
theorem script_stripped (chunks : List Text) :
    script ((chunks.map stripTrailing).filter fun chunk => chunk ≠ []) = script chunks := by
  induction chunks with
  | nil => rfl
  | cons chunk rest inductionHypothesis =>
    have fields : split (chomp (stripTrailing chunk)) = split (chomp chunk) := by
      rw [split_chomp, split_stripTrailing, split_chomp]
    rw [List.map_cons, List.filter_cons]
    by_cases blank : stripTrailing chunk = []
    · have noFields : split (chomp chunk) = [] := by
        rw [← fields, blank]
        exact split_nil
      rw [if_neg (by simp [blank]), inductionHypothesis, script, noFields]
    · rw [if_pos (by simp [blank]), script, script, fields, inductionHypothesis]

/-- Lines that arrive one by one have the script of the lines, because the newline behind each of
them is removed before it is split. -/
theorem script_sentLines (lines : List Text) : script (sentLines lines) = script lines := by
  induction lines with
  | nil => rfl
  | cons line rest inductionHypothesis =>
    have fields : split (chomp (line ++ [newline])) = split (chomp line) := by
      rw [chomp_concat_newline, split_chomp]
    rw [sentLines, List.map_cons, script, fields, script, ← inductionHypothesis, sentLines]

/-- No message of a client is empty, as it ends with a newline. So none of them is mistaken for
the end of the connection. -/
theorem sentLines_nonempty (lines : List Text) : ∀ chunk ∈ sentLines lines, chunk ≠ [] := by
  intro chunk member
  obtain ⟨line, _, rfl⟩ := List.mem_map.mp member
  simp

/-! ## Harmless and harmful cuts -/

/-- A segmentation with the script of the lines has the outcome of the lines received one by one.

What a run does with a chunk depends on the words that the chunk is split into and on nothing
else, and chunks without a word do nothing. So the outcome is a function of the script. -/
theorem segmentation_harmless (server : Server) (sends : Nat → Bool) (lines : List Text)
    (cut : Segmentation lines) (aligned : script cut.chunks = script lines) :
    diary server sends (cut.chunks.map some) = diary server sends ((sentLines lines).map some) :=
  diary_script server sends _ _ cut.nonempty (sentLines_nonempty lines)
    (aligned.trans (script_sentLines lines).symm)

/-- In particular, a segmentation is harmless when its chunks are the lines up to white
space at the end, blank chunks and blank lines aside. -/
theorem whole_lines_aligned (lines : List Text) (cut : Segmentation lines)
    (same : (cut.chunks.map stripTrailing).filter (fun chunk => chunk ≠ []) =
      (lines.map stripTrailing).filter fun line => line ≠ []) :
    script cut.chunks = script lines := by
  rw [← script_stripped, same, script_stripped]

/-- The newline of a line may arrive by itself, in a chunk of its own after the command. -/
def newlineApart : Segmentation [latin1 "HELP"] where
  chunks := [latin1 "HELP", latin1 "\n"]
  nonempty := by decide
  short := by decide
  whole := by decide

/-- The newline that arrives by itself does no harm, since it is a blank chunk. -/
theorem segmentation_harmless_newline :
    diary exampleServer (fun _ => true) (newlineApart.chunks.map some) =
      diary exampleServer (fun _ => true) ((sentLines [latin1 "HELP"]).map some) :=
  segmentation_harmless exampleServer _ _ newlineApart
    (whole_lines_aligned _ newlineApart (by decide))

/-- Two lines may arrive together, in one chunk with two newlines. -/
def twoAtOnce : Segmentation [latin1 "HELP", latin1 "HELP"] where
  chunks := [latin1 "HELP\nHELP\n"]
  nonempty := by decide
  short := by decide
  whole := by decide

/-- Two commands that arrive together are answered once, where one by one they are answered twice.
The second word of the chunk counts as an argument of the first. -/
theorem two_commands_answered_once :
    diary exampleServer (fun _ => true) (twoAtOnce.chunks.map some) ≠
      diary exampleServer (fun _ => true)
        ((sentLines [latin1 "HELP", latin1 "HELP"]).map some) := by
  intro same
  have replies := congrArg (fun outcome => outcome.toOption.map fun session => session.sent.length)
    same
  exact absurd replies (by decide)

end Schnitzeljagd.Diary
