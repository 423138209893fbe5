import Schnitzeljagd.Bulld.HandleClient

/-!
# What commands do to bulld

The check of the length comes after the NUL has been stored and lets a command of 256
bytes through, which has no room for it. A command that is not known is a format for
`sprintf`, so what `out` receives depends on its percent signs: a pair of them becomes one,
and what any other directive gives is not determined by the command.

Both results are about all reads of a session, and say which commands keep it inside its
arrays and which come back as they were sent.
-/

namespace Schnitzeljagd.Bulld

open Foundations.CArithmetic Foundations.CString Foundations.FormatString Foundations.Loops
open Foundations.PerlText (latin1)

/-! ## The branch for unknown commands -/

section Unknown

variable {client next : Client} {machine : Machine} {chunk text : List Byte}

/-- A text that fits is sent up to its first NUL. -/
theorem unknown_fits (formatted : machine.format (untilNul chunk) = some text)
    (fits : text.length < client.out.length) :
    unknown machine (received client chunk) = some { received client chunk with
      out := text ++ 0 :: client.out.drop (text.length + 1)
      sent := client.sent ++ unkn ++ untilNul text } := by
  rw [unknown_text (sprintf_fits formatted fits), stringAt_terminated]
  rfl

/-- Nothing else leads to a next command. -/
theorem unknown_some (answered : unknown machine (received client chunk) = some next) :
    ∃ text, machine.format (untilNul chunk) = some text ∧ text.length < client.out.length ∧
      next = { received client chunk with
        out := text ++ 0 :: client.out.drop (text.length + 1)
        sent := client.sent ++ unkn ++ untilNul text } := by
  cases printed : machine.sprintf client.out (untilNul chunk) with
  | none =>
    have command : stringAt ((received client chunk).write unkn).input 0 = some (untilNul chunk) :=
      stringAt_terminated chunk _
    have same : ((received client chunk).write unkn).out = client.out := rfl
    simp [unknown, command, same, printed] at answered
  | some out =>
    obtain ⟨text, formatted, fits, rfl⟩ := sprintf_some printed
    refine ⟨text, formatted, fits, ?_⟩
    rw [unknown_fits formatted fits] at answered
    exact (Option.some.inj answered).symm

end Unknown

/-! ## Sessions -/

/-- After this command, unless it is stuck, the session reads the next one. -/
structure Continues (chunk : List Byte) : Prop where
  nonempty : chunk ≠ []
  accepted : chunk.length ≤ sizeofIn
  goesOn : beginsWith quitWord chunk = false

/-- A command that is neither help nor quit, and not the end of the connection. It is answered
with what was sent. -/
structure Unknown (chunk : List Byte) : Prop where
  nonempty : chunk ≠ []
  noHelp : beginsWith helpWord chunk = false
  noQuit : beginsWith quitWord chunk = false

section Sessions

variable {client next : Client} {read : Read} {reads : List Read} {chunk : List Byte}
  {session : Session}

/-- No command begins with both words. -/
theorem beginsWith_help_quit (helps : beginsWith helpWord chunk = true) :
    beginsWith quitWord chunk = false := by
  have apart : helpWord.map tolower ≠ quitWord.map tolower := by decide
  rw [beginsWith, decide_eq_true_eq] at helps
  rw [beginsWith, decide_eq_false_iff_not]
  intro quits
  exact apart (helps.symm.trans quits)

/-- A turn that leads to a session found room for the NUL, or the end of the connection. -/
theorem handleRead_some (sized : Sized client)
    (turned : handleRead (.running client) read = some session) :
    read.chunk = [] ∧ session = .returned client ∨
      read.chunk ≠ [] ∧ read.chunk.length < sizeofIn ∧
        handle read.machine (received client read.chunk) read.chunk.length = some session := by
  obtain ⟨chunk, machine⟩ := read
  by_cases empty : chunk = []
  · rw [handleRead, if_pos empty] at turned
    exact .inl ⟨empty, (Option.some.inj turned).symm⟩
  · by_cases room : chunk.length < sizeofIn
    · rw [handleRead_room sized empty room] at turned
      exact .inr ⟨empty, room, turned⟩
    · rw [handleRead_full sized (Nat.le_of_not_lt room)] at turned
      cases turned

/-- What a turn that leads to the next command was. -/
theorem handleRead_running (sized : Sized client)
    (turned : handleRead (.running client) read = some (.running next)) :
    Sized next ∧ Continues read.chunk := by
  obtain ⟨_, ended⟩ | ⟨nonempty, room, handled⟩ := handleRead_some sized turned
  · cases ended
  · have sizes := received_sized sized room
    rw [handle_cases sized room] at handled
    by_cases helps : beginsWith helpWord read.chunk = true
    · rw [if_pos helps] at handled
      obtain rfl := Session.running.inj (Option.some.inj handled)
      exact ⟨⟨sizes.input, sizes.out⟩, nonempty, Nat.le_of_lt room, beginsWith_help_quit helps⟩
    · rw [if_neg helps] at handled
      by_cases quits : beginsWith quitWord read.chunk = true
      · rw [if_pos quits] at handled
        cases handled
      · rw [if_neg quits, Option.map_eq_some_iff] at handled
        obtain ⟨answered, unknown, same⟩ := handled
        obtain rfl := Session.running.inj same
        obtain ⟨text, _, fits, rfl⟩ := unknown_some unknown
        refine ⟨⟨sizes.input, ?_⟩, nonempty, Nat.le_of_lt room, eq_false_of_ne_true quits⟩
        have full := sized.out
        simp only [List.length_append, List.length_cons, List.length_drop]
        omega

/-- The session leads back to a command only if no read before has ended it. -/
theorem handleclient_running (ran : handleclient reads = some (.running client)) :
    Sized client ∧ ∀ chunk ∈ reads.map Read.chunk, Continues chunk := by
  have held := foldlM_history handleRead _
    (fun reads session => ∀ client, session = .running client →
      Sized client ∧ ∀ chunk ∈ reads.map Read.chunk, Continues chunk)
    ?_ ?_ reads (.running client) ran
  · exact held client rfl
  · intro client same
    obtain rfl := Session.running.inj same
    exact ⟨initial_sized, List.forall_mem_nil _⟩
  · rintro earlier session read next _ holds turned client rfl
    cases session with
    | returned client => cases turned
    | running before =>
      obtain ⟨sized, continued⟩ := holds before rfl
      obtain ⟨sizedNext, continues⟩ := handleRead_running sized turned
      refine ⟨sizedNext, ?_⟩
      rw [List.map_append, List.map_singleton]
      exact List.forall_mem_append.mpr ⟨continued, List.forall_mem_singleton.mpr continues⟩

/-- Where the turn is not stuck, a command that does not end the session leads to the
next one. -/
theorem handleRead_continues (sized : Sized client) (continues : Continues read.chunk)
    (turned : handleRead (.running client) read = some session) :
    ∃ next, session = .running next := by
  obtain ⟨empty, _⟩ | ⟨_, room, handled⟩ := handleRead_some sized turned
  · exact absurd empty continues.nonempty
  · rw [handle_cases sized room, continues.goesOn] at handled
    split at handled
    · exact ⟨_, (Option.some.inj handled).symm⟩
    · rw [if_neg Bool.false_ne_true, Option.map_eq_some_iff] at handled
      obtain ⟨next, _, same⟩ := handled
      exact ⟨next, same.symm⟩

end Sessions

/-- The reads of some commands on a machine where no directive comes to an end. -/
def silentReads (chunks : List (List Byte)) : List Read := chunks.map fun chunk => ⟨chunk, silent⟩

/-- The commands of the silent reads are those they were made of. -/
theorem silentReads_chunk (chunks : List (List Byte)) :
    (silentReads chunks).map Read.chunk = chunks := by
  rw [silentReads, List.map_map]
  exact List.map_id chunks

/-- If no command that continues the session is stuck there, the session reaches every
command that no earlier one keeps it from. -/
theorem handleclient_reaches (chunks : List (List Byte))
    (free : ∀ earlier chunk rest client,
      chunks = (silentReads earlier).map Read.chunk ++ chunk :: rest →
      handleclient (silentReads earlier) = some (.running client) → Continues chunk →
        ∃ session, handleRead (.running client) ⟨chunk, silent⟩ = some session)
    (earlier rest : List (List Byte)) (split : chunks = earlier ++ rest)
    (continued : ∀ chunk ∈ earlier, Continues chunk) :
    ∃ client, chunks = (silentReads earlier).map Read.chunk ++ rest ∧
      handleclient (silentReads earlier) = some (.running client) := by
  induction earlier using List.reverseRecOn generalizing rest with
  | nil => exact ⟨_, split, rfl⟩
  | append_singleton earlier chunk inductionHypothesis =>
    have continues := continued chunk (List.mem_append_right _ (List.mem_singleton_self chunk))
    obtain ⟨client, own, ran⟩ := inductionHypothesis (chunk :: rest)
      (by rw [split, List.append_assoc, List.singleton_append])
      fun other member => continued other (List.mem_append_left _ member)
    obtain ⟨session, turned⟩ := free earlier chunk rest client own ran continues
    obtain ⟨next, rfl⟩ := handleRead_continues (handleclient_running ran).1 continues turned
    refine ⟨next, by rw [silentReads_chunk, split], ?_⟩
    rw [silentReads, List.map_append]
    exact foldlM_concat.mpr ⟨_, ran, turned⟩

/-! ## What fits -/

/-- Every command that the check of the length lets through is handled inside the arrays. It is
asked of the commands that the session comes to, on every machine. -/
def Contained (chunks : List (List Byte)) : Prop :=
  ∀ earlier read rest client, chunks = earlier.map Read.chunk ++ read.chunk :: rest →
    handleclient earlier = some (.running client) → read.chunk.length ≤ sizeofIn →
      ∃ session, handleRead (.running client) read = some session

/-- The command leaves room for the NUL and is not a format with directives. -/
def Fits (command : List Byte) : Prop :=
  command.length < sizeofIn ∧
    (beginsWith helpWord command = true ∨ beginsWith quitWord command = true ∨
      Plain (untilNul command))

section Fitting

variable {client : Client} {command : List Byte} {session : Session}

/-- A command that fits is handled on every machine: help and quit by their own answers, the
others by an answer that is no longer than the command. -/
theorem handleRead_fits (sized : Sized client) (fits : Fits command) (machine : Machine) :
    ∃ session, handleRead (.running client) ⟨command, machine⟩ = some session := by
  obtain ⟨room, kind⟩ := fits
  by_cases empty : command = []
  · exact ⟨.returned client, by rw [handleRead, if_pos empty]; rfl⟩
  · rw [handleRead_room sized empty room, handle_cases sized room]
    split
    · exact ⟨_, rfl⟩
    · next noHelp =>
      split
      · exact ⟨_, rfl⟩
      · next noQuit =>
        obtain helps | quits | plain := kind
        · exact absurd helps noHelp
        · exact absurd quits noQuit
        · obtain ⟨text, formatted, shorter, _⟩ := format_plain plain
          have inside : text.length < client.out.length := by
            have most := untilNul_length command
            rw [sized.out]
            omega
          rw [unknown_fits (formatted machine) inside]
          exact ⟨_, rfl⟩

/-- On the silent machine nothing but a command that fits is handled. Without room the NUL has no
place, and a directive does not come to an end. -/
theorem fits_of_handleRead (sized : Sized client)
    (turned : handleRead (.running client) ⟨command, silent⟩ = some session) : Fits command := by
  obtain ⟨empty, _⟩ | ⟨_, room, handled⟩ := handleRead_some sized turned
  · obtain rfl : command = [] := empty
    refine ⟨by decide, .inr (.inr ?_)⟩
    exact plain_literal List.not_mem_nil
  · refine ⟨room, ?_⟩
    rw [handle_cases sized room] at handled
    split at handled
    · next helps => exact .inl helps
    · split at handled
      · next quits => exact .inr (.inl quits)
      · rw [Option.map_eq_some_iff] at handled
        obtain ⟨next, answered, _⟩ := handled
        obtain ⟨text, formatted, _⟩ := unknown_some answered
        exact .inr (.inr (silent_plain formatted))

end Fitting

/-- Whatever the machine, all commands of a session that are not rejected stay inside the arrays,
exactly if each of them that the session comes to leaves room for the NUL and is help, quit or no
format with directives.

For the first direction it is enough to look at one machine, the silent one, on which no directive
ends: the session gets to the command with it, and the command is handled by it only if it fits.
In the other direction a command that fits has no directive that the machine could be asked about,
so that any machine will do. -/
theorem commands_contained_iff (chunks : List (List Byte)) :
    Contained chunks ↔ ∀ earlier command rest, chunks = earlier ++ command :: rest →
      (∀ chunk ∈ earlier, Continues chunk) → command.length ≤ sizeofIn → Fits command := by
  constructor
  · intro contained earlier command rest split continued accepted
    obtain ⟨client, own, ran⟩ := handleclient_reaches chunks
      (fun before chunk rest client own ran continues =>
        contained _ ⟨chunk, silent⟩ rest client own ran continues.accepted)
      earlier (command :: rest) split continued
    obtain ⟨session, turned⟩ := contained _ ⟨command, silent⟩ rest client own ran accepted
    exact fits_of_handleRead (handleclient_running ran).1 turned
  · intro fits earlier read rest client split ran accepted
    obtain ⟨sized, continued⟩ := handleclient_running ran
    apply handleRead_fits sized
    exact fits (earlier.map Read.chunk) read.chunk rest split continued accepted

/-- The check lets a command of 256 bytes through, and a short one that asks for a field of
300 bytes. No machine handles either of them. -/
theorem accepted_commands_overrun :
    (List.replicate 256 0x41 : List Byte).length ≤ sizeofIn ∧
      (latin1 "%300d").length ≤ sizeofIn ∧
        ∀ machine : Machine, handleclient [⟨List.replicate 256 0x41, machine⟩] = none ∧
          handleclient [⟨latin1 "%300d", machine⟩] = none := by
  refine ⟨List.length_replicate.le, by decide, ?_⟩
  intro machine
  rw [handleclient_single, handleclient_single]
  constructor
  · exact handleRead_full initial_sized List.length_replicate.ge
  · rw [handleRead_room initial_sized (by decide) (by decide),
      handle_cases initial_sized (by decide), if_neg (by decide), if_neg (by decide),
      Option.map_eq_none_iff, Option.eq_none_iff_forall_ne_some]
    intro next answered
    obtain ⟨text, formatted, fits, _⟩ := unknown_some answered
    have wide := render_wide ⟨latin1 "300", some 0x64⟩ _ (by decide) formatted
    have width : Directive.width ⟨latin1 "300", some 0x64⟩ = 300 := by decide
    rw [initial_sized.out, sizeofIn] at fits
    omega

/-! ## What comes back -/

/-- Every unknown command is answered by what was sent up to the first NUL, if the session comes
to it. -/
def Faithful (chunks : List (List Byte)) : Prop :=
  ∀ earlier read rest client, chunks = earlier.map Read.chunk ++ read.chunk :: rest →
    handleclient earlier = some (.running client) → Unknown read.chunk →
      ∃ next, handleRead (.running client) read = some (.running next) ∧
        next.sent = client.sent ++ unkn ++ untilNul read.chunk

section Echo

variable {client next : Client} {command : List Byte}

/-- A command without a percent sign is its own format, so that it comes back unchanged on every
machine. -/
theorem echo_literal (sized : Sized client) (isUnknown : Unknown command)
    (room : command.length < sizeofIn) (absent : percent ∉ untilNul command) (machine : Machine) :
    ∃ next, handleRead (.running client) ⟨command, machine⟩ = some (.running next) ∧
      next.sent = client.sent ++ unkn ++ untilNul command := by
  have inside : (untilNul command).length < client.out.length := by
    rw [sized.out]
    exact (untilNul_length command).trans_lt room
  rw [handleRead_room sized isUnknown.nonempty room, handle_cases sized room, isUnknown.noHelp,
    isUnknown.noQuit, unknown_fits (format_literal absent) inside]
  refine ⟨_, rfl, ?_⟩
  rw [untilNul_untilNul]

/-- On the machine where no directive comes to an end, an exact echo had no percent sign:
with a pair of them it is shorter. -/
theorem literal_of_echo (sized : Sized client) (isUnknown : Unknown command)
    (turned : handleRead (.running client) ⟨command, silent⟩ = some (.running next))
    (echoed : next.sent = client.sent ++ unkn ++ untilNul command) :
    percent ∉ untilNul command := by
  obtain ⟨_, ended⟩ | ⟨_, room, handled⟩ := handleRead_some sized turned
  · cases ended
  · rw [handle_cases sized room, isUnknown.noHelp, isUnknown.noQuit, if_neg Bool.false_ne_true,
      if_neg Bool.false_ne_true, Option.map_eq_some_iff] at handled
    obtain ⟨answered, unknown, same⟩ := handled
    obtain rfl := Session.running.inj same
    obtain ⟨text, formatted, _, rfl⟩ := unknown_some unknown
    have same : untilNul text = untilNul command := List.append_cancel_left echoed
    obtain ⟨plainText, formats, _, shorter⟩ := format_plain (silent_plain formatted)
    obtain rfl := Option.some.inj ((formats silent).symm.trans formatted)
    intro present
    have less : plainText.length < (untilNul command).length := shorter present
    have most : (untilNul command).length ≤ plainText.length := same ▸ untilNul_length plainText
    omega

end Echo

/-- In a session of reads that leave room for the NUL, every unknown command comes back as it was
sent, whatever the machine, exactly if none that the session comes to has a percent sign before
its first NUL.

The commands before the one in question have to be passed in the first direction, and they are,
since an unknown one is answered by assumption and help always is. An answer that equals the
command has the length of the command, and on the silent machine a pair of percent signs shortens
it. Without a percent sign the format is copied. -/
theorem echoes_faithful_iff (chunks : List (List Byte))
    (short : ∀ chunk ∈ chunks, chunk.length ≤ 255) :
    Faithful chunks ↔ ∀ earlier command rest, chunks = earlier ++ command :: rest →
      (∀ chunk ∈ earlier, Continues chunk) → Unknown command → percent ∉ untilNul command := by
  have roomy : ∀ chunk ∈ chunks, chunk.length < sizeofIn := fun chunk member =>
    Nat.lt_succ_of_le (short chunk member)
  constructor
  · intro faithful earlier command rest split continued isUnknown
    obtain ⟨client, own, ran⟩ := handleclient_reaches chunks
      (fun before chunk rest client own ran continues => by
        by_cases helps : beginsWith helpWord chunk = true
        · have room := roomy chunk (by simp [own])
          exact handleRead_fits (handleclient_running ran).1 ⟨room, .inl helps⟩ silent
        · obtain ⟨next, turned, _⟩ := faithful _ ⟨chunk, silent⟩ rest client own ran
            ⟨continues.nonempty, eq_false_of_ne_true helps, continues.goesOn⟩
          exact ⟨_, turned⟩)
      earlier (command :: rest) split continued
    obtain ⟨next, turned, echoed⟩ := faithful _ ⟨command, silent⟩ rest client own ran isUnknown
    exact literal_of_echo (handleclient_running ran).1 isUnknown turned echoed
  · intro literal earlier read rest client split ran isUnknown
    obtain ⟨sized, continued⟩ := handleclient_running ran
    exact echo_literal sized isUnknown (roomy _ (by simp [split]))
      (literal _ read.chunk rest split continued isUnknown) read.machine

/-- A session of two commands without percent signs. -/
theorem echoes_faithful_iff_words : Faithful [latin1 "hallo\n", latin1 "Wer ist da?\n"] := by
  have literal : ∀ chunk ∈ [latin1 "hallo\n", latin1 "Wer ist da?\n"],
      percent ∉ untilNul chunk := by
    decide
  refine (echoes_faithful_iff _ (by decide)).mpr ?_
  intro earlier command rest split _ _
  exact literal command (split ▸ List.mem_append_right _ List.mem_cons_self)

/-- A pair of percent signs comes back as one. -/
theorem pair_not_echoed :
    untilNul (latin1 "100%%") ≠ latin1 "100%" ∧
      ∀ machine : Machine, ∃ client, handleclient [⟨latin1 "100%%", machine⟩] =
        some (.running client) ∧ client.sent = welcome ++ unkn ++ latin1 "100%" := by
  refine ⟨by decide, ?_⟩
  intro machine
  rw [handleclient_single, handleRead_room initial_sized (by decide) (by decide),
    handle_cases initial_sized (by decide), if_neg (by decide), if_neg (by decide)]
  have formatted : machine.format (untilNul (latin1 "100%%")) = some (latin1 "100%") := rfl
  have room : (latin1 "100%").length < initial.out.length := by
    rw [initial_sized.out]
    decide
  have clean : untilNul (latin1 "100%") = latin1 "100%" := by decide
  rw [unknown_fits formatted room]
  refine ⟨_, rfl, ?_⟩
  rw [clean, initial]

end Schnitzeljagd.Bulld
