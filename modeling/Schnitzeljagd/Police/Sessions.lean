import Schnitzeljagd.Police.Menu

/-!
# The hints after a row of sessions

Sessions that follow one another share only `polsys.txt`. Where every file operation
succeeds, the file always holds the last twenty of the old lines and the hints taken at
the prompt. The prompt takes a string as a hint if it has no newline left after white
space at the end has been removed. Any other string leaves the session at the prompt
and the file as it is.
-/

namespace Schnitzeljagd.Police

open Foundations.PerlText Foundations.LineFile Foundations.Loops

/-- The hint that the prompt takes from a received string. A string with a newline in the middle
is not matched by the rule of the prompt. -/
def Event.hint : Event → Option Text
  | shows _ => none
  | hears state line =>
    if state = "input" ∧ (stripTrailing line).contains newline = false then
      some (stripTrailing line)
    else none

/-- The hints taken in a session, in the order in which they came. -/
def submitted (transcript : List Event) : List Text := transcript.filterMap Event.hint

/-- How the file can be opened in a step. -/
def Label.files : Label → Files
  | output files => files
  | input files _ => files

/-- The file can be opened in every step, so every hint that is taken can be saved. -/
def Undisturbed (labels : List Label) : Prop := ∀ label ∈ labels, label.files = ⟨true, true⟩

/-- The file after sessions that do not overlap, and the hints taken in them. Each session finds
the file as the one before has left it. -/
def succession (address : Text) : Text → List (List Label) → Option (Text × List Text)
  | file, [] => some (file, [])
  | file, labels :: rest => do
    let terminal ← run address file labels
    let (final, hints) ← succession address terminal.file rest
    return (final, submitted terminal.transcript ++ hints)

/-- The hints of a longer transcript are those of its parts. -/
theorem submitted_append (before after : List Event) :
    submitted (before ++ after) = submitted before ++ submitted after :=
  List.filterMap_append

/-- A hint is a single line, so it can be told from its neighbours in the file. -/
theorem submitted_oneLine (transcript : List Event) :
    ∀ hint ∈ submitted transcript, newline ∉ hint := by
  intro hint member
  obtain ⟨event, _, taken⟩ := List.mem_filterMap.mp member
  cases event with
  | shows text => simp [Event.hint] at taken
  | hears state line =>
    rw [Event.hint] at taken
    split at taken
    · next accepted =>
      obtain rfl := Option.some.inj taken
      simpa using accepted.2
    · simp at taken

/-- Output takes no hints. -/
theorem ShowsOnly.submitted {terminal next : Terminal} (shown : ShowsOnly terminal next) :
    Police.submitted next.transcript = Police.submitted terminal.transcript := by
  obtain ⟨texts, transcript, _⟩ := shown
  rw [transcript, submitted_append]
  have nothing : Police.submitted (texts.map Event.shows) = [] := by
    rw [Police.submitted, List.filterMap_map, List.filterMap_eq_nil_iff]
    exact fun _ _ => rfl
  rw [nothing, List.append_nil]

/-! ## What one step does to the file -/

/-- The list of the hints is one text for each line of the file, behind a heading. -/
theorem readentries_listing (terminal : Terminal) :
    readentries ⟨true, true⟩ terminal =
      { terminal with
        transcript := terminal.transcript ++ [.shows (latin1 "Gespeicherte Einträge\n")] ++
          (chompedLines terminal.file).map
            fun eintrag => .shows (latin1 " - " ++ eintrag ++ latin1 "\n") } := by
  rw [readentries, if_neg (by simp), foldl_cout, List.map_map]
  rfl

/-- There is nothing left to be chomped from a stripped string. -/
theorem chomp_stripTrailing (str : Text) : chomp (stripTrailing str) = stripTrailing str := by
  rw [chomp, if_neg (stripTrailing_last str)]

/-- Saving a hint with a file that can be opened: the file is read, changed and written back. -/
theorem saveentry_file (str : Text) (terminal : Terminal) :
    (saveentry ⟨true, true⟩ str terminal).file = saved terminal.file (chomp str) :=
  rfl

/-- The password is not written down. -/
theorem handlepasswd_file (str : Text) (terminal : Terminal) :
    (handlepasswd str terminal).file = terminal.file := by
  rw [handlepasswd]
  split <;> rfl

/-- Reading leaves the file alone. -/
theorem readentries_file (files : Files) (terminal : Terminal) :
    (readentries files terminal).file = terminal.file := by
  rw [readentries]
  split
  · rfl
  · rw [foldl_cout]
    rfl

/-- Showing the output of a state leaves the file alone. -/
theorem beginTurn_file (address : Text) (files : Files) (terminal : Terminal) (cs : Entry)
    (found : config.lookup terminal.state = some cs) :
    (beginTurn address files terminal).file = terminal.file := by
  rw [beginTurn_found address files terminal cs found]
  rcases config_cases terminal.state cs found with
    ⟨_, rfl⟩ | ⟨_, rfl⟩ | ⟨_, rfl⟩ | ⟨_, rfl⟩ | ⟨_, rfl⟩ | ⟨_, rfl⟩ | ⟨_, rfl⟩ | ⟨_, rfl⟩
  case inr.inr.inr.inl => exact readentries_file files terminal
  all_goals rfl

/-- Showing the output of a state takes no hint. -/
theorem beginTurn_submitted (address : Text) (files : Files) (terminal : Terminal) (cs : Entry)
    (found : config.lookup terminal.state = some cs) :
    submitted (beginTurn address files terminal).transcript = submitted terminal.transcript := by
  rcases beginTurn_cases address files terminal cs found with
    ⟨_, next⟩ | ⟨_, _, shown⟩ | ⟨_, _, _, shown⟩
  · rw [next]
    exact (submitted_append _ _).trans (List.append_nil _)
  · exact shown.submitted
  · exact shown.submitted

/-- Rules other than that of the hint prompt leave the file alone. -/
theorem follow_file (files : Files) (str : Text) (rule : Rule) (terminal : Terminal)
    (other : rule.func ≠ some .saveentry) :
    (follow files str rule terminal).file = terminal.file := by
  obtain ⟨_, _, func⟩ := rule
  cases func with
  | none => rfl
  | some func =>
    cases func with
    | gpf => rfl
    | saveentry => exact absurd rfl other
    | handlepasswd => exact handlepasswd_file str terminal

/-- Only a rule of the hint prompt saves. -/
theorem saveentry_rule {state : String} {cs : Entry} {rule : Rule}
    (found : config.lookup state = some cs) (asks : cs.input.isSome)
    (member : rule ∈ cs.input.getD []) (saves : rule.func = some .saveentry) :
    state = "input" := by
  rcases prompt_cases state cs found asks with ⟨_, rfl⟩ | ⟨atInput, _⟩ | ⟨_, rfl⟩ | ⟨_, rfl⟩
  · simp only [main, Option.getD_some, List.mem_cons, List.not_mem_nil, or_false] at member
    rcases member with rfl | rfl | rfl | rfl | rfl <;> simp at saves
  · exact atInput
  · simp only [login, Option.getD_some, List.mem_singleton] at member
    subst member
    simp at saves
  · simp only [insidemenu, Option.getD_some, List.mem_cons, List.not_mem_nil, or_false] at member
    rcases member with rfl | rfl | rfl <;> simp at saves

/-- An answered prompt saves the hint it takes, and changes the file in no other way. So every
change of the file is accounted for by the transcript. -/
theorem answer_file (terminal : Terminal) (cs : Entry) (line : Text)
    (found : config.lookup terminal.state = some cs) (asks : cs.input.isSome) :
    (answer ⟨true, true⟩ cs (some line) terminal).file =
      match (Event.hears terminal.state line).hint with
      | some hint => saved terminal.file hint
      | none => terminal.file := by
  obtain ⟨rule, member, accepts, same⟩ | ⟨unmatched, same⟩ :=
    answer_some ⟨true, true⟩ cs line terminal
  · rw [same]
    by_cases atInput : terminal.state = "input"
    · rw [atInput] at found
      obtain rfl : input = cs := Option.some.inj found
      simp only [input, Option.getD_some, List.mem_singleton] at member
      subst member
      have oneLine : newline ∉ stripTrailing line := by simpa [Regex.accepts] using accepts
      rw [Event.hint, if_pos ⟨atInput, by simpa using oneLine⟩]
      exact (saveentry_file (stripTrailing line) (hear line terminal)).trans
        (congrArg (saved terminal.file) (chomp_stripTrailing line))
    · rw [Event.hint, if_neg fun taken => atInput taken.1]
      apply follow_file _ _ rule (hear line terminal)
      intro saves
      exact atInput (saveentry_rule found asks member saves)
  · rw [same]
    -- Only the catch-all rule of the hint prompt could have taken the string.
    have notTaken : (Event.hears terminal.state line).hint = none := by
      rw [Event.hint, if_neg]
      rintro ⟨atInput, oneLine⟩
      rw [atInput] at found
      obtain rfl : input = cs := Option.some.inj found
      have refused := unmatched _ (List.mem_singleton_self _)
      rw [fits_stripTrailing] at refused
      simp only [List.contains_eq_mem, decide_eq_false_iff_not] at oneLine
      simp [Regex.accepts, oneLine] at refused
    rw [notTaken]
    rfl

/-! ## What a run and a row of runs do to the file -/

/-- The file holds the last twenty of some lines and the hints taken so far. The lines are what
was there before the session. -/
def Stored (lines : List Text) (terminal : Terminal) : Prop :=
  terminal.file = written (lastTwenty (lines ++ submitted terminal.transcript))

/-- An answered prompt keeps this: one hint more in the transcript is one line more in the file,
and the oldest goes when there are twenty. -/
theorem answer_stored (lines : List Text) (terminal : Terminal) (cs : Entry) (line : Text)
    (oneLine : ∀ line ∈ lines, newline ∉ line) (found : config.lookup terminal.state = some cs)
    (asks : cs.input.isSome) (stored : Stored lines terminal) :
    Stored lines (answer ⟨true, true⟩ cs (some line) terminal) := by
  have transcript : submitted (answer ⟨true, true⟩ cs (some line) terminal).transcript =
      submitted terminal.transcript ++ submitted [.hears terminal.state line] := by
    rw [(answer_shows ⟨true, true⟩ cs line terminal).submitted, hear, submitted_append]
  rw [Stored, answer_file terminal cs line found asks, transcript]
  cases taken : (Event.hears terminal.state line).hint with
  | none =>
    have nothing : submitted [.hears terminal.state line] = [] := by simp [submitted, taken]
    rw [nothing, List.append_nil]
    exact stored
  | some hint =>
    have one : submitted [.hears terminal.state line] = [hint] := by simp [submitted, taken]
    rw [one, ← List.append_assoc, stored]
    apply saved_lastTwenty
    intro other member
    obtain old | new := List.mem_append.mp member
    · exact oneLine other old
    · exact submitted_oneLine _ other new

/-- One step of a session keeps it. Only answered prompts can change anything. -/
theorem step_stored (address : Text) (lines : List Text) (terminal next : Terminal)
    (label : Label) (oneLine : ∀ line ∈ lines, newline ∉ line)
    (undisturbed : label.files = ⟨true, true⟩) (sound : Sound address terminal)
    (stored : Stored lines terminal) (stepped : step address terminal label = some next) :
    Stored lines next := by
  cases label with
  | output files =>
    rw [step] at stepped
    split at stepped
    · obtain rfl := Option.some.inj stepped
      obtain finished | ⟨cs, found⟩ := sound.known
      · rw [beginTurn, if_pos finished]
        exact stored
      · rw [Stored, beginTurn_file address files terminal cs found,
          beginTurn_submitted address files terminal cs found]
        exact stored
    · simp at stepped
  | input files received =>
    obtain rfl : files = ⟨true, true⟩ := undisturbed
    rw [step] at stepped
    split at stepped
    · next cs atPrompt =>
      obtain rfl := Option.some.inj stepped
      obtain ⟨found, asks⟩ := sound.prompted cs atPrompt
      cases received with
      | none => exact stored
      | some line => exact answer_stored lines terminal cs line oneLine found asks stored
    · simp at stepped

/-- Hence it holds after any number of steps. -/
theorem run_stored (address : Text) (lines : List Text) (labels : List Label)
    (terminal : Terminal) (oneLine : ∀ line ∈ lines, newline ∉ line)
    (undisturbed : Undisturbed labels)
    (ran : run address (written (lastTwenty lines)) labels = some terminal) :
    Stored lines terminal := by
  have both := foldlM_invariant (step address)
    (fun terminal => Sound address terminal ∧ Stored lines terminal) labels ?_ _ _
    ⟨connect_sound address _, by simp [Stored, connect, submitted]⟩ ran
  · exact both.2
  · rintro state label member next ⟨sound, stored⟩ stepped
    refine ⟨step_sound address state next label sound stepped, ?_⟩
    exact step_stored address lines state next label oneLine (undisturbed label member) sound
      stored stepped

/-- Sessions one after the other store the hints of all of them. By induction on the sessions,
each of which begins with the file that the last one left. -/
theorem succession_stored (address : Text) (lines : List Text) (sessions : List (List Label))
    (final : Text) (hints : List Text) (oneLine : ∀ line ∈ lines, newline ∉ line)
    (undisturbed : ∀ labels ∈ sessions, Undisturbed labels)
    (ran : succession address (written (lastTwenty lines)) sessions = some (final, hints)) :
    final = written (lastTwenty (lines ++ hints)) ∧ ∀ hint ∈ hints, newline ∉ hint := by
  induction sessions generalizing lines hints with
  | nil =>
    obtain ⟨rfl, rfl⟩ := Prod.mk.inj (Option.some.inj ran)
    exact ⟨by rw [List.append_nil], List.forall_mem_nil _⟩
  | cons labels rest inductionHypothesis =>
    obtain ⟨terminal, ranFirst, ranRest⟩ := Option.bind_eq_some_iff.mp ran
    obtain ⟨⟨final', later⟩, ranLater, together⟩ := Option.bind_eq_some_iff.mp ranRest
    obtain ⟨rfl, rfl⟩ := Prod.mk.inj (Option.some.inj together)
    have stored := run_stored address lines labels terminal oneLine
      (undisturbed labels List.mem_cons_self) ranFirst
    have oneLineNow : ∀ line ∈ lines ++ submitted terminal.transcript, newline ∉ line := by
      intro line member
      obtain old | new := List.mem_append.mp member
      · exact oneLine line old
      · exact submitted_oneLine _ line new
    rw [stored] at ranLater
    obtain ⟨file, oneLineLater⟩ := inductionHypothesis _ later oneLineNow
      (fun other member => undisturbed other (List.mem_cons_of_mem _ member)) ranLater
    refine ⟨by rw [file, List.append_assoc], ?_⟩
    intro hint member
    obtain first | last := List.mem_append.mp member
    · exact submitted_oneLine _ hint first
    · exact oneLineLater hint last

/-- Any number of sessions, one after the other, leave the last twenty of the old lines and all
hints taken, in the order in which they came, and every later list shows just these lines.

Inside a session the invariant is `Stored`, kept by every step; the table is needed only to see
that no rule but that of the hint prompt writes (`saveentry_rule`). From one session to the next,
taking the last twenty of a longer list is the same as doing so in two stages. -/
theorem hints_kept (address : Text) (old : List Text) (sessions : List (List Label))
    (final : Text) (hints : List Text) (bounded : old.length ≤ 20)
    (oneLine : ∀ line ∈ old, newline ∉ line)
    (undisturbed : ∀ labels ∈ sessions, Undisturbed labels)
    (ran : succession address (written old) sessions = some (final, hints)) :
    final = written (lastTwenty (old ++ hints)) ∧
      chompedLines final = lastTwenty (old ++ hints) ∧
      ∀ terminal : Terminal, terminal.state = "read" → terminal.file = final →
        (beginTurn address ⟨true, true⟩ terminal).transcript =
          terminal.transcript ++ [.shows (latin1 "Gespeicherte Einträge\n")] ++
            (lastTwenty (old ++ hints)).map
              fun hint => .shows (latin1 " - " ++ hint ++ latin1 "\n") := by
  rw [← lastTwenty_short old bounded] at ran
  obtain ⟨file, oneLineHints⟩ :=
    succession_stored address old sessions final hints oneLine undisturbed ran
  have lines : chompedLines final = lastTwenty (old ++ hints) := by
    rw [file, chompedLines_written]
    intro line member
    obtain earlier | new := List.mem_append.mp ((lastTwenty_suffix _).subset member)
    · exact oneLine line earlier
    · exact oneLineHints line new
  refine ⟨file, lines, ?_⟩
  intro terminal reading holding
  have found : config.lookup terminal.state = some read := by
    rw [reading]
    rfl
  have listed : beginTurn address ⟨true, true⟩ terminal =
      endTurn read (readentries ⟨true, true⟩ terminal) := by
    rw [beginTurn_found address ⟨true, true⟩ terminal read found]
    rfl
  rw [listed, readentries_listing, holding, lines]
  rfl

/-- A client saves one hint, which ends with a space that is stripped from it. -/
def oneHint : List Label :=
  [.output ⟨true, true⟩, .output ⟨true, true⟩, .input ⟨true, true⟩ (some (latin1 "1\n")),
    .output ⟨true, true⟩, .input ⟨true, true⟩ (some (latin1 "neu \n"))]

/-- Two such sessions after each other, with a line in the file before. -/
theorem hints_kept_twice :
    ∃ final hints, succession (latin1 "10.0.0.1") (written [latin1 "alt"]) [oneHint, oneHint] =
        some (final, hints) ∧
      final = written (lastTwenty ([latin1 "alt"] ++ hints)) ∧
      chompedLines final = lastTwenty ([latin1 "alt"] ++ hints) ∧
      ∀ terminal : Terminal, terminal.state = "read" → terminal.file = final →
        (beginTurn (latin1 "10.0.0.1") ⟨true, true⟩ terminal).transcript =
          terminal.transcript ++ [.shows (latin1 "Gespeicherte Einträge\n")] ++
            (lastTwenty ([latin1 "alt"] ++ hints)).map
              fun hint => .shows (latin1 " - " ++ hint ++ latin1 "\n") :=
  ⟨_, _, rfl, hints_kept (latin1 "10.0.0.1") [latin1 "alt"] [oneHint, oneHint] _ _ (by decide)
    (by decide) (by simp [Undisturbed, oneHint, Label.files]) rfl⟩

end Schnitzeljagd.Police
