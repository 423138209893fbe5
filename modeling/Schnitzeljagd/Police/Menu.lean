import Schnitzeljagd.Police.Terminal
import Schnitzeljagd.Foundations.Loops
import Schnitzeljagd.Foundations.Traces

/-!
# Where a session of the police terminal can get

The next state of the loop comes from the rule, from the entry of the table, or from a
function that writes to the caller's variable. Each step is described once, for each
entry of the table. From this follows that the loop never meets an unknown state, and
that it shows the confidential message only to a client that has given the login
prompt a long answer and has not left the inner menu since.
-/

namespace Schnitzeljagd.Police

open Foundations.PerlText Foundations.LineFile Foundations.Loops Foundations.Traces

/-! ## Rules and stripped strings -/

/-- What is left after stripping ends in something other than white space, in particular in no
newline. -/
theorem stripTrailing_last (str : Text) : (stripTrailing str).getLast? ≠ some newline := by
  intro last
  obtain ⟨nonempty, same⟩ := List.mem_getLast?_eq_getLast last
  apply List.rdropWhile_last_not isSpace str nonempty
  change isSpace ((stripTrailing str).getLast nonempty) = true
  rw [← same]
  decide

/-- On a string without white space at the end, a rule matches the whole string. The newline that
`$` would allow for is gone by then. -/
theorem fits_stripTrailing (regex : Regex) (str : Text) :
    regex.fits (stripTrailing str) = regex.accepts (stripTrailing str) := by
  simp [Regex.fits, stripTrailing_last str]

/-! ## What the client has done -/

/-- The client has given the login prompt more than ten characters on one line, and since then it
has been in the inner menu, where it asked for the message or sent what no rule matches. The
transcript is read from its last login on. -/
def Earned (transcript : List Event) : Prop :=
  ∃ before str after, transcript = before ++ .hears "login" str :: after ∧
    newline ∉ stripTrailing str ∧ 10 < (stripTrailing str).length ∧
    ∀ state line, .hears state line ∈ after → state = "insidemenu" ∧
      (stripTrailing line = latin1 "1" ∨
        ∀ rule ∈ insidemenu.input.getD [], rule.regex.fits (stripTrailing line) = false)

/-- A password of more than ten characters on one line earns the message at once. -/
theorem earned_login (transcript : List Event) (str : Text) (oneLine : newline ∉ stripTrailing str)
    (long : 10 < (stripTrailing str).length) : Earned (transcript ++ [.hears "login" str]) :=
  ⟨transcript, str, [], rfl, oneLine, long, fun _ _ member => absurd member List.not_mem_nil⟩

/-- What has been earned stays earned as long as whatever is received comes in the inner menu and
does not leave it. -/
theorem Earned.concat {transcript : List Event} (earned : Earned transcript) (event : Event)
    (permitted : ∀ state line, event = .hears state line → state = "insidemenu" ∧
      (stripTrailing line = latin1 "1" ∨
        ∀ rule ∈ insidemenu.input.getD [], rule.regex.fits (stripTrailing line) = false)) :
    Earned (transcript ++ [event]) := by
  obtain ⟨before, str, after, rfl, oneLine, long, since⟩ := earned
  refine ⟨before, str, after ++ [event], by simp, oneLine, long, ?_⟩
  intro state line member
  obtain earlier | last := List.mem_append.mp member
  · exact since state line earlier
  · exact permitted state line (List.mem_singleton.mp last).symm

/-- Output takes nothing away. -/
theorem Earned.shows {transcript : List Event} (earned : Earned transcript) (texts : List Text) :
    Earned (transcript ++ texts.map Event.shows) := by
  induction texts using List.reverseRecOn with
  | nil => simpa using earned
  | append_singleton texts text inductionHypothesis =>
    rw [List.map_append, ← List.append_assoc]
    exact inductionHypothesis.concat _ fun state line same => by simp at same

/-! ## What a step shows -/

/-- A text that begins in another way than the confidential message. Its beginning is enough to
tell the two apart: a newline, and a blank in the fourth place. -/
def Harmless (text : Text) : Prop := text.head? ≠ some newline ∨ text[3]? ≠ some 0x20

/-- The confidential message begins as described for every address. -/
theorem harmless_ne_motd (address text : Text) (harmless : Harmless text) :
    text ≠ motd address := by
  rintro rfl
  rcases harmless with first | fourth
  · exact first rfl
  · exact fourth rfl

/-- The second terminal has shown further texts, none of them the confidential message. All
functions but one do no more than that. -/
def ShowsOnly (terminal next : Terminal) : Prop :=
  ∃ texts : List Text, next.transcript = terminal.transcript ++ texts.map Event.shows ∧
    ∀ text ∈ texts, Harmless text

/-- Doing nothing shows nothing. -/
theorem ShowsOnly.refl (terminal : Terminal) : ShowsOnly terminal terminal :=
  ⟨[], by simp, List.forall_mem_nil _⟩

/-- One thing after the other shows what both show. -/
theorem ShowsOnly.trans {first second third : Terminal} (before : ShowsOnly first second)
    (after : ShowsOnly second third) : ShowsOnly first third := by
  obtain ⟨texts, shown, harmless⟩ := before
  obtain ⟨more, shownAfter, harmlessAfter⟩ := after
  refine ⟨texts ++ more, by rw [shownAfter, shown]; simp, ?_⟩
  intro text member
  obtain earlier | later := List.mem_append.mp member
  · exact harmless text earlier
  · exact harmlessAfter text later

/-- Showing one text that is not the message. -/
theorem cout_shows (text : Text) (terminal : Terminal) (harmless : Harmless text) :
    ShowsOnly terminal (cout text terminal) :=
  ⟨[text], rfl, fun _ member => List.mem_singleton.mp member ▸ harmless⟩

/-- The report of a crash begins with two blanks behind its newline, and is not the message. -/
theorem gpf_shows (terminal : Terminal) : ShowsOnly terminal (gpf terminal) :=
  cout_shows _ _ (Or.inr (by decide))

/-- Whether or not the file can be opened, saving shows only texts about saving. -/
theorem saveentry_shows (files : Files) (str : Text) (terminal : Terminal) :
    ShowsOnly terminal (saveentry files str terminal) := by
  have asked := cout_shows (latin1 "Gespeicherte Einträge\n") terminal (Or.inl (by decide))
  rw [saveentry]
  split
  · exact asked
  · split
    · exact asked
    · apply asked.trans
      exact ⟨[latin1 "\n", latin1 "'" ++ chomp str ++ latin1 "' wurde gespeichert\n\n"],
        by simp [cout], by
          rintro text member
          simp only [List.mem_cons, List.not_mem_nil, or_false] at member
          rcases member with rfl | rfl
          · exact Or.inr (by decide)
          · exact Or.inl (by simp [latin1, newline])⟩

/-- A loop that shows a text for each line of the file. -/
theorem foldl_cout (text : Text → Text) (lines : List Text) (terminal : Terminal) :
    lines.foldl (fun terminal line => cout (text line) terminal) terminal =
      { terminal with
        transcript := terminal.transcript ++ (lines.map text).map Event.shows } := by
  induction lines generalizing terminal with
  | nil => simp
  | cons line lines inductionHypothesis =>
    rw [List.foldl_cons, inductionHypothesis]
    simp [cout]

/-- Every hint is shown behind a dash, so that no hint can be made to look like the message. -/
theorem readentries_shows (files : Files) (terminal : Terminal) :
    ShowsOnly terminal (readentries files terminal) := by
  have asked := cout_shows (latin1 "Gespeicherte Einträge\n") terminal (Or.inl (by decide))
  rw [readentries]
  split
  · exact asked
  · rw [foldl_cout]
    refine asked.trans ⟨_, rfl, ?_⟩
    intro text member
    obtain ⟨eintrag, _, rfl⟩ := List.mem_map.mp member
    exact Or.inl (by simp [latin1, newline])

/-- The answer to a password shows nothing confidential, even if the password is accepted. -/
theorem handlepasswd_shows (str : Text) (terminal : Terminal) :
    ShowsOnly terminal (handlepasswd str terminal) := by
  have checked := cout_shows (latin1 "Überprüfe Passwort\n") terminal (Or.inl (by decide))
  rw [handlepasswd]
  split
  · exact checked.trans (gpf_shows _)
  · exact checked.trans ((cout_shows _ _ (Or.inr (by decide))).trans
      (cout_shows (latin1 "Anmeldung fehlgeschlagen\n\n") _ (Or.inl (by decide))))

/-! ## What one step does -/

/-- A state outside the inner menu that the loop knows. From these states the message cannot be
reached without a login. -/
def Plain (state : String) : Prop :=
  state = "main" ∨ state = "input" ∨ state = "read" ∨ state = "login" ∨ state = "quit" ∨
    state = "finished"

/-- The table, name by name. Every case analysis on states goes through this lemma. -/
theorem config_cases (state : String) (cs : Entry) (found : config.lookup state = some cs) :
    state = "start" ∧ cs = start ∨ state = "main" ∧ cs = main ∨ state = "input" ∧ cs = input ∨
      state = "read" ∧ cs = read ∨ state = "quit" ∧ cs = quit ∨ state = "login" ∧ cs = login ∨
      state = "inside" ∧ cs = inside ∨ state = "insidemenu" ∧ cs = insidemenu := by
  obtain ⟨before, after, whole, _⟩ := List.lookup_eq_some_iff.mp found
  have member : (state, cs) ∈ config := by
    rw [whole]
    exact List.mem_append_right _ List.mem_cons_self
  simpa [config] using member

/-- The entries that ask for input. Only these can be left by what a client sends. -/
theorem prompt_cases (state : String) (cs : Entry) (found : config.lookup state = some cs)
    (asks : cs.input.isSome) :
    state = "main" ∧ cs = main ∨ state = "input" ∧ cs = input ∨ state = "login" ∧ cs = login ∨
      state = "insidemenu" ∧ cs = insidemenu := by
  rcases config_cases state cs found with
    ⟨_, rfl⟩ | main | input | ⟨_, rfl⟩ | ⟨_, rfl⟩ | login | ⟨_, rfl⟩ | insidemenu
  · simp [start] at asks
  · exact Or.inl main
  · exact Or.inr (Or.inl input)
  · simp [read] at asks
  · simp [quit] at asks
  · exact Or.inr (Or.inr (Or.inl login))
  · simp [inside] at asks
  · exact Or.inr (Or.inr (Or.inr insidemenu))

/-- With a known state the first part of the loop body shows the output, and stops at a prompt or
goes on. -/
theorem beginTurn_found (address : Text) (files : Files) (terminal : Terminal) (cs : Entry)
    (found : config.lookup terminal.state = some cs) :
    beginTurn address files terminal =
      if cs.input.isSome then
        { cout (latin1 "> ") (output address files cs terminal) with point := .prompt cs }
      else endTurn cs (output address files cs terminal) := by
  have unfinished : terminal.state ≠ "finished" := by
    intro finished
    rw [finished] at found
    have missing : config.lookup "finished" = none := rfl
    simp [missing] at found
  rw [beginTurn, if_neg unfinished, found]

/-- From a state of the table, the first part of the loop body leads on from the inner state,
leads on from another state without input, or stops at the prompt. Only in the first case does it
show the message. -/
theorem beginTurn_cases (address : Text) (files : Files) (terminal : Terminal) (cs : Entry)
    (found : config.lookup terminal.state = some cs) :
    (terminal.state = "inside" ∧ beginTurn address files terminal =
        { cout (motd address) terminal with state := "insidemenu", point := .top }) ∨
      (Plain (beginTurn address files terminal).state ∧
        (beginTurn address files terminal).point = .top ∧
        ShowsOnly terminal (beginTurn address files terminal)) ∨
      (cs.input.isSome ∧ (beginTurn address files terminal).state = terminal.state ∧
        (beginTurn address files terminal).point = .prompt cs ∧
        ShowsOnly terminal (beginTurn address files terminal)) := by
  rw [beginTurn_found address files terminal cs found]
  have asks (text : Text) (harmless : Harmless text) :
      ShowsOnly terminal (cout (latin1 "> ") (cout text terminal)) :=
    (cout_shows _ _ harmless).trans (cout_shows _ _ (Or.inl (by decide)))
  rcases config_cases terminal.state cs found with
    ⟨_, rfl⟩ | ⟨_, rfl⟩ | ⟨_, rfl⟩ | ⟨_, rfl⟩ | ⟨_, rfl⟩ | ⟨_, rfl⟩ | ⟨atInside, rfl⟩ | ⟨_, rfl⟩
  · exact Or.inr (Or.inl ⟨Or.inl rfl, rfl, cout_shows _ _ (Or.inl (by decide))⟩)
  · exact Or.inr (Or.inr ⟨rfl, rfl, rfl, asks _ (Or.inl (by decide))⟩)
  · exact Or.inr (Or.inr ⟨rfl, rfl, rfl, asks _ (Or.inl (by decide))⟩)
  · exact Or.inr (Or.inl ⟨Or.inl rfl, rfl, readentries_shows files terminal⟩)
  · exact Or.inr (Or.inl ⟨by simp [Plain, endTurn, quit], rfl,
      cout_shows _ _ (Or.inl (by decide))⟩)
  · exact Or.inr (Or.inr ⟨rfl, rfl, rfl, asks _ (Or.inl (by decide))⟩)
  · exact Or.inl ⟨atInside, rfl⟩
  · exact Or.inr (Or.inr ⟨rfl, rfl, rfl, asks _ (Or.inl (by decide))⟩)

/-- Whatever rule is followed, the message is not shown: that is left to the output of a state. -/
theorem follow_shows (files : Files) (str : Text) (rule : Rule) (terminal : Terminal) :
    ShowsOnly terminal (follow files str rule terminal) := by
  obtain ⟨_, _, func⟩ := rule
  cases func with
  | none => exact ShowsOnly.refl terminal
  | some func =>
    cases func with
    | gpf => exact gpf_shows terminal
    | saveentry => exact saveentry_shows files str terminal
    | handlepasswd => exact handlepasswd_shows str terminal

/-- The terminal after it has noted a received string, with the state in which it came. -/
def hear (line : Text) (terminal : Terminal) : Terminal :=
  { terminal with transcript := terminal.transcript ++ [.hears terminal.state line] }

/-- An answered prompt follows the first rule that matches the stripped string, if one does.
Otherwise nothing happens, and the prompt comes again. -/
theorem answer_some (files : Files) (cs : Entry) (line : Text) (terminal : Terminal) :
    (∃ rule ∈ cs.input.getD [], rule.regex.accepts (stripTrailing line) = true ∧
      answer files cs (some line) terminal =
        endTurn cs (follow files (stripTrailing line) rule (hear line terminal))) ∨
    ((∀ rule ∈ cs.input.getD [], rule.regex.fits (stripTrailing line) = false) ∧
      answer files cs (some line) terminal = endTurn cs (hear line terminal)) := by
  rw [answer]
  split
  · next rule first =>
    have fits := List.find?_some first
    rw [fits_stripTrailing] at fits
    exact Or.inl ⟨rule, List.mem_of_find?_eq_some first, fits, rfl⟩
  · next noRule =>
    refine Or.inr ⟨fun rule member => ?_, rfl⟩
    simpa using List.find?_eq_none.mp noRule rule member

/-- Answering a prompt never shows the message. -/
theorem answer_shows (files : Files) (cs : Entry) (line : Text) (terminal : Terminal) :
    ShowsOnly (hear line terminal) (answer files cs (some line) terminal) := by
  obtain ⟨rule, _, _, same⟩ | ⟨_, same⟩ := answer_some files cs line terminal
  · rw [same]
    exact follow_shows files _ rule _
  · rw [same]
    exact ShowsOnly.refl _

/-- The states to which an answered prompt leads: out of the inner menu, into it with a password,
or around in it. -/
def Moves (state next : String) (str : Text) : Prop :=
  Plain next ∨
    (state = "login" ∧ next = "inside" ∧ newline ∉ str ∧ 10 < str.length) ∨
    (state = "insidemenu" ∧ (next = "inside" ∨ next = "insidemenu") ∧
      (str = latin1 "1" ∨ ∀ rule ∈ insidemenu.input.getD [], rule.regex.fits str = false))

/-- The length of the password alone decides where it leads. -/
theorem handlepasswd_state (str : Text) (terminal : Terminal) :
    (handlepasswd str terminal).state = if 10 < str.length then "inside" else "main" := by
  rw [handlepasswd]
  split <;> rfl

/-- The table, prompt by prompt: where each of its rules leads, and where no rule leads. -/
theorem answer_moves (files : Files) (terminal : Terminal) (cs : Entry) (line : Text)
    (found : config.lookup terminal.state = some cs) (asks : cs.input.isSome) :
    Moves terminal.state (answer files cs (some line) terminal).state (stripTrailing line) := by
  obtain ⟨rule, member, accepts, same⟩ | ⟨unmatched, same⟩ := answer_some files cs line terminal
  · rw [same]
    rcases prompt_cases terminal.state cs found asks with
      ⟨_, rfl⟩ | ⟨_, rfl⟩ | ⟨atLogin, rfl⟩ | ⟨atMenu, rfl⟩
    · simp only [main, Option.getD_some, List.mem_cons, List.not_mem_nil, or_false] at member
      rcases member with rfl | rfl | rfl | rfl | rfl <;>
        exact Or.inl (by simp [Plain, endTurn, follow, main])
    · simp only [input, Option.getD_some, List.mem_singleton] at member
      subst member
      exact Or.inl (Or.inl rfl)
    · simp only [login, Option.getD_some, List.mem_singleton] at member
      subst member
      have state : (endTurn login (follow files (stripTrailing line)
          { regex := .anything, func := some .handlepasswd } (hear line terminal))).state =
            if 10 < (stripTrailing line).length then "inside" else "main" :=
        handlepasswd_state _ _
      rw [state]
      by_cases long : 10 < (stripTrailing line).length
      · rw [if_pos long]
        exact Or.inr (Or.inl ⟨atLogin, rfl, by simpa [Regex.accepts] using accepts, long⟩)
      · rw [if_neg long]
        exact Or.inl (Or.inl rfl)
    · simp only [insidemenu, Option.getD_some, List.mem_cons, List.not_mem_nil, or_false] at member
      rcases member with rfl | rfl | rfl
      · exact Or.inr (Or.inr ⟨atMenu, Or.inl rfl, Or.inl (by simpa [Regex.accepts] using accepts)⟩)
      · exact Or.inl (Or.inl rfl)
      · exact Or.inl (Or.inl rfl)
  · rw [same]
    rcases prompt_cases terminal.state cs found asks with
      ⟨atMain, rfl⟩ | ⟨atInput, rfl⟩ | ⟨atLogin, rfl⟩ | ⟨atMenu, rfl⟩
    · exact Or.inl (Or.inl atMain)
    · exact Or.inl (Or.inr (Or.inl atInput))
    · exact Or.inl (Or.inr (Or.inr (Or.inr (Or.inl atLogin))))
    · exact Or.inr (Or.inr ⟨atMenu, Or.inr atMenu, Or.inr unmatched⟩)

/-! ## What holds at every point of a run -/

/-- The events that show the confidential message, which depends on the address the server was
started with. -/
def Confidential (address : Text) (event : Event) : Prop := event = .shows (motd address)

/-- The invariant of the loop. Its last two fields say that whoever is inside has earned it, and
that whenever the message was shown, the client had earned it by then. -/
structure Sound (address : Text) (terminal : Terminal) : Prop where
  known : terminal.state = "finished" ∨ ∃ cs, config.lookup terminal.state = some cs
  alive : terminal.point ≠ .died
  prompted : ∀ cs, terminal.point = .prompt cs →
    config.lookup terminal.state = some cs ∧ cs.input.isSome
  /-- The inner states are reached only by clients that have earned it. -/
  admitted : terminal.state = "inside" ∨ terminal.state = "insidemenu" →
    Earned terminal.transcript
  guarded : Guarded (Confidential address) Earned terminal.transcript

/-- The states outside are states that the loop knows, or the one that ends it. -/
theorem Plain.known {state : String} (plain : Plain state) :
    state = "finished" ∨ ∃ cs, config.lookup state = some cs := by
  rcases plain with rfl | rfl | rfl | rfl | rfl | rfl
  · exact Or.inr ⟨main, rfl⟩
  · exact Or.inr ⟨input, rfl⟩
  · exact Or.inr ⟨read, rfl⟩
  · exact Or.inr ⟨login, rfl⟩
  · exact Or.inr ⟨quit, rfl⟩
  · exact Or.inl rfl

/-- Outside is not inside. -/
theorem Plain.outside {state : String} (plain : Plain state) :
    ¬(state = "inside" ∨ state = "insidemenu") := by
  rcases plain with rfl | rfl | rfl | rfl | rfl | rfl <;> decide

/-- Harmless output adds no event that would have to be earned. -/
theorem ShowsOnly.guarded {address : Text} {terminal next : Terminal}
    (shown : ShowsOnly terminal next)
    (guarded : Guarded (Confidential address) Earned terminal.transcript) :
    Guarded (Confidential address) Earned next.transcript := by
  obtain ⟨texts, transcript, harmless⟩ := shown
  rw [transcript]
  apply guarded.append
  intro event member isCritical
  obtain ⟨text, inside, rfl⟩ := List.mem_map.mp member
  exact harmless_ne_motd address text (harmless text inside) (Event.shows.inj isCritical)

/-- Harmless output takes nothing away from what has been earned. -/
theorem ShowsOnly.earned {terminal next : Terminal} (shown : ShowsOnly terminal next)
    (earned : Earned terminal.transcript) : Earned next.transcript := by
  obtain ⟨texts, transcript, _⟩ := shown
  rw [transcript]
  exact earned.shows texts

/-- At the beginning nothing has been shown, and the state is outside. -/
theorem connect_sound (address file : Text) : Sound address (connect file) where
  known := Or.inr ⟨start, rfl⟩
  alive := Point.noConfusion
  prompted := fun _ same => Point.noConfusion same
  admitted := by
    intro inner
    simp [connect] at inner
  guarded := guarded_nil

/-- The first part of the loop body keeps the invariant. The message is shown in one case only,
and there the invariant says that it has been earned. -/
theorem beginTurn_sound (address : Text) (files : Files) (terminal : Terminal)
    (sound : Sound address terminal) : Sound address (beginTurn address files terminal) := by
  obtain finished | ⟨cs, found⟩ := sound.known
  · rw [beginTurn, if_pos finished]
    exact ⟨sound.known, Point.noConfusion, fun _ same => Point.noConfusion same, sound.admitted,
      sound.guarded⟩
  · rcases beginTurn_cases address files terminal cs found with
      ⟨atInside, next⟩ | ⟨plain, atTop, shown⟩ | ⟨asks, sameState, atPrompt, shown⟩
    · have earned := sound.admitted (Or.inl atInside)
      rw [next]
      exact
        { known := Or.inr ⟨insidemenu, rfl⟩
          alive := Point.noConfusion
          prompted := fun _ same => Point.noConfusion same
          admitted := fun _ => earned.concat _ fun _ _ same => Event.noConfusion same
          guarded := sound.guarded.concat _ fun _ => earned }
    · exact
        { known := plain.known
          alive := by rw [atTop]; exact Point.noConfusion
          prompted := fun other same => by rw [atTop] at same; exact Point.noConfusion same
          admitted := fun inner => absurd inner plain.outside
          guarded := shown.guarded sound.guarded }
    · exact
        { known := by rw [sameState]; exact sound.known
          alive := by rw [atPrompt]; exact Point.noConfusion
          prompted := fun other same => by
            rw [atPrompt] at same
            obtain rfl := Point.prompt.inj same
            rw [sameState]
            exact ⟨found, asks⟩
          admitted := fun inner => shown.earned (sound.admitted (sameState ▸ inner))
          guarded := shown.guarded sound.guarded }

/-- The second part keeps it as well: by `answer_moves` a client gets inside with a password, or
was inside before. -/
theorem answer_sound (address : Text) (files : Files) (terminal : Terminal) (cs : Entry)
    (received : Option Text) (sound : Sound address terminal)
    (atPrompt : terminal.point = .prompt cs) :
    Sound address (answer files cs received terminal) := by
  obtain ⟨found, asks⟩ := sound.prompted cs atPrompt
  cases received with
  | none =>
    exact ⟨sound.known, Point.noConfusion, fun _ same => Point.noConfusion same, sound.admitted,
      sound.guarded⟩
  | some line =>
    have atTop : (answer files cs (some line) terminal).point = .top := by
      obtain ⟨_, _, _, same⟩ | ⟨_, same⟩ := answer_some files cs line terminal
      · rw [same]
        rfl
      · rw [same]
        rfl
    have shown := answer_shows files cs line terminal
    have heard : Guarded (Confidential address) Earned (hear line terminal).transcript :=
      sound.guarded.concat _ fun same => Event.noConfusion same
    have moves := answer_moves files terminal cs line found asks
    refine ⟨?_, ?_, ?_, ?_, shown.guarded heard⟩
    · rcases moves with plain | ⟨_, next, _⟩ | ⟨_, next | next, _⟩
      · exact plain.known
      · exact Or.inr ⟨inside, by rw [next]; rfl⟩
      · exact Or.inr ⟨inside, by rw [next]; rfl⟩
      · exact Or.inr ⟨insidemenu, by rw [next]; rfl⟩
    · rw [atTop]
      exact Point.noConfusion
    · intro other same
      rw [atTop] at same
      exact Point.noConfusion same
    · intro inner
      apply shown.earned
      rcases moves with plain | ⟨atLogin, _, oneLine, long⟩ | ⟨atMenu, _, permitted⟩
      · exact absurd inner plain.outside
      · rw [hear, atLogin]
        exact earned_login _ line oneLine long
      · apply (sound.admitted (Or.inr atMenu)).concat _
        intro state other same
        obtain ⟨rfl, rfl⟩ := Event.hears.inj same
        exact ⟨atMenu, permitted⟩

/-- One step keeps the invariant, whichever of the two parts of the loop body it is. -/
theorem step_sound (address : Text) (terminal next : Terminal) (label : Label)
    (sound : Sound address terminal) (stepped : step address terminal label = some next) :
    Sound address next := by
  cases label with
  | output files =>
    rw [step] at stepped
    split at stepped
    · obtain rfl := Option.some.inj stepped
      exact beginTurn_sound address files terminal sound
    · simp at stepped
  | input files received =>
    rw [step] at stepped
    split at stepped
    · next cs atPrompt =>
      obtain rfl := Option.some.inj stepped
      exact answer_sound address files terminal cs received sound atPrompt
    · simp at stepped

/-- Hence it holds after any number of steps. -/
theorem run_sound (address file : Text) (labels : List Label) (terminal : Terminal)
    (ran : run address file labels = some terminal) : Sound address terminal :=
  foldlM_invariant (step address) (Sound address) labels
    (fun state label _ next sound stepped => step_sound address state next label sound stepped)
    _ _ (connect_sound address file) ran

/-- At every point of a run the state is known, and every time the confidential message has been
shown the client had earned it before, by a password of more than ten characters on one line and
no leaving of the inner menu since.

The invariant `Sound` carries more than the claim: who is inside has earned it. One step is
analysed in its two halves. The first half shows the message only in the state `inside`, the
second never shows it and comes to `inside` only from the login prompt or from the inner menu,
where the transcript has everything that `Earned` asks for. -/
theorem run_confidential (address file : Text) (labels : List Label) (terminal : Terminal)
    (ran : run address file labels = some terminal) :
    (terminal.state ∈ config.map Prod.fst ∨ terminal.state = "finished") ∧
      terminal.point ≠ .died ∧
      ∀ before after, terminal.transcript = before ++ .shows (motd address) :: after →
        Earned before := by
  have sound := run_sound address file labels terminal ran
  refine ⟨?_, sound.alive, fun before after shape => sound.guarded before _ after shape rfl⟩
  obtain finished | ⟨cs, found⟩ := sound.known
  · exact Or.inr finished
  · obtain ⟨before, after, whole, _⟩ := List.lookup_eq_some_iff.mp found
    refine Or.inl (List.mem_map.mpr ⟨(terminal.state, cs), ?_, rfl⟩)
    rw [whole]
    exact List.mem_append_right _ List.mem_cons_self

/-- A client logs in with eleven letters and is shown the message. -/
def longLogin : List Label :=
  [.output ⟨true, true⟩, .output ⟨true, true⟩, .input ⟨true, true⟩ (some (latin1 "3\n")),
    .output ⟨true, true⟩, .input ⟨true, true⟩ (some (latin1 "abcdefghijk\n")),
    .output ⟨true, true⟩]

/-- The run of this client. -/
theorem run_confidential_login :
    ∃ terminal, run (latin1 "10.0.0.1") [] longLogin = some terminal ∧
      (terminal.state ∈ config.map Prod.fst ∨ terminal.state = "finished") ∧
      terminal.point ≠ .died ∧
      ∀ before after,
        terminal.transcript = before ++ .shows (motd (latin1 "10.0.0.1")) :: after →
          Earned before :=
  ⟨_, rfl, run_confidential (latin1 "10.0.0.1") [] longLogin _ rfl⟩

end Schnitzeljagd.Police
