import Schnitzeljagd.Police.Prompts
import Schnitzeljagd.Police.Sessions

/-!
# Clients that hang up

When the client has closed the connection, every `recv` succeeds with the empty string,
and the loop takes that for an answer. From all states but one the session then makes
its way out over prompts that leave the hints alone. At the prompt for a hint the empty
string is a hint: it is saved, and the oldest of twenty hints makes room for it.
-/

namespace Schnitzeljagd.Police

open Foundations.PerlText Foundations.LineFile Foundations.Loops

/-- What a step receives from a client that has hung up. -/
def Label.hungUp : Label → Prop
  | output _ => True
  | input _ received => received = some []

/-- The client has closed the connection before these steps. -/
def HungUp (labels : List Label) : Prop := ∀ label ∈ labels, label.hungUp

/-- The session is about to ask for a hint, or waits for one. -/
def AwaitsHint (terminal : Terminal) : Prop := terminal.state = "input" ∧ terminal.point ≠ .left

/-- A file of empty lines that is full. -/
def OnlyEmptyHints (file : Text) : Prop :=
  ∃ count, 20 ≤ count ∧ file = written (List.replicate count [])

/-! ## What an empty answer does -/

/-- An empty hint is saved like any other, or the file cannot be opened and stays as it was. -/
theorem saveentry_empty (files : Files) (terminal : Terminal) :
    (saveentry files [] terminal).file = terminal.file ∨
      (saveentry files [] terminal).file = saved terminal.file [] := by
  rw [saveentry]
  split
  · exact Or.inl rfl
  · split
    · exact Or.inl rfl
    · exact Or.inr rfl

/-- An empty answer that is followed up by another rule than that of the hint prompt. -/
theorem answer_empty_unsaved (files : Files) (terminal : Terminal) (cs : Entry) (rule : Rule)
    (next : answer files cs (some []) terminal =
      endTurn cs (follow files [] rule (hear [] terminal)))
    (unsaved : rule.func ≠ some .saveentry) :
    (answer files cs (some []) terminal).file = terminal.file := by
  rw [next]
  exact follow_file files [] rule _ unsaved

/-- An empty answer leads away from the hint prompt, and only there it is saved. -/
theorem answer_empty (files : Files) (terminal : Terminal) (cs : Entry)
    (found : config.lookup terminal.state = some cs) (asks : cs.input.isSome) :
    (answer files cs (some []) terminal).state ≠ "input" ∧
      ((answer files cs (some []) terminal).file = terminal.file ∨
        terminal.state = "input" ∧
          (answer files cs (some []) terminal).file = saved terminal.file []) := by
  rcases prompt_cases terminal.state cs found asks with
    ⟨_, rfl⟩ | ⟨atInput, rfl⟩ | ⟨_, rfl⟩ | ⟨_, rfl⟩
  · have leads : (answer files main (some []) terminal).state = "quit" := rfl
    have same := answer_empty_unsaved files terminal main mainRest.rest rfl (by simp [mainRest])
    rw [leads]
    exact ⟨by decide, Or.inl same⟩
  · have leads : (answer files input (some []) terminal).state = "main" := rfl
    rw [leads]
    refine ⟨by decide, ?_⟩
    obtain same | stored := saveentry_empty files (hear [] terminal)
    · exact Or.inl same
    · exact Or.inr ⟨atInput, stored⟩
  · have leads : (answer files login (some []) terminal).state = "main" := rfl
    have same := answer_empty_unsaved files terminal login loginRest.rest rfl (by simp [loginRest])
    rw [leads]
    exact ⟨by decide, Or.inl same⟩
  · have leads : (answer files insidemenu (some []) terminal).state = "main" := rfl
    have same := answer_empty_unsaved files terminal insidemenu insidemenuRest.rest rfl
      (by simp [insidemenuRest])
    rw [leads]
    exact ⟨by decide, Or.inl same⟩

/-- The first part of the loop body does not lead to the hint prompt. -/
theorem beginTurn_elsewhere (address : Text) (files : Files) (terminal : Terminal) (cs : Entry)
    (found : config.lookup terminal.state = some cs) (elsewhere : terminal.state ≠ "input") :
    (beginTurn address files terminal).state ≠ "input" := by
  rw [beginTurn_found address files terminal cs found]
  rcases config_cases terminal.state cs found with
    ⟨_, rfl⟩ | ⟨_, rfl⟩ | ⟨_, rfl⟩ | ⟨_, rfl⟩ | ⟨_, rfl⟩ | ⟨_, rfl⟩ | ⟨_, rfl⟩ | ⟨_, rfl⟩
  · change "main" ≠ "input"
    decide
  · exact elsewhere
  · exact elsewhere
  · change "main" ≠ "input"
    decide
  · change "finished" ≠ "input"
    decide
  · exact elsewhere
  · change "insidemenu" ≠ "input"
    decide
  · exact elsewhere

/-! ## What a step and a run do -/

/-- One step after the client has hung up. -/
theorem step_hungUp (address : Text) (terminal next : Terminal) (label : Label)
    (hungUp : label.hungUp) (sound : Sound address terminal)
    (stepped : step address terminal label = some next) :
    (terminal.state ≠ "input" → next.state ≠ "input") ∧
      (next.file = terminal.file ∨
        terminal.state = "input" ∧ next.file = saved terminal.file []) := by
  cases label with
  | output files =>
    rw [step] at stepped
    split at stepped
    · obtain rfl := Option.some.inj stepped
      obtain finished | ⟨cs, found⟩ := sound.known
      · rw [beginTurn, if_pos finished]
        exact ⟨id, Or.inl rfl⟩
      · exact ⟨beginTurn_elsewhere address files terminal cs found,
          Or.inl (beginTurn_file address files terminal cs found)⟩
    · simp at stepped
  | input files received =>
    obtain rfl : received = some [] := hungUp
    rw [step] at stepped
    split at stepped
    · next cs atPrompt =>
      obtain rfl := Option.some.inj stepped
      obtain ⟨found, asks⟩ := sound.prompted cs atPrompt
      obtain ⟨elsewhere, file⟩ := answer_empty files terminal cs found asks
      exact ⟨fun _ => elsewhere, file⟩
    · simp at stepped

section Run

variable {address : Text} {after : List Label} {mid final : Terminal}

/-- A session that is not at the hint prompt when the client hangs up leaves the file as
it is. -/
theorem run_hungUp_elsewhere (sound : Sound address mid) (hungUp : HungUp after)
    (elsewhere : mid.state ≠ "input") (ran : after.foldlM (step address) mid = some final) :
    final.file = mid.file := by
  have kept := foldlM_invariant (step address)
    (fun terminal => Sound address terminal ∧ terminal.state ≠ "input" ∧ terminal.file = mid.file)
    after ?_ _ _ ⟨sound, elsewhere, rfl⟩ ran
  · exact kept.2.2
  · rintro terminal label member next ⟨soundNow, elsewhereNow, same⟩ stepped
    obtain ⟨elsewhereThen, file⟩ :=
      step_hungUp address terminal next label (hungUp label member) soundNow stepped
    refine ⟨step_sound address terminal next label soundNow stepped,
      elsewhereThen elsewhereNow, ?_⟩
    rcases file with unchanged | ⟨atInput, _⟩
    · exact unchanged.trans same
    · exact absurd atInput elsewhereNow

/-- A file that an empty hint does not change stays as it is. -/
theorem run_hungUp_empty (sound : Sound address mid) (hungUp : HungUp after)
    (fixed : saved mid.file [] = mid.file) (ran : after.foldlM (step address) mid = some final) :
    final.file = mid.file := by
  have kept := foldlM_invariant (step address)
    (fun terminal => Sound address terminal ∧ terminal.file = mid.file) after ?_ _ _ ⟨sound, rfl⟩ ran
  · exact kept.2
  · rintro terminal label member next ⟨soundNow, same⟩ stepped
    obtain ⟨_, file⟩ :=
      step_hungUp address terminal next label (hungUp label member) soundNow stepped
    refine ⟨step_sound address terminal next label soundNow stepped, ?_⟩
    rcases file with unchanged | ⟨_, stored⟩
    · exact unchanged.trans same
    · rw [stored, same, fixed]

/-- A session that has left the loop does nothing more. -/
theorem run_left (gone : mid.point = .left) (ran : after.foldlM (step address) mid = some final) :
    final = mid := by
  cases after with
  | nil => exact (Option.some.inj ran).symm
  | cons label after =>
    obtain ⟨next, stepped, _⟩ := Option.bind_eq_some_iff.mp ran
    cases label <;> simp [step, gone] at stepped

/-- A session that awaits a hint can go on to save the empty one.

If it stands at the top of the loop it still has to show the prompt. Then the end of the input is
received as an empty hint, and the file can be read and written. -/
theorem run_awaits (sound : Sound address mid) (awaits : AwaitsHint mid) :
    ∃ after final, HungUp after ∧ after.foldlM (step address) mid = some final ∧
      final.file = saved mid.file [] := by
  obtain ⟨atInput, stays⟩ := awaits
  have found : config.lookup mid.state = some input := by
    rw [atInput]
    rfl
  cases point : mid.point with
  | top =>
    have prompt : (beginTurn address ⟨true, true⟩ mid).point = .prompt input ∧
        (beginTurn address ⟨true, true⟩ mid).file = mid.file := by
      rw [beginTurn_found address _ mid input found]
      exact ⟨rfl, rfl⟩
    refine ⟨[.output ⟨true, true⟩, .input ⟨true, true⟩ (some [])],
      answer ⟨true, true⟩ input (some []) (beginTurn address ⟨true, true⟩ mid), ?_, ?_, ?_⟩
    · intro label member
      simp only [List.mem_cons, List.not_mem_nil, or_false] at member
      rcases member with rfl | rfl
      · trivial
      · rfl
    · simp [step, point, prompt.1]
    · exact congrArg (fun file => saved file []) prompt.2
  | prompt cs =>
    obtain ⟨foundHere, _⟩ := sound.prompted cs point
    obtain rfl : input = cs := Option.some.inj (found.symm.trans foundHere)
    refine ⟨[.input ⟨true, true⟩ (some [])], answer ⟨true, true⟩ input (some []) mid, ?_, ?_, rfl⟩
    · intro label member
      rw [List.mem_singleton.mp member]
      rfl
    · simp [step, point]
  | left => exact absurd point stays
  | died => exact absurd point sound.alive

end Run

/-- Whatever happens after the client has hung up leaves the hints as they were, exactly unless
the session awaited a hint then and the file was not a full one of empty lines only.

A session that awaits a hint reads the end of the input as an empty hint and saves it, and saving
an empty hint changes every file except a full one of empty lines. Anywhere else the session
either is over or goes on without coming to the hint prompt, since the closed connection gives it
no choice of a menu item. -/
theorem hang_up_harmless_iff (address file : Text) (before : List Label) (mid : Terminal)
    (ran : run address file before = some mid) :
    (∀ after final, HungUp after → after.foldlM (step address) mid = some final →
      final.file = mid.file) ↔ ¬AwaitsHint mid ∨ OnlyEmptyHints mid.file := by
  have sound := run_sound address file before mid ran
  constructor
  · intro harmless
    by_cases awaits : AwaitsHint mid
    · obtain ⟨after, final, hungUp, ranOn, stored⟩ := run_awaits sound awaits
      right
      rw [OnlyEmptyHints, ← saved_empty_iff, ← stored]
      exact harmless after final hungUp ranOn
    · exact Or.inl awaits
  · rintro (elsewhere | empty) after final hungUp ranOn
    · by_cases gone : mid.point = .left
      · rw [run_left gone ranOn]
      · exact run_hungUp_elsewhere sound hungUp (fun atInput => elsewhere ⟨atInput, gone⟩) ranOn
    · exact run_hungUp_empty sound hungUp ((saved_empty_iff mid.file).mpr empty) ranOn

/-- A client that has chosen to enter a hint. -/
def chosen : List Label :=
  [.output ⟨true, true⟩, .output ⟨true, true⟩, .input ⟨true, true⟩ (some (latin1 "1\n")),
    .output ⟨true, true⟩]

/-- A client that hangs up after it has chosen to enter a hint. -/
theorem hang_up_harmless_chosen :
    ∃ mid, run (latin1 "10.0.0.1") (latin1 "alt\n") chosen = some mid ∧
      ((∀ after final, HungUp after →
          after.foldlM (step (latin1 "10.0.0.1")) mid = some final → final.file = mid.file) ↔
        ¬AwaitsHint mid ∨ OnlyEmptyHints mid.file) :=
  ⟨_, rfl, hang_up_harmless_iff (latin1 "10.0.0.1") (latin1 "alt\n") chosen _ rfl⟩

/-- Twenty hints that are all different. -/
def twentyHints : List Text := (List.range 20).map fun number => latin1 "Hinweis " ++ decimal number

/-- A client that hangs up at the hint prompt evicts the oldest of twenty hints and
leaves an empty one. -/
theorem hang_up_evicts :
    ∃ mid final, run (latin1 "10.0.0.1") (written twentyHints) chosen = some mid ∧
      HungUp [.input ⟨true, true⟩ (some [])] ∧
      [Label.input ⟨true, true⟩ (some [])].foldlM (step (latin1 "10.0.0.1")) mid = some final ∧
      mid.file = written twentyHints ∧ final.file = written (twentyHints.drop 1 ++ [[]]) ∧
      final.file ≠ mid.file := by
  refine ⟨_, _, rfl, ?_, rfl, rfl, by decide +kernel, by decide +kernel⟩
  intro label member
  rw [List.mem_singleton.mp member]
  rfl

end Schnitzeljagd.Police
