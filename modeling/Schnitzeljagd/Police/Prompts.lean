import Schnitzeljagd.Police.Menu

/-!
# What becomes of an answer at a prompt

Each list of inputs in the table has some rules for single digits and ends with the
pattern `.*`, whose function is called with whatever the digits leave over. The dot
does not match a newline, and only white space at the end of a received string is
stripped. So a string of several lines that is received at once fits no rule at all,
and it is the only kind of string that does not.
-/

namespace Schnitzeljagd.Police

open Foundations.PerlText

/-! ## Lists of rules that end with a rule for the rest -/

/-- Literal patterns without a newline in them, and a last rule for everything, which
has a function. -/
structure RestCaught (rules : List Rule) where
  literals : List Rule
  rest : Rule
  func : InputFunc
  shape : rules = literals ++ [rest]
  oneLine : ∀ rule ∈ literals, ∃ text, rule.regex = .literal text ∧ newline ∉ text
  anything : rest.regex = .anything
  called : rest.func = some func

/-- The first rule that a stripped string matches. The rules are tried in the order in which
`config` has them. -/
def firstRule (rules : List Rule) (str : Text) : Option Rule :=
  rules.find? fun rule => rule.regex.fits str

/-- The rule with the string as its pattern is followed, or the rule for the rest if no
pattern is the string. -/
def RightRule (rules : List Rule) (str : Text) (rule : Rule) : Prop :=
  rule ∈ rules ∧
    (rule.regex = .literal str ∨
      rule.regex = .anything ∧ rule.func.isSome ∧
        ∀ other ∈ rules, other.regex ≠ .literal str)

section Rules

variable {rules : List Rule}

/-- A stripped string of one line is dealt with by the right rule. -/
theorem firstRule_oneLine (caught : RestCaught rules) (line : Text)
    (oneLine : newline ∉ stripTrailing line) :
    ∃ rule, firstRule rules (stripTrailing line) = some rule ∧
      RightRule rules (stripTrailing line) rule := by
  obtain ⟨literals, rest, func, rfl, literal, anything, called⟩ := caught
  rw [firstRule, List.find?_append]
  cases first : literals.find? fun rule => rule.regex.fits (stripTrailing line) with
  | some rule =>
    have member := List.mem_of_find?_eq_some first
    have fits := List.find?_some first
    rw [fits_stripTrailing] at fits
    obtain ⟨text, regex, _⟩ := literal rule member
    rw [regex, Regex.accepts, decide_eq_true_eq] at fits
    exact ⟨rule, rfl, List.mem_append_left _ member, Or.inl (by rw [regex, fits])⟩
  | none =>
    have fits : rest.regex.fits (stripTrailing line) = true := by
      rw [fits_stripTrailing, anything, Regex.accepts, decide_eq_true_eq]
      exact oneLine
    refine ⟨rest, by simp [fits], List.mem_append_right _ (List.mem_singleton_self rest),
      Or.inr ⟨anything, by simp [called], ?_⟩⟩
    intro other member same
    obtain inLiterals | last := List.mem_append.mp member
    · have refused := List.find?_eq_none.mp first other inLiterals
      rw [fits_stripTrailing, same] at refused
      simp [Regex.accepts] at refused
    · rw [List.mem_singleton.mp last, anything] at same
      cases same

/-- A stripped string of several lines matches no rule. -/
theorem firstRule_lines (caught : RestCaught rules) (line : Text)
    (lines : newline ∈ stripTrailing line) : firstRule rules (stripTrailing line) = none := by
  obtain ⟨literals, rest, func, rfl, literal, anything, called⟩ := caught
  rw [firstRule, List.find?_eq_none]
  intro rule member
  rw [fits_stripTrailing]
  obtain inLiterals | last := List.mem_append.mp member
  · obtain ⟨text, regex, oneLine⟩ := literal rule inLiterals
    rw [regex, Regex.accepts, decide_eq_true_eq]
    intro same
    exact oneLine (same ▸ lines)
  · rw [List.mem_singleton.mp last, anything, Regex.accepts, decide_eq_true_eq]
    exact not_not_intro lines

end Rules

/-! ## The four prompts -/

/-- The main menu compares with four numbers, and takes everything else for a reason to leave with
a general protection fault. -/
def mainRest : RestCaught (main.input.getD []) where
  literals := [
    { regex := .literal (latin1 "1"), next := "input" },
    { regex := .literal (latin1 "2"), next := "read" },
    { regex := .literal (latin1 "3"), next := "login" },
    { regex := .literal (latin1 "4"), next := "quit" }]
  rest := { regex := .anything, next := "quit", func := some .gpf }
  func := .gpf
  shape := rfl
  oneLine := by
    intro rule member
    simp only [List.mem_cons, List.not_mem_nil, or_false] at member
    rcases member with rfl | rfl | rfl | rfl <;> exact ⟨_, rfl, by decide⟩
  anything := rfl
  called := rfl

/-- The hint prompt has no pattern but the last, which saves what has been entered. -/
def inputRest : RestCaught (input.input.getD []) where
  literals := []
  rest := { regex := .anything, next := "main", func := some .saveentry }
  func := .saveentry
  shape := rfl
  oneLine := List.forall_mem_nil _
  anything := rfl
  called := rfl

/-- The password prompt has no pattern but the last, either. It hands on what has been entered. -/
def loginRest : RestCaught (login.input.getD []) where
  literals := []
  rest := { regex := .anything, func := some .handlepasswd }
  func := .handlepasswd
  shape := rfl
  oneLine := List.forall_mem_nil _
  anything := rfl
  called := rfl

/-- The menu for members compares with two numbers, and sends everything else to the main menu
with a general protection fault. -/
def insidemenuRest : RestCaught (insidemenu.input.getD []) where
  literals := [
    { regex := .literal (latin1 "1"), next := "inside" },
    { regex := .literal (latin1 "4"), next := "main" }]
  rest := { regex := .anything, next := "main", func := some .gpf }
  func := .gpf
  shape := rfl
  oneLine := by
    intro rule member
    simp only [List.mem_cons, List.not_mem_nil, or_false] at member
    rcases member with rfl | rfl <;> exact ⟨_, rfl, by decide⟩
  anything := rfl
  called := rfl

/-- The inputs of every entry that has some end with a rule for the rest. -/
theorem prompt_caught (state : String) (cs : Entry) (found : config.lookup state = some cs)
    (asks : cs.input.isSome) : Nonempty (RestCaught (cs.input.getD [])) := by
  obtain ⟨_, rfl⟩ | ⟨_, rfl⟩ | ⟨_, rfl⟩ | ⟨_, rfl⟩ := prompt_cases state cs found asks
  · exact ⟨mainRest⟩
  · exact ⟨inputRest⟩
  · exact ⟨loginRest⟩
  · exact ⟨insidemenuRest⟩

/-- An answered prompt goes on with the first rule, its function called with the
stripped string, or as if nothing had been received. -/
theorem answer_firstRule (files : Files) (cs : Entry) (line : Text) (terminal : Terminal) :
    answer files cs (some line) terminal =
      match firstRule (cs.input.getD []) (stripTrailing line) with
      | some rule => endTurn cs (follow files (stripTrailing line) rule (hear line terminal))
      | none => endTurn cs (hear line terminal) :=
  rfl

/-- The string received at a prompt is followed up by the right rule of the prompt, and by its
function with the stripped string. -/
def DealtWith (cs : Entry) (line : Text) : Prop :=
  ∃ rule, RightRule (cs.input.getD []) (stripTrailing line) rule ∧
    firstRule (cs.input.getD []) (stripTrailing line) = some rule ∧
    ∀ (files : Files) (terminal : Terminal), answer files cs (some line) terminal =
      endTurn cs (follow files (stripTrailing line) rule (hear line terminal))

/-- At the prompts, exactly the strings that are one line when stripped are dealt with.

The rules of each prompt end with the pattern `.*`, which catches whatever the others leave. No
pattern matches across a newline, so that a string of two lines falls through all of them. -/
theorem dealtWith_iff (state : String) (cs : Entry) (line : Text)
    (prompt : state ∈ ["main", "input", "login", "insidemenu"])
    (found : config.lookup state = some cs) :
    DealtWith cs line ↔ newline ∉ stripTrailing line := by
  have asks : cs.input.isSome := by
    simp only [List.mem_cons, List.not_mem_nil, or_false] at prompt
    rcases prompt with rfl | rfl | rfl | rfl <;> obtain rfl := Option.some.inj found <;> rfl
  obtain ⟨caught⟩ := prompt_caught state cs found asks
  constructor
  · rintro ⟨rule, _, first, _⟩ lines
    rw [firstRule_lines caught line lines] at first
    cases first
  · intro oneLine
    obtain ⟨rule, first, right⟩ := firstRule_oneLine caught line oneLine
    refine ⟨rule, right, first, ?_⟩
    intro files terminal
    rw [answer_firstRule, first]

/-- The same at the password prompt, for a line with a blank and a carriage return at its end. -/
theorem dealtWith_iff_login : DealtWith login (latin1 "geheim \r\n") ↔
    newline ∉ stripTrailing (latin1 "geheim \r\n") :=
  dealtWith_iff "login" login _ (by decide) rfl

/-- Two lines sent at once to the hint prompt are dropped: no rule is followed, and the
session is at the prompt again with the file as it was. -/
theorem two_lines_dropped :
    ¬DealtWith input (latin1 "eins\nzwei\n") ∧
      ∀ (files : Files) (terminal : Terminal),
        answer files input (some (latin1 "eins\nzwei\n")) terminal =
          { hear (latin1 "eins\nzwei\n") terminal with point := .top } := by
  have noRule : firstRule (input.input.getD []) (stripTrailing (latin1 "eins\nzwei\n")) = none :=
    firstRule_lines inputRest _ (by decide)
  constructor
  · rintro ⟨rule, _, first, _⟩
    rw [noRule] at first
    cases first
  · intro files terminal
    rw [answer_firstRule, noRule]
    rfl

end Schnitzeljagd.Police
