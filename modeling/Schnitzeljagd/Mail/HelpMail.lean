import Schnitzeljagd.Foundations.LineFile
import Schnitzeljagd.Foundations.SharedArrays

/-!
# The help mails

`helpmail.pl` reads mail templates and sends one of them, chosen by chance, to every
address. The templates are arrays of lines, and the constructor of the mail is given a
reference to one of them. It takes the header lines out of that array and keeps the array
itself as the body, so the template has lost its header when it is chosen again.

How the constructor divides lines into header and body is up to it. What files there are,
the addresses and the results of `rand` come from outside.
-/

namespace Schnitzeljagd.Mail

open Foundations.PerlText Foundations.LineFile Foundations.SharedArrays

/-! ## The program -/

/-- What a string counts as in a condition. -/
def isTrue (text : Text) : Bool := text ≠ [] && text ≠ latin1 "0"

/-- The loop over `@ARGV`, where `files` is what `open` finds under a name. There are
the templates and the arguments that it leaves. -/
def loadTemplates (files : Text → Option Text) : List Text → List (List Text) × List Text
  | [] => ([], [])
  | file :: arguments =>
    if isTrue file then
      match files file with
      -- `|| next`
      | none => loadTemplates files arguments
      | some content =>
        let (hilfemails, left) := loadTemplates files arguments
        (lines content :: hilfemails, left)
    else ([], arguments)

/-- `while (<>) { chomp; ... }` reads the files that are left in `@ARGV`, and standard input if
there are none. Each line without its newline is an address. -/
def addresses (files : Text → Option Text) (left : List Text) (stdin : Text) : List Text :=
  if left = [] then chompedLines stdin
  else left.flatMap fun file => ((files file).map chompedLines).getD []

/-- `rand @hilfemails` as an index. For `rand`, none counts as one. -/
abbrev Choice (count : Nat) := Fin (max count 1)

/-- An address and the template that is chosen for it, by its place in `@hilfemails`. -/
structure Turn where
  ip : Text
  choice : Nat
  deriving DecidableEq

/-- A mail object: its body is a reference to the array that the constructor was given. -/
structure Internet (Field : Type) where
  head : List Field
  body : Nat

/-- What `smtpsend` sends to a host. A mail that was made of no array has no content. -/
structure Sent (Field : Type) where
  host : Text
  content : Option (List Field × List Text)
  deriving DecidableEq

/-- The arrays that `@hilfemails` refers to, and the mails sent so far. This is what the loop
carries along. -/
structure Sending (Field : Type) where
  arrays : List (List Text)
  sent : List (Sent Field)

variable {Field : Type} (extraction : Extraction Text Field)

/-- `new Mail::Internet($hilfemails[...])` with the arrays after it. Outside the array
there is no reference. -/
def newInternet (arrays : List (List Text)) (reference : Nat) :
    Option (Internet Field × List (List Text)) :=
  arrays[reference]?.map fun mail =>
    (⟨extraction.header mail, reference⟩, arrays.modify reference extraction.rest)

/-- The body of the loop over the addresses: a mail object is made of the chosen array and sent to
the address. -/
def sendTurn (state : Sending Field) (turn : Turn) : Sending Field :=
  match newInternet extraction state.arrays turn.choice with
  | none => { state with sent := state.sent ++ [⟨turn.ip, none⟩] }
  | some (mail, arrays) =>
    ⟨arrays, state.sent ++ [⟨turn.ip, some (mail.head, arrays.getD mail.body [])⟩]⟩

/-- The loop over the addresses, which begins with the templates as they are read and with nothing
sent. -/
def sendAll (hilfemails : List (List Text)) (turns : List Turn) : Sending Field :=
  turns.foldl (sendTurn extraction) ⟨hilfemails, []⟩

section Program

variable (files : Text → Option Text) (arguments : List Text) (stdin : Text)
variable (rand : Nat → (count : Nat) → Choice count)

/-- The templates as they are read, before any mail is made of them. -/
def templates : List (List Text) := (loadTemplates files arguments).1

/-- The addresses with the choices, where `rand` is given the number of the call. -/
def turns : List Turn :=
  (addresses files (loadTemplates files arguments).2 stdin).mapIdx fun call ip =>
    ⟨ip, (rand call (templates files arguments).length).val⟩

/-- The mails that `helpmail.pl` sends. -/
def helpmail : List (Sent Field) :=
  (sendAll extraction (templates files arguments) (turns files arguments stdin rand)).sent

end Program

/-- The chosen template, header and body, as it was read. -/
def whole (hilfemails : List (List Text)) (turn : Turn) : Sent Field :=
  ⟨turn.ip, hilfemails[turn.choice]?.map fun mail => (extraction.header mail, extraction.rest mail)⟩

/-! ## What is sent -/

variable {extraction} {hilfemails arrays : List (List Text)}

/-- A turn sends what is in the array when it begins, and takes the header out of it. -/
theorem sendTurn_eq (state : Sending Field) (turn : Turn) :
    sendTurn extraction state turn =
      ⟨state.arrays.modify turn.choice extraction.rest,
        state.sent ++ [whole extraction state.arrays turn]⟩ := by
  cases found : state.arrays[turn.choice]? with
  | none =>
    have unchanged : state.arrays.modify turn.choice extraction.rest = state.arrays :=
      List.modify_eq_self (List.getElem?_eq_none_iff.mp found)
    simp [sendTurn, newInternet, whole, found, unchanged]
  | some mail => simp [sendTurn, newInternet, whole, found, List.getD_eq_getElem?_getD]

/-- The last turn starts from what the turns before it have left. -/
theorem sendAll_concat (turns : List Turn) (turn : Turn) :
    sendAll extraction hilfemails (turns ++ [turn]) =
      sendTurn extraction (sendAll extraction hilfemails turns) turn :=
  List.foldl_concat ..

/-- Every turn passes one array to the constructor, and the others stay as they are. -/
theorem sendAll_arrays (turns : List Turn) :
    (sendAll extraction hilfemails turns).arrays =
      passed extraction.rest hilfemails (turns.map Turn.choice) := by
  induction turns using List.reverseRecOn with
  | nil => rfl
  | append_singleton turns turn inductionHypothesis =>
    rw [sendAll_concat, sendTurn_eq, List.map_append, inductionHypothesis]
    simp [passed]

/-- The last turn adds one mail, made of the chosen array as the turns before it have left it. -/
theorem sendAll_sent_concat (turns : List Turn) (turn : Turn) :
    (sendAll extraction hilfemails (turns ++ [turn])).sent =
      (sendAll extraction hilfemails turns).sent ++
        [whole extraction (sendAll extraction hilfemails turns).arrays turn] := by
  rw [sendAll_concat, sendTurn_eq]

/-- A mail after others is whole exactly if its template is chosen for the first time, or
lasts. -/
theorem whole_again_iff (turns : List Turn) (turn : Turn) :
    whole extraction (sendAll extraction hilfemails turns).arrays turn =
        whole extraction hilfemails turn ↔
      (turn.choice ∈ turns.map Turn.choice →
        ∀ mail, hilfemails[turn.choice]? = some mail → extraction.Lasting mail) := by
  rw [whole, whole, sendAll_arrays, passed_getElem?]
  cases found : hilfemails[turn.choice]? with
  | none => simp
  | some mail =>
    simp only [Option.map_some, Sent.mk.injEq, true_and, Option.some.injEq, Prod.mk.injEq,
      forall_eq']
    by_cases again : turn.choice ∈ turns.map Turn.choice
    · obtain ⟨times, count⟩ : ∃ times, (turns.map Turn.choice).count turn.choice = times + 1 :=
        Nat.exists_eq_succ_of_ne_zero (List.count_pos_iff.mpr again).ne'
      rw [count, Extraction.again_iff]
      exact ⟨fun lasting _ => lasting, fun lasting => lasting again⟩
    · rw [List.count_eq_zero.mpr again]
      exact ⟨fun _ chosen => absurd chosen again, fun _ => ⟨rfl, rfl⟩⟩

/-- Every mail is whole exactly if the templates that are chosen more than once last. Induction
over the turns from the back: the last mail is the one that may come after others of its template.
-/
theorem sendAll_whole_iff (turns : List Turn) :
    (sendAll extraction hilfemails turns).sent = turns.map (whole extraction hilfemails) ↔
      ∀ choice, 1 < (turns.map Turn.choice).count choice →
        ∀ mail, hilfemails[choice]? = some mail → extraction.Lasting mail := by
  induction turns using List.reverseRecOn with
  | nil => simp [sendAll]
  | append_singleton turns turn inductionHypothesis =>
    rw [sendAll_sent_concat, List.map_append, List.map_singleton, ← List.concat_eq_append,
      ← List.concat_eq_append, List.concat_inj, inductionHypothesis, whole_again_iff,
      List.map_append, List.map_singleton]
    have split := repeated_concat_iff
      (fun choice => ∀ mail, hilfemails[choice]? = some mail → extraction.Lasting mail)
      (turns.map Turn.choice) turn.choice
    exact split.symm

/-! ## The run of the program -/

section Program

variable {files : Text → Option Text} {arguments : List Text} {stdin : Text}
variable {rand : Nat → (count : Nat) → Choice count}

/-- Every address gets a whole mail exactly if no template is chosen more than once, those apart
that last.

The mails of a run share one array for each template, and the constructor takes the header out of
it. By induction on the addresses, the array of a template has lost its header as often as the
template has been chosen so far. The first mail of a template is whole then, and a later one only
if there was no header and the first mail has taken all that could be taken. -/
theorem helpmail_whole_iff (extraction : Extraction Text Field) (files : Text → Option Text)
    (arguments : List Text) (stdin : Text) (rand : Nat → (count : Nat) → Choice count) :
    helpmail extraction files arguments stdin rand =
        (turns files arguments stdin rand).map (whole extraction (templates files arguments)) ↔
      ∀ choice, 1 < ((turns files arguments stdin rand).map Turn.choice).count choice →
        ∀ mail, (templates files arguments)[choice]? = some mail → extraction.Lasting mail :=
  sendAll_whole_iff _

end Program

/-! ## A template that is chosen twice -/

/-- `/^[^\x00-\x1f\x7f-\xff :]+:/` -/
def isField (line : Text) : Bool :=
  let name := line.takeWhile fun byte => 0x20 < byte.toNat && byte.toNat < 0x7f && byte ≠ 0x3a
  name ≠ [] && (line.drop name.length).head? = some 0x3a

/-- The blank line in front of a body does not belong to it, and only the first one is taken away.
-/
def withoutBlank : List Text → List Text
  | [] => []
  | line :: body => if line.all isSpace then body else line :: body

/-- What is taken away stands in front of what is left. -/
theorem withoutBlank_append (body : List Text) : ∃ blank, body = blank ++ withoutBlank body := by
  cases body with
  | nil => exact ⟨[], rfl⟩
  | cons line body =>
    by_cases empty : line.all isSpace
    · exact ⟨[line], by rw [withoutBlank, if_pos empty, List.singleton_append]⟩
    · exact ⟨[], by rw [withoutBlank, if_neg empty, List.nil_append]⟩

/-- Header lines that are not folded, up to the first other line. It is one of the ways to read a
header that the constructor may have. -/
def headerLines : Extraction Text Text where
  header lines := lines.takeWhile isField
  rest lines := withoutBlank (lines.dropWhile isField)
  removes lines := by
    obtain ⟨blank, separated⟩ := withoutBlank_append (lines.dropWhile isField)
    refine ⟨lines.takeWhile isField ++ blank, ?_, ?_⟩
    · rw [List.append_assoc, ← separated, List.takeWhile_append_dropWhile]
    · rw [List.length_append]
      exact Nat.le_add_right _ _

/-- The two mails of a template that is chosen twice. The subject has gone with the first one, and
the second is sent with a body only. -/
theorem second_mail_without_header :
    let files := fun _ => some (latin1 "Subject: h1lf3!\n\nr3tt3t m1ch!\n")
    let arguments := [latin1 "hilfemail2"]
    let stdin := latin1 "10.0.0.1\n10.0.0.2\n"
    let rand := fun _ count => (⟨0, by omega⟩ : Choice count)
    helpmail headerLines files arguments stdin rand =
        [⟨latin1 "10.0.0.1", some ([latin1 "Subject: h1lf3!\n"], [latin1 "r3tt3t m1ch!\n"])⟩,
          ⟨latin1 "10.0.0.2", some ([], [latin1 "r3tt3t m1ch!\n"])⟩] ∧
      ¬helpmail headerLines files arguments stdin rand =
        (turns files arguments stdin rand).map (whole headerLines (templates files arguments)) := by
  decide

end Schnitzeljagd.Mail
