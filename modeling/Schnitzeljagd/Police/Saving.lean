import Schnitzeljagd.Police.Terminal
import Schnitzeljagd.Foundations.BufferedFile
import Schnitzeljagd.Foundations.Loops

/-!
# Saving a hint, and what may go wrong

`saveentry` step by step. Opening `polsys.txt` for writing empties it, the lines are
printed into a buffer, and what reaches the file before the process is killed, or gets
through before a write fails, is a beginning of the new contents. Only the two calls of
`open` are checked: the message that a hint has been stored follows the prints and the
`close` whatever came of them.

A run of these steps may end anywhere, which is a process that is killed there.
-/

namespace Schnitzeljagd.Police

open Foundations.PerlText Foundations.LineFile Foundations.BufferedFile Foundations.Loops

/-- Where `saveentry` stands: before it reads the file, with the new list in hand, in the
loop that prints the rest of the list, behind `close`, or returned. -/
inductive SavePoint where
  | start
  | inserted (hinweise : List Text)
  | printing (buffer : Text) (eintraege : List Text)
  | closed
  | returned

/-- The file, how far `saveentry` has come, and whether the client has been told. -/
structure Save where
  /-- The contents of `polsys.txt`. -/
  file : Text
  point : SavePoint
  /-- The client has been told that the hint has been stored. -/
  told : Bool

/-- The steps of `saveentry`, with the result of each `open` and the number of bytes
that each print and the `close` pass on to the file. -/
inductive SaveLabel where
  | openRead (works : Bool)
  | openWrite (works : Bool)
  | print (passed : Nat)
  | close (passed : Nat)
  | report
  deriving DecidableEq

/-- The number of bytes that a step passes on to the file. -/
def SaveLabel.passed : SaveLabel → Nat
  | print passed => passed
  | close passed => passed
  | _ => 0

/-- A step of `saveentry`, at the point for it. What has been printed stays in a buffer until it
is passed on. -/
def saveStep (str : Text) (save : Save) : SaveLabel → Option Save
  | .openRead works =>
    match save.point with
    | .start =>
      if works then
        some { save with point := .inserted (insertHint (chompedLines save.file) (chomp str)) }
      else some { save with point := .returned }
    | _ => none
  | .openWrite works =>
    match save.point with
    | .inserted hinweise =>
      if works then some { save with file := [], point := .printing [] hinweise }
      else some { save with point := .returned }
    | _ => none
  | .print passed =>
    match save.point with
    | .printing buffer (eintrag :: rest) =>
      (Handle.print ⟨save.file, buffer⟩ (eintrag ++ [newline]) passed).map fun handle =>
        { save with file := handle.file, point := .printing handle.buffer rest }
    | _ => none
  | .close passed =>
    match save.point with
    | .printing buffer [] =>
      (Handle.pass ⟨save.file, buffer⟩ passed).map fun handle =>
        { save with file := handle.file, point := .closed }
    | _ => none
  | .report =>
    match save.point with
    | .closed => some { save with point := .returned, told := true }
    | _ => none

/-- `saveentry` after some steps, on a file with the given contents. -/
def attempt (old str : Text) (labels : List SaveLabel) : Option Save :=
  labels.foldlM (saveStep str) { file := old, point := .start, told := false }

/-- The number of bytes that have been passed on to the file. -/
def passedOn (labels : List SaveLabel) : Nat := (labels.map SaveLabel.passed).sum

/-! ## What a run does to the file -/

/-- The file has not been opened for writing. -/
def Untouched (old : Text) (labels : List SaveLabel) (save : Save) : Prop :=
  .openWrite true ∉ labels ∧ .report ∉ labels ∧ passedOn labels = 0 ∧ save.file = old

/-- The file has been opened for writing and holds the beginning of the new contents
that has been passed on. -/
def Rewritten (new : Text) (labels : List SaveLabel) (save : Save) : Prop :=
  .openWrite true ∈ labels ∧ save.file <+: new ∧ save.file.length = passedOn labels

/-- What the point of a run says about the file. -/
def Progress (old str : Text) (labels : List SaveLabel) (save : Save) : Prop :=
  (save.told = true ↔ .report ∈ labels) ∧
    match save.point with
    | .start => Untouched old labels save
    | .inserted hinweise =>
      Untouched old labels save ∧ hinweise = insertHint (chompedLines old) (chomp str)
    | .printing buffer eintraege =>
      Rewritten (saved old (chomp str)) labels save ∧
        save.file ++ buffer ++ written eintraege = saved old (chomp str)
    | .closed => Rewritten (saved old (chomp str)) labels save
    | .returned => Untouched old labels save ∨ Rewritten (saved old (chomp str)) labels save

section Steps

variable {old str : Text} {labels : List SaveLabel} {save next : Save}

/-- One step more passes on what it passes on. -/
theorem passedOn_concat (label : SaveLabel) :
    passedOn (labels ++ [label]) = passedOn labels + label.passed := by
  simp [passedOn]

/-- The file stays untouched as long as it is not opened for writing. -/
theorem Untouched.concat {label : SaveLabel} (untouched : Untouched old labels save)
    (file : next.file = save.file) (quiet : label ≠ .openWrite true ∧ label ≠ .report)
    (nothing : label.passed = 0) : Untouched old (labels ++ [label]) next := by
  obtain ⟨unopened, unreported, none, same⟩ := untouched
  refine ⟨?_, ?_, ?_, file.trans same⟩
  · simpa [unopened] using Ne.symm quiet.1
  · simpa [unreported] using Ne.symm quiet.2
  · rw [passedOn_concat, none, nothing]

/-- The file is still rewritten after a step that passes on a part of the buffer. -/
theorem Rewritten.concat {new : Text} {label : SaveLabel} (rewritten : Rewritten new labels save)
    (beginning : next.file <+: new)
    (length : next.file.length = save.file.length + label.passed) :
    Rewritten new (labels ++ [label]) next := by
  obtain ⟨opened, _, passed⟩ := rewritten
  refine ⟨List.mem_append_left _ opened, beginning, ?_⟩
  rw [length, passed, passedOn_concat]

/-- Every step keeps what the point says.

One case for each kind of step, and in it the one point at which the step can be made. What has
been printed and what is still to be printed make up the new file at all times. -/
theorem saveStep_progress {label : SaveLabel} (progress : Progress old str labels save)
    (stepped : saveStep str save label = some next) :
    Progress old str (labels ++ [label]) next := by
  obtain ⟨file, point, told⟩ := save
  obtain ⟨reported, progress⟩ := progress
  cases label with
  | openRead works =>
    cases point with
    | start =>
      obtain ⟨_, _, _, rfl⟩ := id progress
      cases works with
      | true =>
        obtain rfl := Option.some.inj stepped
        exact ⟨by simpa using reported, progress.concat rfl (by simp) rfl, rfl⟩
      | false =>
        obtain rfl := Option.some.inj stepped
        exact ⟨by simpa using reported, Or.inl (progress.concat rfl (by simp) rfl)⟩
    | _ => simp [saveStep] at stepped
  | openWrite works =>
    cases point with
    | inserted hinweise =>
      obtain ⟨untouched, rfl⟩ := progress
      cases works with
      | true =>
        obtain rfl := Option.some.inj stepped
        obtain ⟨_, _, nothing, _⟩ := untouched
        refine ⟨by simpa using reported, ⟨by simp, List.nil_prefix, ?_⟩, rfl⟩
        rw [passedOn_concat, nothing]
        rfl
      | false =>
        obtain rfl := Option.some.inj stepped
        exact ⟨by simpa using reported, Or.inl (untouched.concat rfl (by simp) rfl)⟩
    | _ => simp [saveStep] at stepped
  | print passed =>
    cases point with
    | printing buffer eintraege =>
      cases eintraege with
      | nil => simp [saveStep] at stepped
      | cons eintrag rest =>
        obtain ⟨rewritten, whole⟩ := progress
        obtain ⟨handle, printed, rfl⟩ := Option.map_eq_some_iff.mp stepped
        have wholeNow : handle.file ++ handle.buffer ++ written rest = saved old (chomp str) := by
          rw [print_whole printed, ← whole, written_cons]
          simp
        refine ⟨by simpa using reported, rewritten.concat ?_ (print_length printed), wholeNow⟩
        exact ⟨handle.buffer ++ written rest, by rw [← wholeNow, List.append_assoc]⟩
    | _ => simp [saveStep] at stepped
  | close passed =>
    cases point with
    | printing buffer eintraege =>
      cases eintraege with
      | nil =>
        obtain ⟨rewritten, whole⟩ := progress
        obtain ⟨handle, closed, rfl⟩ := Option.map_eq_some_iff.mp stepped
        refine ⟨by simpa using reported, rewritten.concat ?_ (pass_length closed)⟩
        rw [← whole, ← pass_whole closed, List.append_assoc]
        exact List.prefix_append _ _
      | cons eintrag rest => simp [saveStep] at stepped
    | _ => simp [saveStep] at stepped
  | report =>
    cases point with
    | closed =>
      obtain rfl := Option.some.inj stepped
      exact ⟨by simp, Or.inr (progress.concat progress.2.1 rfl)⟩
    | _ => simp [saveStep] at stepped

/-- The point says what it should after any number of steps. -/
theorem attempt_progress (ran : attempt old str labels = some save) :
    Progress old str labels save := by
  apply foldlM_history (saveStep str) _ (Progress old str) _ _ _ _ ran
  · exact ⟨by simp, by simp, by simp, rfl, rfl⟩
  · intro earlier before label after _ progress stepped
    exact saveStep_progress progress stepped

/-- At every point of a run the file is either untouched or rewritten up to what has
been passed on. -/
theorem attempt_file (ran : attempt old str labels = some save) :
    (save.told = true ↔ .report ∈ labels) ∧
      (Untouched old labels save ∨ Rewritten (saved old (chomp str)) labels save) := by
  obtain ⟨reported, progress⟩ := attempt_progress ran
  refine ⟨reported, ?_⟩
  cases point : save.point with
  | start =>
    rw [point] at progress
    exact Or.inl progress
  | inserted hinweise =>
    rw [point] at progress
    exact Or.inl progress.1
  | printing buffer eintraege =>
    rw [point] at progress
    exact Or.inr progress.1
  | closed =>
    rw [point] at progress
    exact Or.inr progress
  | returned =>
    rw [point] at progress
    exact progress

end Steps

/-! ## Undisturbed runs -/

/-- The loop over the list with nothing passed on before the end. -/
theorem print_loop (str file buffer : Text) (eintraege : List Text) :
    (List.replicate eintraege.length (SaveLabel.print 0)).foldlM (saveStep str)
        ⟨file, .printing buffer eintraege, false⟩ =
      some ⟨file, .printing (buffer ++ written eintraege) [], false⟩ := by
  induction eintraege generalizing buffer with
  | nil => simp [written]
  | cons eintrag rest inductionHypothesis =>
    have printed : saveStep str ⟨file, .printing buffer (eintrag :: rest), false⟩ (.print 0) =
        some ⟨file, .printing (buffer ++ (eintrag ++ [newline])) rest, false⟩ := by
      simp [saveStep, print_none]
    rw [List.length_cons, List.replicate_succ, List.foldlM_cons, printed, Option.bind_eq_bind,
      Option.bind_some, inductionHypothesis, written_cons]
    simp

/-- Where nothing fails but a call of `open`, the steps do what `saveentry` does. -/
theorem attempt_saveentry (files : Files) (str : Text) (terminal : Terminal) :
    ∃ labels save, attempt terminal.file str labels = some save ∧ save.point = .returned ∧
      save.file = (saveentry files str terminal).file ∧
      save.told = (files.readable && files.writable) := by
  obtain ⟨readable, writable⟩ := files
  cases readable with
  | false => exact ⟨[.openRead false], _, rfl, rfl, rfl, rfl⟩
  | true =>
    cases writable with
    | false => exact ⟨[.openRead true, .openWrite false], _, rfl, rfl, rfl, rfl⟩
    | true =>
      let hinweise := insertHint (chompedLines terminal.file) (chomp str)
      have printed := print_loop str [] [] hinweise
      have closed : saveStep str ⟨[], .printing (written hinweise) [], false⟩
          (.close (written hinweise).length) = some ⟨written hinweise, .closed, false⟩ := by
        have passed := pass_all (⟨[], written hinweise⟩ : Handle (BitVec 8))
        simp only [saveStep, passed, Option.map_some, List.nil_append]
      refine ⟨[.openRead true, .openWrite true] ++
        (List.replicate hinweise.length (.print 0) ++
          [.close (written hinweise).length, .report]),
        ⟨written hinweise, .returned, true⟩, ?_, rfl, rfl, rfl⟩
      rw [attempt, List.foldlM_append]
      change ((List.replicate hinweise.length (SaveLabel.print 0) ++
        [SaveLabel.close (written hinweise).length, .report]).foldlM (saveStep str)
          ⟨[], .printing [] hinweise, false⟩) = _
      rw [List.foldlM_append, printed, Option.bind_eq_bind, Option.bind_some, List.nil_append,
        List.foldlM_cons, closed]
      rfl

/-! ## Runs that fail or are killed -/

/-- The file holds its old or its new contents, and the client has been told that the
hint has been stored only if it holds the new ones. -/
def Unharmed (old str : Text) (save : Save) : Prop :=
  (save.file = old ∨ save.file = saved old (chomp str)) ∧
    (save.told = true → save.file = saved old (chomp str))

/-- A save leaves the hints alone wherever it ends, exactly if it has not opened the file for
writing, or has passed on all of the new contents, or stops without a report where what it has
passed on happens to be the old contents.

Opening the file for writing empties it, and from then on it holds a beginning of the new
contents, of the length that has been passed on (`attempt_file`). Such a beginning is the new
contents only if it is all of it, and the old contents only if it has their length. -/
theorem save_unharmed_iff (old str : Text) (labels : List SaveLabel) (save : Save)
    (ran : attempt old str labels = some save) :
    Unharmed old str save ↔
      .openWrite true ∉ labels ∨
        passedOn labels = (saved old (chomp str)).length ∨
        (passedOn labels = old.length ∧ old <+: saved old (chomp str) ∧ .report ∉ labels) := by
  obtain ⟨reported, ⟨unopened, unreported, _, same⟩ | ⟨opened, beginning, length⟩⟩ :=
    attempt_file ran
  · refine iff_of_true ⟨Or.inl same, ?_⟩ (Or.inl unopened)
    intro told
    exact absurd (reported.mp told) unreported
  · have complete : save.file = saved old (chomp str) ↔
        passedOn labels = (saved old (chomp str)).length := by
      constructor
      · intro whole
        rw [← length, whole]
      · intro all
        exact beginning.eq_of_length (length.trans all)
    constructor
    · rintro ⟨unchanged | whole, truthful⟩
      · by_cases told : save.told = true
        · exact Or.inr (Or.inl (complete.mp (truthful told)))
        · refine Or.inr (Or.inr ⟨?_, ?_, fun report => told (reported.mpr report)⟩)
          · rw [← length, unchanged]
          · exact unchanged ▸ beginning
      · exact Or.inr (Or.inl (complete.mp whole))
    · rintro (unopened | all | ⟨asMuch, shorter, unreported⟩)
      · exact absurd opened unopened
      · exact ⟨Or.inr (complete.mpr all), fun _ => complete.mpr all⟩
      · refine ⟨Or.inl ?_, fun told => absurd (reported.mp told) unreported⟩
        have inside : save.file <+: old :=
          List.prefix_of_prefix_length_le beginning shorter (by rw [length, asMuch])
        exact inside.eq_of_length (length.trans asMuch)

/-- A save on a full disk: nothing gets through, and the client is told otherwise. -/
def diskFull : List SaveLabel :=
  [.openRead true, .openWrite true, .print 0, .print 0, .close 0, .report]

/-- A file that cannot be opened for writing is left alone. -/
theorem save_unharmed_unwritable :
    ∃ save, attempt (latin1 "alt\n") (latin1 "neu") [.openRead true, .openWrite false] = some save ∧
      (Unharmed (latin1 "alt\n") (latin1 "neu") save ↔
        .openWrite true ∉ [SaveLabel.openRead true, .openWrite false] ∨
          passedOn [.openRead true, .openWrite false] =
            (saved (latin1 "alt\n") (chomp (latin1 "neu"))).length ∨
          (passedOn [.openRead true, .openWrite false] = (latin1 "alt\n").length ∧
            latin1 "alt\n" <+: saved (latin1 "alt\n") (chomp (latin1 "neu")) ∧
            .report ∉ [SaveLabel.openRead true, .openWrite false])) :=
  ⟨_, rfl, save_unharmed_iff (latin1 "alt\n") (latin1 "neu") [.openRead true, .openWrite false] _ rfl⟩

/-- On a full disk all hints are lost and the client is told that one has been stored;
a process that is killed behind the `open` loses them as well. -/
theorem save_harmed :
    (∃ save, attempt (latin1 "alt\n") (latin1 "neu") diskFull = some save ∧
      save.file = [] ∧ save.told = true ∧ ¬Unharmed (latin1 "alt\n") (latin1 "neu") save) ∧
    ∃ save, attempt (latin1 "alt\n") (latin1 "neu") [.openRead true, .openWrite true] = some save ∧
      save.file = [] ∧ ¬Unharmed (latin1 "alt\n") (latin1 "neu") save := by
  refine ⟨⟨_, rfl, rfl, rfl, ?_⟩, ⟨_, rfl, rfl, ?_⟩⟩
  · rintro ⟨_, truthful⟩
    exact absurd (truthful rfl) (by decide)
  · rintro ⟨unchanged | whole, _⟩
    · exact absurd unchanged (by decide)
    · exact absurd whole (by decide)

end Schnitzeljagd.Police
