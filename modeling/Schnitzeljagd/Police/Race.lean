import Schnitzeljagd.Police.Terminal
import Schnitzeljagd.Foundations.ThreeStepUpdate

/-!
# Hints saved at the same time

`saveentry` opens and reads `polsys.txt`, opens it again for writing, which empties it,
and writes its lines from the beginning of the file when it closes it. There is no
lock, and the comment in the source lets the processes race. Here any number of saves
take these three steps in any order.

A save that reads the file between the reading and the writing of another one makes
the other's hint vanish, or misses the hints of the file altogether. Two saves that
write into the file they have both emptied leave the end of the longer contents behind
the shorter, so a line may be cut at its front. Nothing worse happens, and where the
saves do not overlap they have the result of saving one after another.
-/

namespace Schnitzeljagd.Police

open Foundations.PerlText Foundations.LineFile Foundations.ThreeStepUpdate

variable {ι : Type}

/-- The steps of `saveentry` on the file. Writing begins at the start of the file and
leaves what lies behind the written lines. -/
def saving (hint : ι → Text) : Protocol ι Text (List Text) where
  prepare party file := insertHint (chompedLines file) (hint party)
  empty := []
  commit lines file := written lines ++ file.drop (written lines).length

/-- A line that was in the file or is the hint of one of the saves. -/
def Legitimate (old : List Text) (hint : ι → Text) (schedule : List (Action ι))
    (line : Text) : Prop :=
  line ∈ old ∨ ∃ party, .read party ∈ schedule ∧ line = hint party

/-! ## A save by itself -/

/-- A save that nobody disturbs has the result of saving. -/
theorem update_saved (hint : ι → Text) (party : ι) (file : Text) :
    (saving hint).update party file = saved file (hint party) := by
  rw [Protocol.update, saved]
  simp [saving]

/-- The three steps in a row leave the file as `saveentry` does. -/
theorem steps_saveentry (str : Text) (terminal : Terminal) :
    ∃ final, interleave (saving fun _ : Unit => chomp str) terminal.file
        [.read (), .clear (), .commit ()] = some final ∧
      final.store = (saveentry ⟨true, true⟩ str terminal).file :=
  ⟨_, rfl, update_saved (fun _ : Unit => chomp str) () terminal.file⟩

/-- Saves one after another keep the last twenty lines. -/
theorem serially_saved (old : List Text) (hint : ι → Text) (order : List ι)
    (oneLine : ∀ line ∈ old, newline ∉ line) (oneLineHints : ∀ party, newline ∉ hint party) :
    serially (saving hint) (written (lastTwenty old)) order =
      written (lastTwenty (old ++ order.map hint)) := by
  induction order using List.reverseRecOn with
  | nil => simp [serially]
  | append_singleton order party inductionHypothesis =>
    rw [serially_concat, inductionHypothesis, update_saved, saved_lastTwenty, List.map_append,
      List.append_assoc, List.map_singleton]
    intro line member
    obtain earlier | new := List.mem_append.mp member
    · exact oneLine line earlier
    · obtain ⟨other, _, rfl⟩ := List.mem_map.mp new
      exact oneLineHints other

/-! ## Saves that overlap -/

section Overlap

variable [DecidableEq ι] {old : List Text} {hint : ι → Text} {schedule : List (Action ι)}
variable {final : State ι Text (List Text)}

omit [DecidableEq ι] in
/-- A line of the file or a hint is a single line. -/
theorem legitimate_oneLine (oneLine : ∀ line ∈ old, newline ∉ line)
    (oneLineHints : ∀ party, newline ∉ hint party) (line : Text)
    (legitimate : Legitimate old hint schedule line) : newline ∉ line := by
  rcases legitimate with earlier | ⟨party, _, rfl⟩
  · exact oneLine line earlier
  · exact oneLineHints party

/-- In every schedule each line of the file is the end of a legitimate line. -/
theorem saves_torn (oneLine : ∀ line ∈ old, newline ∉ line)
    (oneLineHints : ∀ party, newline ∉ hint party)
    (ran : interleave (saving hint) (written old) schedule = some final) :
    ∀ line ∈ chompedLines final.store,
      ∃ whole, Legitimate old hint schedule whole ∧ line <:+ whole := by
  let torn (line : Text) : Prop := ∃ whole, Legitimate old hint schedule whole ∧ line <:+ whole
  have tornOneLine (line : Text) (isTorn : torn line) : newline ∉ line := by
    obtain ⟨whole, legitimate, suffix⟩ := isTorn
    exact fun member =>
      legitimate_oneLine oneLine oneLineHints whole legitimate (suffix.subset member)
  have kept := run_keeps (fun file => ∃ lines, file = written lines ∧ ∀ line ∈ lines, torn line)
    (fun lines => ∀ line ∈ lines, torn line) ?_ ?_ ?_ ?_ ran
  · obtain ⟨lines, file, allTorn⟩ := kept
    rw [file, chompedLines_written lines fun line member => tornOneLine line (allTorn line member)]
    exact allTorn
  · rintro party reads file ⟨lines, rfl, allTorn⟩ line member
    have inserted : line ∈ insertHint (chompedLines (written lines)) (hint party) := member
    rw [chompedLines_written lines fun other inside => tornOneLine other (allTorn other inside)]
      at inserted
    obtain earlier | rfl := insertHint_mem inserted
    · exact allTorn line earlier
    · exact ⟨hint party, Or.inr ⟨party, reads, rfl⟩, List.suffix_refl _⟩
  · exact ⟨[], rfl, List.forall_mem_nil _⟩
  · rintro lines file allTorn ⟨others, rfl, othersTorn⟩
    obtain ⟨rest, left, ends⟩ := drop_written others (written lines).length
    refine ⟨lines ++ rest, ?_, ?_⟩
    · rw [written_append, ← left]
      rfl
    · intro line member
      obtain inLines | inRest := List.mem_append.mp member
      · exact allTorn line inLines
      · obtain ⟨other, inOthers, suffix⟩ := ends line inRest
        obtain ⟨whole, legitimate, suffix'⟩ := othersTorn other inOthers
        exact ⟨whole, legitimate, suffix.trans suffix'⟩
  · exact ⟨old, rfl, fun line member => ⟨line, Or.inl member, List.suffix_refl line⟩⟩

/-- Inserting a hint keeps to twenty lines. -/
theorem insertHint_length (hints : List Text) (new : Text) (bounded : hints.length ≤ 20) :
    (insertHint hints new).length ≤ 20 := by
  rw [insertHint]
  split
  · simp only [List.length_append, List.length_drop, List.length_singleton]
    omega
  · simp only [List.length_append, List.length_singleton]
    omega

/-- Where no save opens the file for writing while another one is writing, the file
holds at most twenty lines, and every one of them is legitimate. -/
theorem saves_whole (bounded : old.length ≤ 20) (oneLine : ∀ line ∈ old, newline ∉ line)
    (oneLineHints : ∀ party, newline ∉ hint party) (apart : WritersApart schedule)
    (ran : interleave (saving hint) (written old) schedule = some final) :
    (chompedLines final.store).length ≤ 20 ∧
      ∀ line ∈ chompedLines final.store, Legitimate old hint schedule line := by
  let whole (lines : List Text) : Prop :=
    lines.length ≤ 20 ∧ ∀ line ∈ lines, Legitimate old hint schedule line
  have linesOf (lines : List Text) (isWhole : whole lines) : chompedLines (written lines) = lines :=
    chompedLines_written lines fun line member =>
      legitimate_oneLine oneLine oneLineHints line (isWhole.2 line member)
  have kept := run_keeps_apart (fun file => ∃ lines, file = written lines ∧ whole lines) whole
    ?_ ?_ ?_ ?_ apart ran
  · obtain ⟨lines, file, isWhole⟩ := kept
    rw [file, linesOf lines isWhole]
    exact isWhole
  · rintro party reads file ⟨lines, rfl, isWhole⟩
    change whole (insertHint (chompedLines (written lines)) (hint party))
    rw [linesOf lines isWhole]
    refine ⟨insertHint_length lines _ isWhole.1, ?_⟩
    intro line member
    obtain earlier | rfl := insertHint_mem member
    · exact isWhole.2 line earlier
    · exact Or.inr ⟨party, reads, rfl⟩
  · exact ⟨[], rfl, by simp, List.forall_mem_nil _⟩
  · exact fun lines isWhole => ⟨lines, by simp [saving], isWhole⟩
  · exact ⟨old, rfl, bounded, fun line member => Or.inl member⟩

end Overlap

/-- What any number of saves can do to the file: torn lines at worst, lost hints at worst if the
writers are apart, and the result of saving one after another, in the order of writing, if the
saves are apart.

Saving is an update in three steps: reading, emptying and writing. A writer puts its lines over
the beginning of whatever stands in the file, so that of a longer file the end sticks out, cut
within a line. If nobody else empties the file in between it is empty when it is written, and all
its lines are whole. If nobody else reads in between either, every save starts from what the one
before has written. -/
theorem saves_interleaved [DecidableEq ι] (old : List Text) (hint : ι → Text)
    (schedule : List (Action ι)) (final : State ι Text (List Text)) (bounded : old.length ≤ 20)
    (oneLine : ∀ line ∈ old, newline ∉ line) (oneLineHints : ∀ party, newline ∉ hint party)
    (finished : Finished schedule)
    (ran : interleave (saving hint) (written old) schedule = some final) :
    (∀ line ∈ chompedLines final.store,
        ∃ whole, Legitimate old hint schedule whole ∧ line <:+ whole) ∧
      (WritersApart schedule → (chompedLines final.store).length ≤ 20 ∧
        ∀ line ∈ chompedLines final.store, Legitimate old hint schedule line) ∧
      (UpdatesApart schedule →
        final.store = (committed schedule).foldl (fun file party => saved file (hint party))
            (written old) ∧
          final.store = written (lastTwenty (old ++ (committed schedule).map hint))) := by
  refine ⟨saves_torn oneLine oneLineHints ran,
    fun apart => saves_whole bounded oneLine oneLineHints apart ran, fun apart => ?_⟩
  have serial := run_serial apart finished ran
  constructor
  · rw [serial, serially]
    congr
    funext file party
    exact update_saved hint party file
  · rw [serial, ← serially_saved old hint _ oneLine oneLineHints, lastTwenty_short old bounded]

/-- The hints of two sessions. -/
def twoHints (second : Bool) : Text := if second then latin1 "zwei" else latin1 "eins"

/-- Two saves, the second after the first. -/
def oneByOne : List (Action Bool) :=
  [.read false, .clear false, .commit false, .read true, .clear true, .commit true]

/-- The two saves do not overlap. -/
theorem oneByOne_apart : UpdatesApart oneByOne := by
  intro before party after shape other member
  match before with
  | [] => simp at member
  | [_] => simp [oneByOne] at shape
  | [_, _] => simp [oneByOne] at shape
  | [_, _, _] =>
    simp only [oneByOne, List.cons_append, List.nil_append, List.cons.injEq] at shape
    obtain ⟨rfl, rfl, rfl, _⟩ := shape
    cases other <;> simp_all
  | [_, _, _, _] => simp [oneByOne] at shape
  | [_, _, _, _, _] => simp [oneByOne] at shape
  | _ :: _ :: _ :: _ :: _ :: _ :: _ => simp [oneByOne] at shape

/-- Both hints are in the file after the old line. -/
theorem saves_interleaved_one_by_one :
    ∃ final, interleave (saving twoHints) (written [latin1 "alt"]) oneByOne = some final ∧
      final.store = written (lastTwenty ([latin1 "alt"] ++ (committed oneByOne).map twoHints)) :=
  ⟨_, rfl, ((saves_interleaved [latin1 "alt"] twoHints oneByOne _ (by decide) (by decide)
    (by decide) (by unfold Finished; decide) rfl).2.2 oneByOne_apart).2⟩

/-- Two saves that both read before either writes. -/
def sameTime : List (Action Bool) :=
  [.read false, .read true, .clear false, .commit false, .clear true, .commit true]

/-- Of two hints saved at the same time one is lost, whichever order is taken for the
right one. -/
theorem hint_lost :
    ∃ final, interleave (saving twoHints) [] sameTime = some final ∧ Finished sameTime ∧
      ∀ order : List Bool, order.Perm [false, true] →
        final.store ≠ order.foldl (fun file party => saved file (twoHints party)) [] := by
  refine ⟨_, rfl, by unfold Finished; decide, ?_⟩
  intro order permuted
  match order, permuted.length_eq with
  | [first, second], _ =>
    cases first <;> cases second <;> revert permuted <;> decide

end Schnitzeljagd.Police
